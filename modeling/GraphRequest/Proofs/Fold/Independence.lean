import GraphRequest.Proofs.Fold.Growth
import Mathlib.Data.List.Perm.Basic

/-!
# Roots do not influence each other

All rows go into one scope, the rows of one root between those of others.  What is reported of a
root depends on its own rows alone and on their order; where the rows of other roots stand among
them, and rows that have no root id, make no difference to it.

* `Request.recordsById` — the answer, each record under the text of the root's id.
* `Pattern.Rearranges` — that rows are others in another order, in which the rows of each id follow
  one another as before.  Rows without an id may stand anywhere or be missing.
* **`Request.reduce_rearranged`** — such rows report the same of every root, in the order in which
  the ids first appear; and rows that share no id are reduced apart.
-/

namespace GraphRequest

/-- That rows are others in another order which keeps the order among the rows of each id.  Nothing
    is said of rows without an id. -/
def Pattern.Rearranges (pattern : Pattern) (rows others : List Row) : Prop :=
  ∀ key, pattern.rowsWith key rows = pattern.rowsWith key others

namespace Pattern

variable {pattern : Pattern} {rows others : List Row}

/-- An id has rows exactly if it is among the ids. -/
lemma mem_keysIn_iff_rowsWith {key : String} :
    key ∈ pattern.keysIn rows ↔ pattern.rowsWith key rows ≠ [] :=
  ⟨pattern.rowsWith_ne_nil, fun h => by_contra fun hkey => h (pattern.rowsWith_eq_nil hkey)⟩

lemma Rearranges.mem_keysIn_iff (h : pattern.Rearranges rows others) (key : String) :
    key ∈ pattern.keysIn rows ↔ key ∈ pattern.keysIn others := by
  rw [mem_keysIn_iff_rowsWith, mem_keysIn_iff_rowsWith, h key]

lemma Rearranges.keysIn_perm (h : pattern.Rearranges rows others) :
    (pattern.keysIn others).Perm (pattern.keysIn rows) :=
  (List.perm_ext_iff_of_nodup (pattern.nodup_keysIn others) (pattern.nodup_keysIn rows)).mpr
    fun key => (h.mem_keysIn_iff key).symm

/-- The rows of one id keep their group. -/
lemma Rearranges.lookup_groups (h : pattern.Rearranges rows others) (key : String) :
    (pattern.groups rows).lookup key = (pattern.groups others).lookup key := by
  rw [pattern.lookup_groups, pattern.lookup_groups, h key]
  simp only [h.mem_keysIn_iff key]

/-- Rows that share no id with those before them make groups of their own. -/
lemma groups_append_of_disjoint (h : ∀ key ∈ pattern.keysIn rows, key ∉ pattern.keysIn others) :
    pattern.groups (rows ++ others) = pattern.groups rows ++ pattern.groups others := by
  have hnew : pattern.newRows rows others = others := by
    refine List.filter_eq_self.mpr fun row hrow => ?_
    cases hkey : pattern.key? row with
    | none => rfl
    | some key =>
        have hother : key ∈ pattern.keysIn others := pattern.mem_keysIn.mpr ⟨row, hrow, hkey⟩
        have hold : key ∉ pattern.keysIn rows := fun hmem => h key hmem hother
        simp [hold]
  rw [groups_append, hnew]
  congr 1
  refine (List.map_congr_left fun entry hentry => ?_).trans (List.map_id _)
  obtain ⟨key, group⟩ := entry
  have hkey : key ∈ pattern.keysIn rows := by
    rw [← pattern.keys_groups]
    exact List.mem_map_of_mem hentry
  simp [pattern.rowsWith_eq_nil (h key hkey)]

end Pattern

namespace Request

variable (request : Request)

/-- The records of an answer, each under the text of the id of its root. -/
def recordsById (rows : List Row) : Entries Record :=
  Entries.mapValues request.record (request.fold rows)

/-- The record of the entity of a group is that of its rows. -/
lemma record_ofGroup (group : List Row) :
    request.record (Entity.ofGroup request group (gatherBelow request.children group))
      = request.recordOf group := by
  obtain ⟨pattern, children⟩ := request
  have hown := Entity.ownRecord_ofGroup ⟨pattern, children⟩ group (gatherBelow children group)
  rw [record, hown, recordOf, Entries.insertAll_append]
  exact recordBelow_gatherBelow children group _

lemma recordsById_eq (rows : List Row) :
    request.recordsById rows
      = Entries.mapValues request.recordOf (request.pattern.groups rows) := by
  have hgather : request.gather rows = Entries.mapValues
      (fun group => Entity.ofGroup request group (gatherBelow request.children group))
      (request.pattern.groups rows) := by
    obtain ⟨pattern, children⟩ := request
    rw [gather]
  rw [recordsById, fold_eq_gather, hgather]
  simp only [Entries.mapValues, List.map_map, Function.comp_def, record_ofGroup]

/-- **Roots do not influence each other.**

* An answer lists its records by the first occurrences of their ids.
* Rows that rearrange others report the same under every id, and the same records as a whole.
* Rows that share no id with those before them are reduced as if they were alone. -/
theorem reduce_rearranged :
    (∀ rows, request.reduce rows = (request.recordsById rows).map Prod.snd
        ∧ Entries.keys (request.recordsById rows) = request.pattern.keysIn rows)
      ∧ (∀ rows others, request.pattern.Rearranges rows others →
          (∀ key, (request.recordsById rows).lookup key
            = (request.recordsById others).lookup key)
          ∧ (request.reduce others).Perm (request.reduce rows))
      ∧ ∀ rows more, (∀ key ∈ request.pattern.keysIn rows, key ∉ request.pattern.keysIn more) →
          request.reduce (rows ++ more) = request.reduce rows ++ request.reduce more := by
  have hreduce : ∀ rows, request.reduce rows
      = (request.pattern.groups rows).map fun entry => request.recordOf entry.2 := by
    intro rows
    rw [reduce, fold_eq_gather, records_gather, regroup_eq_map_recordOf]
  refine ⟨fun rows => ⟨?_, ?_⟩, fun rows others h => ⟨fun key => ?_, ?_⟩, fun rows more h => ?_⟩
  · rw [recordsById, Entries.mapValues, List.map_map]
    rfl
  · rw [recordsById_eq, ← Pattern.keys_groups]
    simp [Entries.keys, Entries.mapValues, Function.comp_def]
  · rw [recordsById_eq, recordsById_eq, Entries.lookup_mapValues, Entries.lookup_mapValues,
      h.lookup_groups]
  · -- both answers are made of the ids by the same function
    have hmap : ∀ rows', (∀ key, request.pattern.rowsWith key rows'
        = request.pattern.rowsWith key rows) → request.reduce rows'
          = (request.pattern.keysIn rows').map fun key =>
            request.recordOf (request.pattern.rowsWith key rows) := by
      intro rows' hrows'
      simp only [hreduce, Pattern.groups, List.map_map, Function.comp_def, hrows']
    rw [hmap rows fun _ => rfl, hmap others fun key => (h key).symm]
    exact h.keysIn_perm.map _
  · rw [hreduce, hreduce, hreduce, Pattern.groups_append_of_disjoint h, List.map_append]

/-- The rows of two genes come in turns, a row without a gene among them, or one gene after the
    other.  The traits of each gene stand in the same order. -/
theorem reduce_rearranged_gene_with_traits :
    ∃ (request : Request) (rows others : List Row), request.Accepted
      ∧ request.pattern.Rearranges rows others
      ∧ Entries.keys (request.recordsById rows) = ["true", "false"]
      ∧ Entries.keys (request.recordsById others) = ["false", "true"]
      ∧ (request.recordsById rows).lookup "true" = some [("name", .null),
          ("t", .array [.object [("p", .string "x"), ("relationships", .array [])],
            .object [("p", .string "y"), ("relationships", .array [])]])]
      ∧ (request.recordsById rows).lookup "true" = (request.recordsById others).lookup "true"
      ∧ (request.reduce others).Perm (request.reduce rows) := by
  let request : Request := ⟨⟨"Gene", "Gene", [], none, false, false, false, ["name"], none⟩,
    [⟨⟨"Trait", "t", [], some ":has", false, true, false, ["p"], some "Gene"⟩, []⟩]⟩
  let row (gene trait : Bool) (p : String) : Row :=
    [("__Geneid", .bool gene), ("__tid", .bool trait), ("t.p", .string p)]
  let stray : Row := [("Gene.name", .string "abc"), ("__tid", .bool false)]
  have haccepted : request.Accepted := ⟨_, ofText_gene_with_traits⟩
  have hkey : ∀ gene trait p, request.pattern.key? (row gene trait p)
      = some (if gene then "true" else "false") := by
    intro gene trait p
    cases gene <;> rfl
  have hstray : request.pattern.key? stray = none := rfl
  have hrows : request.pattern.Rearranges
      [row true true "x", row false true "z", stray, row true false "y"]
      [row false true "z", row true true "x", row true false "y"] := by
    intro key
    by_cases htrue : "true" = key
    · subst htrue
      simp [Pattern.rowsWith, hkey, hstray]
    · simp [Pattern.rowsWith, List.filter_cons, hkey, hstray, htrue]
  obtain ⟨hlookup, hperm⟩ := request.reduce_rearranged.2.1 _ _ hrows
  exact ⟨request, _, _, haccepted, hrows, rfl, rfl, rfl, hlookup _, hperm⟩

end Request

end GraphRequest
