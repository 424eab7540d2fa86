import GraphRequest.Json.Basic
import GraphRequest.Proofs.Entries.Insertion
import Mathlib.Data.List.Perm.Subperm

/-!
# Agreement of values

`Json.agrees` looks up each member of one object in the other, so it is an equality only as long as
no object has a name twice.  `Json.NamesApart` says this of a value at every depth.  It holds of the
values that are read, where the members of an object are inserted one by one.

* `Json.agrees_self` — such a value agrees with itself.
* `Json.agrees_trans` — values that agree with one in common agree, whatever names they have.
* `Json.agrees_symm` — whether two such values agree does not depend on which one is looked up in
  the other.
-/

namespace GraphRequest

lemma Binary64.agrees_trans {x y z : Binary64} (h : x.agrees y = true) (h' : y.agrees z = true) :
    x.agrees z = true := by
  simp only [agrees, Bool.and_eq_true, Bool.or_eq_true, beq_iff_eq] at h h' ⊢
  obtain ⟨hrank, hsign⟩ := h
  obtain ⟨hrank', hsign'⟩ := h'
  refine ⟨hrank.trans hrank', ?_⟩
  rcases hsign with hsign | hzero
  · rcases hsign' with hsign' | hzero'
    · exact Or.inl (hsign.trans hsign')
    · exact Or.inr (hrank.trans hzero')
  · exact Or.inr hzero

lemma Number.agrees_trans {m n k : Number} (h : m.agrees n = true) (h' : n.agrees k = true) :
    m.agrees k = true := by
  cases m <;> cases n <;> cases k <;> simp_all [agrees]
  exact Binary64.agrees_trans h h'

lemma Binary64.agrees_symm {x y : Binary64} (h : x.agrees y = true) : y.agrees x = true := by
  simp only [agrees, Bool.and_eq_true, Bool.or_eq_true, beq_iff_eq] at h ⊢
  obtain ⟨hrank, hsign⟩ := h
  exact ⟨hrank.symm, hsign.imp Eq.symm fun hzero => hrank ▸ hzero⟩

lemma Number.agrees_symm {m n : Number} (h : m.agrees n = true) : n.agrees m = true := by
  cases m <;> cases n <;> simp_all [agrees]
  exact Binary64.agrees_symm h

namespace Json

mutual

/-- That no object in a value has a name twice. -/
def NamesApart : Json → Prop
  | .array items => ItemsApart items
  | .object members => (Entries.keys members).Nodup ∧ MembersApart members
  | _ => True
termination_by structural value => value

/-- The same of every element. -/
def ItemsApart : List Json → Prop
  | [] => True
  | item :: items => item.NamesApart ∧ ItemsApart items
termination_by structural items => items

/-- The same of the value of every member. -/
def MembersApart : List (String × Json) → Prop
  | [] => True
  | (_, value) :: members => value.NamesApart ∧ MembersApart members
termination_by structural members => members

end

lemma itemsApart_iff {items : List Json} : ItemsApart items ↔ ∀ item ∈ items, item.NamesApart := by
  induction items with
  | nil => simp [ItemsApart]
  | cons item items ih => simp [ItemsApart, ih]

lemma membersApart_iff {members : List (String × Json)} :
    MembersApart members ↔ ∀ member ∈ members, member.2.NamesApart := by
  induction members with
  | nil => simp [MembersApart]
  | cons member members ih => simp [MembersApart, ih]

mutual

/-- **A value agrees with itself.** -/
theorem agrees_self : ∀ value : Json, value.NamesApart → value.agrees value = true
  | .null => fun _ => rfl
  | .bool value => fun _ => beq_self_eq_true value
  | .number (.integer value) => fun _ => beq_self_eq_true value
  | .number (.float value) => fun _ => by simp [agrees, Number.agrees, Binary64.agrees]
  | .string value => fun _ => beq_self_eq_true value
  | .array items => fun h => itemsAgree_self items h
  | .object members => fun h => by
      rw [agrees, membersAgree_of_lookup members members h.2 fun name value hmem =>
        Entries.lookup_of_mem h.1 hmem]
      simp
termination_by structural value => value

lemma itemsAgree_self : ∀ items : List Json, ItemsApart items → itemsAgree items items = true
  | [] => fun _ => rfl
  | item :: items => fun h => by
      rw [itemsAgree, agrees_self item h.1, itemsAgree_self items h.2, Bool.and_true]
termination_by structural items => items

lemma membersAgree_of_lookup : ∀ members others : List (String × Json), MembersApart members →
    (∀ name value, (name, value) ∈ members → others.lookup name = some value) →
      membersAgree members others = true
  | [], _ => fun _ _ => rfl
  | (name, value) :: members, others => fun h hlookup => by
      rw [membersAgree, hlookup name value List.mem_cons_self,
        membersAgree_of_lookup members others h.2 fun other found hmem =>
          hlookup other found (List.mem_cons_of_mem _ hmem)]
      simp [agrees_self value h.1]
termination_by structural members => members

end

/-! ## Agreement is transitive -/

/-- Members agree with others if each of them finds its like. -/
lemma membersAgree_iff {members others : List (String × Json)} :
    membersAgree members others = true ↔ ∀ name value, (name, value) ∈ members →
      ∃ found, others.lookup name = some found ∧ value.agrees found = true := by
  induction members with
  | nil => simp [membersAgree]
  | cons member members ih =>
      obtain ⟨first, x⟩ := member
      rw [membersAgree, Bool.and_eq_true, ih]
      constructor
      · rintro ⟨hfirst, hrest⟩ name value hmem
        rcases List.mem_cons.mp hmem with heq | hmem
        · cases heq
          cases hfound : others.lookup first with
          | none => simp [hfound] at hfirst
          | some found => exact ⟨found, rfl, by simpa [hfound] using hfirst⟩
        · exact hrest name value hmem
      · intro h
        obtain ⟨found, hfound, hagrees⟩ := h first x List.mem_cons_self
        refine ⟨by simp [hfound, hagrees], fun name value hmem => ?_⟩
        exact h name value (List.mem_cons_of_mem _ hmem)

/-- Where members agree, every look-up does. -/
lemma exists_of_membersAgree {members others : List (String × Json)}
    (h : membersAgree members others = true) {name : String} {value : Json}
    (hlookup : members.lookup name = some value) :
    ∃ found, others.lookup name = some found ∧ value.agrees found = true :=
  membersAgree_iff.mp h name value (Entries.mem_of_lookup hlookup)

mutual

lemma agrees_trans : ∀ {x y z : Json}, x.agrees y = true → y.agrees z = true →
    x.agrees z = true
  | .null, y, z => by
      intro h h'
      cases y <;> cases z <;> simp_all [agrees]
  | .bool _, y, z => by
      intro h h'
      cases y <;> cases z <;> simp_all [agrees]
  | .number _, y, z => by
      intro h h'
      cases y <;> cases z <;> simp_all only [agrees, Bool.false_eq_true]
      exact Number.agrees_trans h h'
  | .string _, y, z => by
      intro h h'
      cases y <;> cases z <;> simp_all [agrees]
  | .array xs, y, z => by
      intro h h'
      cases y <;> cases z <;> simp_all only [agrees, Bool.false_eq_true]
      exact itemsAgree_trans h h'
  | .object xs, y, z => by
      intro h h'
      cases y <;> cases z <;>
        simp only [agrees, Bool.false_eq_true, Bool.and_eq_true, beq_iff_eq] at h h' ⊢
      refine ⟨h.1.trans h'.1, membersAgree_trans h.2 ?_⟩
      exact fun hlookup => exists_of_membersAgree h'.2 hlookup
termination_by structural x => x

lemma itemsAgree_trans : ∀ {xs ys zs : List Json}, itemsAgree xs ys = true →
    itemsAgree ys zs = true → itemsAgree xs zs = true
  | [], ys, zs => by
      intro h h'
      cases ys <;> cases zs <;> simp_all [itemsAgree]
  | x :: xs, ys, zs => by
      intro h h'
      cases ys <;> cases zs <;> simp_all only [itemsAgree, Bool.false_eq_true, Bool.and_eq_true]
      exact ⟨agrees_trans h.1 h'.1, itemsAgree_trans h.2 h'.2⟩
termination_by structural xs => xs

lemma membersAgree_trans : ∀ {xs ys zs : List (String × Json)}, membersAgree xs ys = true →
    (∀ {name y}, ys.lookup name = some y → ∃ z, zs.lookup name = some z ∧ y.agrees z = true) →
      membersAgree xs zs = true
  | [], _, _ => fun _ _ => rfl
  | (name, x) :: xs, ys, zs => by
      intro h hlookup
      simp only [membersAgree, Bool.and_eq_true] at h ⊢
      refine ⟨?_, membersAgree_trans h.2 hlookup⟩
      cases hy : ys.lookup name with
      | none => simp [hy] at h
      | some y =>
          obtain ⟨z, hz, hagree⟩ := hlookup hy
          rw [hy] at h
          rw [hz]
          exact agrees_trans h.1 hagree
termination_by structural xs => xs

end

/-! ## Agreement is symmetric -/

/-- Where members agree and are as many, no name is among the others alone. -/
lemma keys_subset_of_membersAgree {members others : List (String × Json)}
    (hnodup : (Entries.keys members).Nodup) (hlength : members.length = others.length)
    (h : membersAgree members others = true) : Entries.keys others ⊆ Entries.keys members := by
  have hsubset : Entries.keys members ⊆ Entries.keys others := by
    intro name hname
    obtain ⟨⟨_, value⟩, hmem, rfl⟩ := List.mem_map.mp hname
    obtain ⟨found, hfound, -⟩ := membersAgree_iff.mp h _ _ hmem
    exact List.mem_map.mpr ⟨_, Entries.mem_of_lookup hfound, rfl⟩
  have hkeys : (Entries.keys others).length ≤ (Entries.keys members).length := by
    simp [Entries.keys, hlength]
  exact ((hnodup.subperm hsubset).perm_of_length_le hkeys).symm.subset

mutual

/-- **Agreement is symmetric**, as long as no object has a name twice. -/
theorem agrees_symm : ∀ {x y : Json}, x.NamesApart → y.NamesApart → x.agrees y = true →
    y.agrees x = true
  | .null, y => by
      intro _ _ h
      cases y <;> simp_all [agrees]
  | .bool _, y => by
      intro _ _ h
      cases y <;> simp_all [agrees]
  | .number _, y => by
      intro _ _ h
      cases y <;> simp_all only [agrees, Bool.false_eq_true]
      exact Number.agrees_symm h
  | .string _, y => by
      intro _ _ h
      cases y <;> simp_all [agrees]
  | .array xs, y => by
      intro hx hy h
      cases y <;> simp_all only [agrees, Bool.false_eq_true]
      exact itemsAgree_symm hx hy h
  | .object xs, y => by
      intro hx hy h
      cases y <;> simp only [agrees, Bool.false_eq_true, Bool.and_eq_true, beq_iff_eq] at h ⊢
      obtain ⟨hlength, hmembers⟩ := h
      refine ⟨hlength.symm, membersAgree_iff.mpr fun name value hmem => ?_⟩
      have hkey : name ∈ Entries.keys xs :=
        keys_subset_of_membersAgree hx.1 hlength hmembers (List.mem_map.mpr ⟨_, hmem, rfl⟩)
      obtain ⟨⟨_, known⟩, hknown, rfl⟩ := List.mem_map.mp hkey
      obtain ⟨found, hfound, hagrees⟩ := membersAgree_iff.mp hmembers _ _ hknown
      obtain rfl : found = value :=
        Option.some.inj (hfound.symm.trans (Entries.lookup_of_mem hy.1 hmem))
      refine ⟨known, Entries.lookup_of_mem hx.1 hknown, ?_⟩
      exact memberAgrees_symm hx.2 _ _ _ hknown (membersApart_iff.mp hy.2 _ hmem) hagrees
termination_by structural x => x

lemma itemsAgree_symm : ∀ {xs ys : List Json}, ItemsApart xs → ItemsApart ys →
    itemsAgree xs ys = true → itemsAgree ys xs = true
  | [], ys => by
      intro _ _ h
      cases ys <;> simp_all [itemsAgree]
  | x :: xs, ys => by
      intro hx hy h
      cases ys <;> simp_all only [itemsAgree, Bool.false_eq_true, Bool.and_eq_true]
      exact ⟨agrees_symm hx.1 hy.1 h.1, itemsAgree_symm hx.2 hy.2 h.2⟩
termination_by structural xs => xs

lemma memberAgrees_symm : ∀ {xs : List (String × Json)}, MembersApart xs →
    ∀ (name : String) (x y : Json), (name, x) ∈ xs → y.NamesApart → x.agrees y = true →
      y.agrees x = true
  | [], _ => fun _ _ _ hmem => nomatch hmem
  | (_, value) :: xs, hx => fun name x y hmem hy h => by
      rcases List.mem_cons.mp hmem with heq | hmem
      · cases heq
        exact agrees_symm hx.1 hy h
      · exact memberAgrees_symm hx.2 name x y hmem hy h
termination_by structural xs => xs

end

end Json

end GraphRequest
