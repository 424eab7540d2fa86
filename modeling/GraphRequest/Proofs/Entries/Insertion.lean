import GraphRequest.Entries
import Mathlib.Data.List.Induction
import Mathlib.Data.List.Nodup
import Mathlib.Tactic.Lemma

/-!
# Named values are their names and their look-ups

`Entries.upsert` is the one operation on named values, and its two laws say what it does to the
names and to the look-ups.  This file adds what makes the two laws enough: named values in which
no name stands twice are **determined** by their names in order and by what each name is bound to
(`Entries.ext_of_lookup`).  Every later equation between rows, records or scopes is proved by
comparing the two.

* `Entries.getElem?_upsert_of_ne` — an `upsert` changes nothing beside the place of its name;
* `Entries.lookup_insertAll` — after inserting many values a name is bound to the last of them;
* `Entries.nodup_keys_insertAll` — and no name stands twice;
* `Entries.keys_insertAll_nil` — a name stands where it was inserted first;
* `Entries.insertAll_eq_append` — different new names just go to the end;
* `Entries.insertAll_zip` — so of the values given for one name only the last one counts;
* `Entries.upsert_mapValues` — changing one value and then mapping all is mapping all and then
  changing one.
-/

namespace GraphRequest.Entries

variable {α β : Type}

@[simp] lemma keys_nil : keys ([] : Entries α) = [] := rfl

@[simp] lemma keys_cons (entry : String × α) (rest : Entries α) :
    keys (entry :: rest) = entry.1 :: keys rest := rfl

@[simp] lemma keys_append (front back : Entries α) :
    keys (front ++ back) = keys front ++ keys back := by
  simp [keys]

/-- A name is bound to something exactly if it is there. -/
lemma lookup_eq_none_iff {name : String} {entries : Entries α} :
    entries.lookup name = none ↔ name ∉ keys entries := by
  induction entries with
  | nil => simp
  | cons entry rest ih =>
      obtain ⟨other, value⟩ := entry
      by_cases h : name = other
      · simp [h]
      · have hne : (name == other) = false := by simp [h]
        simp [List.lookup_cons, hne, h, ih]

/-- Named values are determined by their names and their look-ups, as long as no name stands
    twice. -/
theorem ext_of_lookup {front back : Entries α} (hkeys : keys front = keys back)
    (hnodup : (keys front).Nodup) (hlookup : ∀ name, front.lookup name = back.lookup name) :
    front = back := by
  induction front generalizing back with
  | nil =>
      cases back with
      | nil => rfl
      | cons entry rest => simp at hkeys
  | cons entry rest ih =>
      cases back with
      | nil => simp at hkeys
      | cons entry' rest' =>
          obtain ⟨name, value⟩ := entry
          obtain ⟨name', value'⟩ := entry'
          simp only [keys_cons, List.cons.injEq] at hkeys
          obtain ⟨rfl, hrest⟩ := hkeys
          simp only [keys_cons, List.nodup_cons] at hnodup
          have hvalue : value = value' := by simpa using hlookup name
          have htail : rest = rest' := by
            refine ih hrest hnodup.2 fun other => ?_
            by_cases h : other = name
            · subst h
              rw [lookup_eq_none_iff.mpr hnodup.1, lookup_eq_none_iff.mpr (hrest ▸ hnodup.1)]
            · have hne : (other == name) = false := by simp [h]
              simpa [List.lookup_cons, hne] using hlookup other
          rw [hvalue, htail]

/-- A value is what its name is bound to, as long as no name stands twice. -/
lemma lookup_of_mem {entries : Entries α} (h : (keys entries).Nodup)
    {name : String} {value : α} (hmem : (name, value) ∈ entries) :
    entries.lookup name = some value := by
  induction entries with
  | nil => simp at hmem
  | cons entry rest ih =>
      obtain ⟨other, found⟩ := entry
      obtain ⟨hnew, hrest⟩ := List.nodup_cons.mp h
      rcases List.mem_cons.mp hmem with heq | htail
      · cases heq
        simp
      · have hother : name ≠ other := by
          rintro rfl
          exact hnew (List.mem_map.mpr ⟨(name, value), htail, rfl⟩)
        rw [List.lookup_cons, beq_false_of_ne hother]
        exact ih hrest htail

lemma mem_of_lookup {entries : Entries α} {name : String} {value : α}
    (h : entries.lookup name = some value) : (name, value) ∈ entries := by
  obtain ⟨before, after, rfl, -⟩ := List.lookup_eq_some_iff.mp h
  simp

/-- Looking up under keys that were changed by an injective function. -/
lemma lookup_map_of_injective {κ ι : Type} [DecidableEq κ] [DecidableEq ι] {f : κ → ι}
    (hf : Function.Injective f) (key : κ) (entries : List (κ × α)) :
    (entries.map fun (key, value) => (f key, value)).lookup (f key) = entries.lookup key := by
  induction entries with
  | nil => rfl
  | cons entry rest ih =>
      obtain ⟨other, value⟩ := entry
      rw [List.map_cons, List.lookup_cons, List.lookup_cons, ih]
      by_cases h : key = other
      · simp [h]
      · rw [beq_false_of_ne h, beq_false_of_ne (hf.ne h)]

lemma lookup_map_self (value : String → α) (names : List String) {name : String}
    (hmem : name ∈ names) :
    (names.map fun name => (name, value name)).lookup name = some (value name) := by
  induction names with
  | nil => simp at hmem
  | cons other names ih =>
      by_cases h : name = other
      · simp [h]
      · rw [List.map_cons, List.lookup_cons, beq_false_of_ne h]
        exact ih ((List.mem_cons.mp hmem).resolve_left h)

/-- What is bound already and does not change stays where it is. -/
lemma upsert_eq_self {name : String} {change : Option α → α} {value : α}
    {entries : Entries α} (hlookup : entries.lookup name = some value)
    (hchange : change (some value) = value) : upsert name change entries = entries := by
  induction entries with
  | nil => simp at hlookup
  | cons entry rest ih =>
      obtain ⟨other, found⟩ := entry
      by_cases h : other = name
      · subst h
        obtain rfl : found = value := by simpa using hlookup
        rw [upsert, if_pos rfl, hchange]
      · have hne : (name == other) = false := by simp [Ne.symm h]
        rw [List.lookup_cons, hne] at hlookup
        rw [upsert, if_neg h, ih hlookup]

/-! ## Places -/

/-- What is bound to a name stands where the name stands among the names. -/
lemma getElem?_idxOf (name : String) (entries : Entries α) :
    entries[(keys entries).idxOf name]? = (entries.lookup name).map fun value => (name, value) := by
  induction entries with
  | nil => rfl
  | cons entry rest ih =>
      obtain ⟨other, value⟩ := entry
      by_cases h : name = other
      · subst h
        simp
      · have hne : (name == other) = false := by simp [h]
        simp [List.idxOf_cons_ne _ (Ne.symm h), List.lookup_cons, hne, ih]

/-- An `upsert` changes nothing beside the place of its name. -/
lemma getElem?_upsert_of_ne {name : String} {entries : Entries α} {place : ℕ}
    (h : place ≠ (keys entries).idxOf name) (change : Option α → α) :
    (upsert name change entries)[place]? = entries[place]? := by
  induction entries generalizing place with
  | nil =>
      obtain ⟨place, rfl⟩ := Nat.exists_eq_succ_of_ne_zero h
      rfl
  | cons entry rest ih =>
      obtain ⟨other, value⟩ := entry
      rw [upsert]
      by_cases hother : other = name
      · subst hother
        obtain ⟨place, rfl⟩ := Nat.exists_eq_succ_of_ne_zero (by simpa using h)
        rw [if_pos rfl, List.getElem?_cons_succ, List.getElem?_cons_succ]
      · rw [keys_cons, List.idxOf_cons_ne _ hother] at h
        rw [if_neg hother]
        cases place with
        | zero => rfl
        | succ place => exact ih fun heq => h (congrArg Nat.succ heq)

/-- At the place of the name stands the changed value. -/
lemma getElem?_upsert_idxOf (name : String) (change : Option α → α) (entries : Entries α) :
    (upsert name change entries)[(keys entries).idxOf name]?
      = some (name, change (entries.lookup name)) := by
  have hplace : (keys (upsert name change entries)).idxOf name = (keys entries).idxOf name := by
    rw [keys_upsert]
    split
    · rfl
    · rename_i hnew
      rw [List.idxOf_append_of_notMem hnew, List.idxOf_of_notMem hnew, List.idxOf_cons_self]
      rfl
  rw [← hplace, getElem?_idxOf, lookup_upsert, if_pos rfl, Option.map_some]

/-! ## Inserting many values -/

@[simp] lemma insertAll_nil (entries : Entries α) : insertAll entries [] = entries := rfl

@[simp] lemma insertAll_cons (entries : Entries α) (name : String) (value : α)
    (new : Entries α) :
    insertAll entries ((name, value) :: new) = insertAll (insert name value entries) new := rfl

lemma insertAll_append (entries new more : Entries α) :
    insertAll entries (new ++ more) = insertAll (insertAll entries new) more := by
  simp [insertAll]

/-- After inserting many values a name is bound to the last of them. -/
lemma lookup_insertAll (name : String) (entries new : Entries α) :
    (insertAll entries new).lookup name = (new.reverse.lookup name).or (entries.lookup name) := by
  induction new generalizing entries with
  | nil => simp
  | cons entry rest ih =>
      obtain ⟨other, value⟩ := entry
      rw [insertAll_cons, ih, List.reverse_cons, List.lookup_append, insert, lookup_upsert,
        Option.or_assoc]
      by_cases h : name = other
      · simp [h]
      · have hne : (name == other) = false := by simp [h]
        simp [List.lookup_cons, h, hne]

/-- Inserting never makes a name stand twice. -/
lemma nodup_keys_insertAll {entries : Entries α} (h : (keys entries).Nodup)
    (new : Entries α) : (keys (insertAll entries new)).Nodup := by
  induction new generalizing entries with
  | nil => exact h
  | cons entry rest ih => exact ih (nodup_keys_upsert entry.1 _ h)

/-- The names after inserting many values depend on the names inserted alone. -/
lemma keys_insertAll_congr {entries : Entries α} {entries' : Entries β} {new : Entries α}
    {new' : Entries β} (h : keys entries = keys entries') (hnew : keys new = keys new') :
    keys (insertAll entries new) = keys (insertAll entries' new') := by
  induction new generalizing entries entries' new' with
  | nil =>
      cases new' with
      | nil => exact h
      | cons entry rest => simp at hnew
  | cons entry rest ih =>
      cases new' with
      | nil => simp at hnew
      | cons entry' rest' =>
          obtain ⟨name, value⟩ := entry
          obtain ⟨name', value'⟩ := entry'
          simp only [keys_cons, List.cons.injEq] at hnew
          rw [insertAll_cons, insertAll_cons]
          refine ih ?_ hnew.2
          rw [insert, insert, keys_upsert, keys_upsert, h, hnew.1]

lemma mem_keys_insertAll {name : String} {entries new : Entries α} :
    name ∈ keys (insertAll entries new) ↔ name ∈ keys entries ∨ name ∈ keys new := by
  induction new generalizing entries with
  | nil => simp
  | cons entry rest ih =>
      obtain ⟨other, value⟩ := entry
      rw [insertAll_cons, ih, insert, keys_upsert]
      split
      · rename_i hmem
        simp only [keys_cons, List.mem_cons]
        refine ⟨Or.imp_right Or.inr, ?_⟩
        rintro (h | rfl | h)
        · exact Or.inl h
        · exact Or.inl hmem
        · exact Or.inr h
      · simp [or_assoc]

/-- A new name goes to the end. -/
lemma insert_eq_append {name : String} {entries : Entries α} (value : α)
    (h : name ∉ keys entries) : insert name value entries = entries ++ [(name, value)] := by
  induction entries with
  | nil => rfl
  | cons entry rest ih =>
      obtain ⟨first, found⟩ := entry
      simp only [keys_cons, List.mem_cons, not_or] at h
      simp only [insert] at ih
      simp [insert, upsert, Ne.symm h.1, ih h.2]

/-- Different new names go to the end in their order. -/
lemma insertAll_eq_append {entries new : Entries α} (hnew : (keys new).Nodup)
    (hdisjoint : (keys entries).Disjoint (keys new)) : insertAll entries new = entries ++ new := by
  induction new generalizing entries with
  | nil => rw [insertAll_nil, List.append_nil]
  | cons entry new ih =>
      obtain ⟨name, value⟩ := entry
      obtain ⟨hname, hrest⟩ := List.nodup_cons.mp hnew
      rw [keys_cons, List.disjoint_cons_right] at hdisjoint
      have hkeys : (keys (entries ++ [(name, value)])).Disjoint (keys new) := by
        rw [keys_append, List.disjoint_append_left]
        exact ⟨hdisjoint.2, List.singleton_disjoint.mpr hname⟩
      rw [insertAll_cons, insert_eq_append value hdisjoint.1, ih hrest hkeys, List.append_assoc,
        List.singleton_append]

/-- Of names that are inserted several times the first insertion gives the place. -/
lemma keys_insertAll_nil (new : Entries α) : keys (insertAll [] new) = (keys new).eraseDups := by
  induction new using List.reverseRecOn with
  | nil => rfl
  | append_singleton new entry ih =>
      obtain ⟨name, value⟩ := entry
      have hlast : insertAll [] (new ++ [(name, value)])
          = insert name value (insertAll [] new) := by
        rw [insertAll_append]
        rfl
      rw [hlast, insert, keys_upsert, ih, keys_append, List.eraseDups_append]
      by_cases h : name ∈ keys new
      · simp [List.removeAll, h]
      · simp [List.removeAll, h, List.eraseDups_cons]

/-- What holds of all values and of whatever the change makes of them, or of nothing, holds
    afterwards. -/
lemma forall_mem_upsert {p : α → Prop} {name : String} {change : Option α → α}
    {entries : Entries α} (h : ∀ entry ∈ entries, p entry.2) (hnew : p (change none))
    (hknown : ∀ value, p value → p (change (some value))) :
    ∀ entry ∈ upsert name change entries, p entry.2 := by
  induction entries with
  | nil => exact List.forall_mem_singleton.mpr hnew
  | cons entry rest ih =>
      obtain ⟨hentry, hrest⟩ := List.forall_mem_cons.mp h
      rw [upsert]
      split
      · exact List.forall_mem_cons.mpr ⟨hknown _ hentry, hrest⟩
      · exact List.forall_mem_cons.mpr ⟨hentry, ih hrest⟩

lemma forall_mem_insert {p : α → Prop} {name : String} {value : α} {entries : Entries α}
    (h : ∀ entry ∈ entries, p entry.2) (hvalue : p value) :
    ∀ entry ∈ insert name value entries, p entry.2 :=
  forall_mem_upsert h hvalue fun _ _ => hvalue

/-- What holds of all values that are there and of all that are inserted holds of all. -/
lemma forall_mem_insertAll {p : α → Prop} {entries new : Entries α}
    (h : ∀ entry ∈ entries, p entry.2) (hnew : ∀ entry ∈ new, p entry.2) :
    ∀ entry ∈ insertAll entries new, p entry.2 := by
  induction new generalizing entries with
  | nil => exact h
  | cons entry new ih =>
      obtain ⟨hentry, hnew⟩ := List.forall_mem_cons.mp hnew
      exact ih (forall_mem_insert h hentry) hnew

/-- Inserting the values of a list of names is inserting, for each name, the last of its values. -/
lemma insertAll_zip {names : List String} {values : List α} {value : String → α}
    (hlength : values.length = names.length)
    (hvalue : ∀ name ∈ names, (names.zip values).reverse.lookup name = some (value name)) :
    insertAll [] (names.map fun name => (name, value name)) = insertAll [] (names.zip values) := by
  have hkeys : keys (names.map fun name => (name, value name)) = keys (names.zip values) := by
    rw [keys, keys, List.map_map, List.map_fst_zip (Nat.le_of_eq hlength.symm)]
    exact List.map_id _
  refine ext_of_lookup (keys_insertAll_congr rfl hkeys) (nodup_keys_insertAll (by simp) _) ?_
  intro name
  rw [lookup_insertAll, lookup_insertAll]
  by_cases hmem : name ∈ names
  · rw [hvalue name hmem, ← List.map_reverse, lookup_map_self _ _ (List.mem_reverse.mpr hmem)]
  · have hnone : ∀ entries : Entries α, keys entries = names →
        entries.reverse.lookup name = none := by
      rintro entries rfl
      refine lookup_eq_none_iff.mpr fun h => hmem ?_
      rwa [keys, List.map_reverse, List.mem_reverse] at h
    have hmap : keys (names.map fun name => (name, value name)) = names := by
      rw [keys, List.map_map]
      exact List.map_id _
    rw [hnone _ hmap, hnone _ (hkeys.symm.trans hmap)]

/-! ## Mapping all values -/

/-- Applies a function to every value. -/
def mapValues (f : α → β) (entries : Entries α) : Entries β :=
  entries.map fun (name, value) => (name, f value)

lemma lookup_mapValues (f : α → β) (name : String) (entries : Entries α) :
    (mapValues f entries).lookup name = (entries.lookup name).map f := by
  induction entries with
  | nil => rfl
  | cons entry rest ih =>
      obtain ⟨other, value⟩ := entry
      unfold mapValues at ih
      by_cases h : name = other
      · simp [mapValues, h]
      · have hne : (name == other) = false := by simp [h]
        simp [mapValues, List.lookup_cons, hne, ih]

/-- Changing one value and then mapping all is mapping all and then changing one. -/
lemma upsert_mapValues (f : α → β) (name : String) (change : Option α → α)
    (change' : Option β → β) (entries : Entries α) (hnew : f (change none) = change' none)
    (hknown : ∀ value, (name, value) ∈ entries →
      f (change (some value)) = change' (some (f value))) :
    mapValues f (upsert name change entries) = upsert name change' (mapValues f entries) := by
  induction entries with
  | nil => simp [mapValues, upsert, hnew]
  | cons entry rest ih =>
      obtain ⟨other, value⟩ := entry
      by_cases h : other = name
      · subst h
        simp [mapValues, upsert, hknown value (by simp)]
      · have hrest := ih fun value' hmem => hknown value' (List.mem_cons_of_mem _ hmem)
        simp only [mapValues] at hrest
        simp [mapValues, upsert, h, hrest]

end GraphRequest.Entries
