import GraphRequest.Json.Reader
import GraphRequest.Proofs.Json.Agreement

/-!
# Values as they are read

The reader inserts the members of an object one after the other, so that of two members under one
name the later one stays.  Hence values that are read agree with themselves.

* `Json.Yields` — that whatever a reading finds has a property.  The reader is followed along its
  own definition, from what stands between brackets to whole values.
* **`Json.namesApart_of_parse?`** — no text is read as a value in which an object has a name twice.
-/

namespace GraphRequest.Json

/-- That whatever a reading finds has a property. -/
def Yields {α : Type} (p : α → Prop) (read : Reading α) : Prop :=
  ∀ cs x rest, read cs = some (x, rest) → p x

section

variable {α : Type} {p : α → Prop} {read : Reading α}

/-- What holds of everything that one reading finds holds of all that is found between brackets. -/
lemma Yields.readUntil (h : Yields p read) (closing : Char) (rounds : Nat) :
    Yields (fun xs => ∀ x ∈ xs, p x) (readUntil closing read rounds) := by
  induction rounds with
  | zero =>
      intro cs xs rest hread
      simp [Json.readUntil] at hread
  | succ rounds ih =>
      intro cs xs rest hread
      rw [Json.readUntil] at hread
      split at hread
      · simp at hread
      · rename_i first after hfirst
        have hp : p first := h _ _ _ hfirst
        split at hread
        · split at hread
          · obtain ⟨rfl, -⟩ : [first] = xs ∧ _ := by simpa using hread
            exact List.forall_mem_singleton.mpr hp
          · split at hread
            · obtain ⟨⟨others, last⟩, hothers, heq⟩ := Option.map_eq_some_iff.mp hread
              cases heq
              exact List.forall_mem_cons.mpr ⟨hp, ih _ _ _ hothers⟩
            · simp at hread
        · simp at hread

lemma Yields.readAll (h : Yields p read) (closing : Char) :
    Yields (fun xs => ∀ x ∈ xs, p x) (readAll closing read) := by
  intro cs xs rest hread
  rw [Json.readAll] at hread
  split at hread
  · split at hread
    · obtain ⟨rfl, -⟩ : [] = xs ∧ _ := by simpa using hread
      exact List.forall_mem_nil _
    · exact h.readUntil closing _ _ _ _ hread
  · simp at hread

end

/-! ## Scalars -/

lemma yields_readWord (word : List Char) (value : Json) (h : value.NamesApart) :
    Yields NamesApart (readWord word value) := by
  intro cs found rest hread
  rw [readWord] at hread
  split at hread
  · obtain ⟨rfl, -⟩ : value = found ∧ _ := by simpa using hread
    exact h
  · simp at hread

lemma yields_readScalar : Yields NamesApart readScalar := by
  intro cs value rest hread
  rw [readScalar.eq_def] at hread
  split at hread
  · obtain ⟨⟨text, last⟩, -, heq⟩ := Option.map_eq_some_iff.mp hread
    cases heq
    trivial
  · exact yields_readWord _ .null trivial _ _ _ hread
  · exact yields_readWord _ (.bool true) trivial _ _ _ hread
  · exact yields_readWord _ (.bool false) trivial _ _ _ hread
  · obtain ⟨⟨number, last⟩, -, heq⟩ := Option.map_eq_some_iff.mp hread
    cases heq
    trivial

/-! ## Arrays and objects -/

lemma Yields.readMember {read : Reading Json} (h : Yields NamesApart read) :
    Yields (fun member => member.2.NamesApart) (readMember read) := by
  intro cs member rest hread
  rw [Json.readMember.eq_def] at hread
  split at hread
  · split at hread
    · simp at hread
    · split at hread
      · obtain ⟨⟨value, last⟩, hvalue, heq⟩ := Option.map_eq_some_iff.mp hread
        cases heq
        exact h _ _ _ hvalue
      · simp at hread
  · simp at hread

/-- No object that is read has a name twice, however deep it stands. -/
theorem yields_readValue (depth : Nat) : Yields NamesApart (readValue depth) := by
  induction depth with
  | zero => exact yields_readScalar
  | succ depth ih =>
      intro cs value rest hread
      rw [readValue.eq_def] at hread
      split at hread
      · contradiction
      · rename_i hdepth
        cases hdepth
        obtain ⟨⟨items, last⟩, hitems, heq⟩ := Option.map_eq_some_iff.mp hread
        cases heq
        exact itemsApart_iff.mpr (ih.readAll ']' _ _ _ hitems)
      · rename_i hdepth
        cases hdepth
        obtain ⟨⟨members, last⟩, hmembers, heq⟩ := Option.map_eq_some_iff.mp hread
        cases heq
        have hvalues := ih.readMember.readAll '\x7d' _ _ _ hmembers
        exact ⟨Entries.nodup_keys_insertAll (by simp) members,
          membersApart_iff.mpr (Entries.forall_mem_insertAll (by simp) hvalues)⟩
      · exact yields_readScalar _ _ _ hread

/-- **No text is read as a value in which an object has a name twice.** -/
theorem namesApart_of_parse? {depth : Nat} {text : String} {value : Json}
    (h : parse? depth text = some value) : value.NamesApart := by
  rw [parse?] at h
  split at h
  · rename_i found rest hread
    split at h
    · obtain rfl : found = value := by simpa using h
      exact yields_readValue depth _ _ _ hread
    · simp at h
  · simp at h

end GraphRequest.Json
