import GraphRequest.Proofs.Token.Reading

/-!
# Where a text can be parted

Texts are put together here without any escaping.  What was put together is found again by the
characters it is made of: a part ends where they end, or where a separator stands that it does not
have inside, and it begins behind the last of a mark that it does not have either.
-/

namespace GraphRequest

/-- That a text does not begin by going on with a name. -/
def NameEnds (text : List Char) : Prop :=
  ∀ c, text.head? = some c → isNameChar c = false

@[simp] lemma nameEnds_cons {c : Char} {text : List Char} :
    NameEnds (c :: text) ↔ isNameChar c = false := by
  simp [NameEnds]

lemma NameEnds.append {text more : List Char} (htext : NameEnds text) (hmore : NameEnds more) :
    NameEnds (text ++ more) := by
  cases text with
  | nil => exact hmore
  | cons c text => exact htext

/-- A name in front of a text is read as far as it goes. -/
lemma IsName.parted {name : String} (h : IsName name) {rest : List Char} (hrest : NameEnds rest) :
    (name.toList ++ rest).takeWhile isNameChar = name.toList
      ∧ (name.toList ++ rest).dropWhile isNameChar = rest :=
  takeWhile_dropWhile_append h.all hrest

/-- What comes behind a character that is in no name is not looked at, whatever text is in front. -/
lemma takeWhile_isNameChar_append (text rest : List Char) {c : Char} (hc : isNameChar c = false) :
    (text ++ c :: rest).takeWhile isNameChar = text.takeWhile isNameChar := by
  induction text with
  | nil => simp [hc]
  | cons d text ih =>
      rw [List.cons_append, List.takeWhile_cons, List.takeWhile_cons, ih]

lemma dropWhile_isNameChar_append (text rest : List Char) {c : Char} (hc : isNameChar c = false) :
    (text ++ c :: rest).dropWhile isNameChar = text.dropWhile isNameChar ++ c :: rest := by
  induction text with
  | nil => simp [hc]
  | cons d text ih =>
      rw [List.cons_append, List.dropWhile_cons, List.dropWhile_cons, ih]
      split <;> rfl

variable {α : Type}

/-- Where something stops holding, a list can be parted in one way only. -/
lemma parts_eq {p : α → Prop} {front front' back back' : List α} (hfront : ∀ a ∈ front, p a)
    (hfront' : ∀ a ∈ front', p a) (hback : ∀ a, back.head? = some a → ¬ p a)
    (hback' : ∀ a, back'.head? = some a → ¬ p a) (h : front ++ back = front' ++ back') :
    front = front' ∧ back = back' := by
  induction front generalizing front' with
  | nil =>
      cases front' with
      | nil => exact ⟨rfl, h⟩
      | cons a front' =>
          exact absurd (hfront' a List.mem_cons_self) (hback a (congrArg List.head? h))
  | cons a front ih =>
      cases front' with
      | nil =>
          exact absurd (hfront a List.mem_cons_self) (hback' a (congrArg List.head? h).symm)
      | cons a' front' =>
          obtain ⟨rfl, hrest⟩ := List.cons.inj h
          obtain ⟨rfl, rfl⟩ := ih (fun b hb => hfront b (List.mem_cons_of_mem _ hb))
            (fun b hb => hfront' b (List.mem_cons_of_mem _ hb)) hrest
          exact ⟨rfl, rfl⟩

/-- Lists can be parted at the first of an element that is in neither front. -/
lemma parts_eq_at {a : α} {front front' back back' : List α} (hfront : a ∉ front)
    (hfront' : a ∉ front') (h : front ++ a :: back = front' ++ a :: back') :
    front = front' ∧ back = back' := by
  have hparts := parts_eq (p := (· ≠ a)) (fun b hb hba => hfront (hba ▸ hb))
    (fun b hb hba => hfront' (hba ▸ hb)) (by simp) (by simp) h
  exact ⟨hparts.1, (List.cons.inj hparts.2).2⟩

/-- Lists can be parted as well at the last of an element that is in neither back. -/
lemma parts_eq_at_last {a : α} {front front' back back' : List α} (hback : a ∉ back)
    (hback' : a ∉ back') (h : front ++ a :: back = front' ++ a :: back') :
    front = front' ∧ back = back' := by
  have hreverse : back.reverse ++ a :: front.reverse = back'.reverse ++ a :: front'.reverse := by
    simpa using congrArg List.reverse h
  obtain ⟨hbacks, hfronts⟩ := parts_eq_at (by simpa using hback) (by simpa using hback') hreverse
  exact ⟨List.reverse_inj.mp hfronts, List.reverse_inj.mp hbacks⟩

/-- Parts that each end with an element that none of them has can be told apart. -/
lemma ended_eq {a : α} {parts others : List (List α)} (hparts : ∀ part ∈ parts, a ∉ part)
    (hothers : ∀ other ∈ others, a ∉ other)
    (h : (parts.flatMap (· ++ [a])) = others.flatMap (· ++ [a])) : parts = others := by
  induction parts generalizing others with
  | nil =>
      cases others with
      | nil => rfl
      | cons other others => simp at h
  | cons part parts ih =>
      cases others with
      | nil => simp at h
      | cons other others =>
          rw [List.forall_mem_cons] at hparts hothers
          simp only [List.flatMap_cons, List.append_assoc, List.singleton_append] at h
          obtain ⟨rfl, hrest⟩ := parts_eq_at hparts.1 hothers.1 h
          rw [ih hparts.2 hothers.2 hrest]

/-- Separated parts are the first one and then, one after the other, a separator and a part. -/
lemma intercalate_cons (separator first : List α) (others : List (List α)) :
    separator.intercalate (first :: others) = first ++ others.flatMap (separator ++ ·) := by
  induction others generalizing first with
  | nil => simp
  | cons second others ih => simp [List.intercalate_cons_cons, ih]

lemma not_mem_intercalate {a : α} {separator : List α} {parts : List (List α)}
    (hseparator : a ∉ separator) (hparts : ∀ part ∈ parts, a ∉ part) :
    a ∉ separator.intercalate parts := by
  cases parts with
  | nil => simp
  | cons first others =>
      obtain ⟨hfirst, hothers⟩ := List.forall_mem_cons.mp hparts
      rw [intercalate_cons]
      simp only [List.mem_append, List.mem_flatMap, not_or, not_exists, not_and]
      exact ⟨hfirst, fun part hpart => ⟨hseparator, hothers part hpart⟩⟩

end GraphRequest
