import GraphRequest.Token

/-!
# The tokens of a text

`Lexeme.scan` cuts a text into tokens and notes the place of each; `Token.ofText` forgets the
places.  All later reading works on the tokens alone, so nothing that is read can depend on where
the blanks stand.

* `length_atFront` — cutting a token off leaves no more than there was, which is why scanning
  ends;
* `spelling_atFront` — nothing is lost: what was cut off and what is left are the text.
-/

namespace GraphRequest

namespace Token

/-- Dropping characters in front leaves no more than there was. -/
theorem length_dropWhile_le {p : Char → Bool} (cs : List Char) :
    (cs.dropWhile p).length ≤ cs.length :=
  (List.dropWhile_suffix p).length_le

/-- Cutting a token off leaves no more than there was. -/
theorem length_atFront (c : Char) (cs : List Char) : (atFront c cs).2.length ≤ cs.length := by
  unfold atFront
  split
  · exact length_dropWhile_le cs
  split
  · exact length_dropWhile_le cs
  split
  · unfold afterQuote
    split
    · exact Nat.le_refl _
    · rename_i rest h
      have := length_dropWhile_le (p := (· != '"')) cs
      rw [h] at this
      exact Nat.le_of_succ_le this
  split
  · unfold afterAngle
    split
    · exact Nat.le_refl _
    · rename_i d ds
      have hdrop := length_dropWhile_le (p := isNameChar) ds
      split
      · split
        · rename_i rest h
          rw [h] at hdrop
          simp only [List.length_cons] at hdrop ⊢
          omega
        · simp only [List.length_cons]
          omega
      · exact Nat.le_refl _
  · split <;> exact Nat.le_refl _

/-- What was cut off and what is left are the text. -/
theorem spelling_atFront (c : Char) (cs : List Char) :
    (atFront c cs).1.spelling ++ (atFront c cs).2 = c :: cs := by
  unfold atFront
  split
  · simp [spelling]
  split
  · simp [spelling]
  split
  · rename_i hquote
    unfold afterQuote
    split
    · simp [spelling, hquote]
    · rename_i d rest h
      have hd : d = '"' := by
        have := List.head?_dropWhile_not (p := (· != '"')) cs
        simpa [h] using this
      have hcs : cs.takeWhile (· != '"') ++ '"' :: rest = cs := by
        have := List.takeWhile_append_dropWhile (p := (· != '"')) (l := cs)
        rwa [h, hd] at this
      simp [spelling, hquote, hcs]
  split
  · rename_i hangle
    unfold afterAngle
    split
    · simp [spelling, hangle]
    · rename_i d ds
      split
      · split
        · rename_i rest h
          have hds : ds.takeWhile isNameChar ++ '>' :: rest = ds := by
            rw [← h]
            exact List.takeWhile_append_dropWhile
          simp [spelling, hangle, hds]
        · simp [spelling, hangle]
      · simp [spelling, hangle]
  · split
    · rename_i mark h
      have := List.find?_some h
      simp only [beq_iff_eq] at this
      simp [spelling, this]
    · simp [spelling]

end Token

/-- A token and the number of characters before it. -/
structure Lexeme where
  token : Token
  offset : Nat
deriving DecidableEq

namespace Lexeme

/-- Cuts a text into tokens and drops the blanks; `offset` characters come before the text. -/
def scan (offset : Nat) : List Char → List Lexeme
  | [] => []
  | c :: cs =>
    if c.isWhitespace then scan (offset + 1) cs
    else
      let token := (Token.atFront c cs).1
      ⟨token, offset⟩ :: scan (offset + token.width) (Token.atFront c cs).2
termination_by cs => cs.length
decreasing_by
  · simp
  · have := Token.length_atFront c cs
    simp only [List.length_cons]
    omega

/-- The lexemes of a request text. -/
def ofText (text : String) : List Lexeme :=
  scan 0 text.toList

end Lexeme

/-- The tokens of a request text. -/
def Token.ofText (text : String) : List Token :=
  (Lexeme.ofText text).map Lexeme.token

end GraphRequest
