import GraphRequest.Phrase.Attempt
import GraphRequest.Token

/-!
# Readers of phrases

A reader takes the tokens ahead and either gives up or gives a value and the tokens left.  Choice
is ordered: the second reader is tried only where the first gave up, from the same place, and a
choice once made is not taken back.  Repetition goes on as long as it can.

Beside its value every reading has the attempts it made.  They only pile up: no reader can look at
them, so what is read is a function of the tokens alone.
-/

namespace GraphRequest

/-- The outcome of a reader: a value and the tokens left, if it passed, and the attempts made. -/
structure Reading (α : Type) where
  value : Option (α × List Token)
  tried : List Attempt

/-- A reader of phrases of type `α`. -/
def Reader (α : Type) : Type :=
  List Token → Reading α

namespace Reader

variable {α β : Type}

/-- Reads nothing. -/
def done (x : α) : Reader α := fun tokens =>
  ⟨some (x, tokens), []⟩

/-- Gives up. -/
def fail : Reader α := fun _ =>
  ⟨none, []⟩

/-- Reads one thing, and then another that may depend on it. -/
def andThen (first : Reader α) (next : α → Reader β) : Reader β := fun tokens =>
  let read := first tokens
  match read.value with
  | none => ⟨none, read.tried⟩
  | some (x, rest) =>
    let more := next x rest
    ⟨more.value, read.tried ++ more.tried⟩

/-- Reads the first of two things that passes. -/
def orElse (first : Reader α) (second : Unit → Reader α) : Reader α := fun tokens =>
  let read := first tokens
  match read.value with
  | some _ => read
  | none =>
    let other := second () tokens
    ⟨other.value, read.tried ++ other.tried⟩

instance : Monad Reader where
  pure := done
  bind := andThen

instance : OrElse (Reader α) where
  orElse := orElse

/-- Reads a thing if it is there. -/
def optional (reader : Reader α) : Reader (Option α) :=
  some <$> reader <|> pure none

/-- Reads things one after the other, at most so many. -/
def manyUpTo (reader : Reader α) : Nat → Reader (List α)
  | 0 => pure []
  | rounds + 1 =>
    (do
      let x ← reader
      let xs ← manyUpTo reader rounds
      return x :: xs) <|> pure []

/-- Reads things one after the other, as long as there are any.  A thing has at least one token,
    so there are no more things than tokens. -/
def many (reader : Reader α) : Reader (List α) := fun tokens =>
  manyUpTo reader tokens.length tokens

/-- Reads the token a test accepts. -/
def token (accept : Token → Option α) : Reader α
  | [] => ⟨none, []⟩
  | front :: rest => ⟨(accept front).map (·, rest), []⟩

/-- Reads a punctuation mark. -/
def punctuation (mark : Punctuation) : Reader Unit :=
  token fun front => if front = .punctuation mark then some () else none

/-- Reads a given word, which is a name like any other. -/
def word (text : String) : Reader Unit :=
  token fun front => if front = .ident text then some () else none

/-- Reads a phrase as an attempt of the given rule, around the attempts made for it. -/
def attempt (rule : Rule) (reader : Reader α) : Reader α := fun tokens =>
  let read := reader tokens
  let stop := read.value.map fun (_, rest) => rest.length
  ⟨read.value, [.mk rule ⟨tokens.length, false⟩ stop read.tried]⟩

/-- Reads one thing and more of them after commas. -/
def separated (reader : Reader α) : Reader (List α) := do
  let x ← reader
  let xs ← many do
    punctuation .comma
    reader
  return x :: xs

/-- Reads things with commas between them, if there are any. -/
def listed (reader : Reader α) : Reader (List α) :=
  separated reader <|> pure []

/-- Reads things with commas between them and perhaps one after the last, if there are any. -/
def listedLoosely (reader : Reader α) : Reader (List α) :=
  (do
    let xs ← separated reader
    let _ ← optional (punctuation .comma)
    return xs) <|> pure []

end Reader

end GraphRequest
