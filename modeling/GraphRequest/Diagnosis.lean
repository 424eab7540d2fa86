import GraphRequest.Phrase.Grammar
import GraphRequest.Token.Scan

/-!
# Why a text is no request

A diagnosis names the farthest place at which a rule failed, and the rules that failed there.
`Frontier.record` computes both from the record of attempts, one attempt at a time.

A rule that fails because of a single rule inside it that failed at the same place says nothing
new, so the inner one stands for it: of an empty text it is enough to say that `ident` was
expected, not `node`.  Where two or more rules inside failed at the place a rule starts at, the
rule stands for all of them.

The message shows the line of the place with a mark under it.
-/

namespace GraphRequest

/-- The farthest place at which a rule failed so far, and the rules that stand for what failed
    there, in the order they were recorded. -/
structure Frontier where
  place : Place
  rules : List Rule

namespace Frontier

/-- How many rules are recorded at a place. -/
def countAt (frontier : Frontier) (place : Place) : Nat :=
  if frontier.place = place then frontier.rules.length else 0

/-- Records that `rule` failed at `place`, in place of all but the first `kept` rules recorded
    there.  A failure behind the frontier is not recorded. -/
def push (frontier : Frontier) (rule : Rule) (place : Place) (kept : Nat) : Frontier :=
  if frontier.place = place then ⟨place, frontier.rules.take kept ++ [rule]⟩
  else if place.beyond frontier.place then ⟨place, [rule]⟩
  else frontier

mutual

/-- The frontier after an attempt.  A failed attempt stands for the attempts inside it that failed
    at its place, unless there was exactly one. -/
def record (frontier : Frontier) : Attempt → Frontier
  | .mk rule place stop inner =>
    let before := frontier.countAt place
    let after := frontier.recordAll inner
    if stop.isSome || after.countAt place - before = 1 then after
    else after.push rule place before
termination_by structural attempt => attempt

/-- The frontier after attempts made one after the other. -/
def recordAll (frontier : Frontier) : List Attempt → Frontier
  | [] => frontier
  | attempt :: attempts => (frontier.record attempt).recordAll attempts
termination_by structural attempts => attempts

end

/-- The frontier of a record of attempts at a text of so many tokens. -/
def ofAttempts (tokens : Nat) (tried : List Attempt) : Frontier :=
  recordAll ⟨⟨tokens, false⟩, []⟩ tried

end Frontier

/-- A text that is no request, the number of characters before the farthest place reached, and the
    rules one of which should have followed there. -/
structure Diagnosis where
  text : String
  position : Nat
  expected : List Rule
deriving DecidableEq

namespace Diagnosis

/-- The number of characters before a place in a text. -/
def positionOf (text : String) (place : Place) : Nat :=
  let lexemes := Lexeme.ofText text
  let start := match lexemes.drop (lexemes.length - place.ahead) with
    | [] => text.length
    | lexeme :: _ => lexeme.offset
  if place.inside then start + 1 else start

/-- The diagnosis of a text from the attempts made at it. -/
def ofAttempts (text : String) (tried : List Attempt) : Diagnosis :=
  let frontier := Frontier.ofAttempts (Token.ofText text).length tried
  { text
    position := positionOf text frontier.place
    expected := Rule.all.filter (· ∈ frontier.rules) }

variable (diagnosis : Diagnosis)

/-- The characters before the place. -/
def before : List Char :=
  diagnosis.text.toList.take diagnosis.position

/-- The characters from the place on. -/
def after : List Char :=
  diagnosis.text.toList.drop diagnosis.position

/-- The number of bytes before the place. -/
def offset : Nat :=
  (String.ofList diagnosis.before).utf8ByteSize

/-- The number of the line the place is on, from 1. -/
def line : Nat :=
  diagnosis.before.count '\n' + 1

/-- The part of the line that is before the place. -/
def lineBefore : List Char :=
  (diagnosis.before.reverse.takeWhile (· != '\n')).reverse

/-- The number of the character at the place within its line, from 1. -/
def column : Nat :=
  diagnosis.lineBefore.length + 1

/-- The line the place is on, with its line feed if it has one. -/
def lineText : List Char :=
  diagnosis.lineBefore ++ diagnosis.after.takeWhile (· != '\n') ++
    (diagnosis.after.dropWhile (· != '\n')).take 1

/-- A character of the line as it is shown where line breaks matter: they have symbols. -/
def lineBreakSymbol (c : Char) : Char :=
  if c = '\r' then '\u240d' else if c = '\n' then '\u240a' else c

/-- The line as it is shown.  Its line breaks are left out, unless the place is at one of them;
    then all of them are shown as symbols. -/
def lineShown : List Char :=
  match diagnosis.after.head? with
  | some '\n' | some '\r' => diagnosis.lineText.map lineBreakSymbol
  | _ => diagnosis.lineText.filter fun c => c != '\r' && c != '\n'

/-- The line under the one shown: a mark below the place.  Tabs are kept, so that the two lines
    stay aligned. -/
def underline : List Char :=
  (diagnosis.lineShown.take (diagnosis.column - 1)).map (fun c => if c = '\t' then '\t' else ' ')
    ++ ['^', '-', '-', '-']

/-- Names as an alternative. -/
def alternatives : List String → String
  | [] => ""
  | [a] => a
  | [a, b] => a ++ " or " ++ b
  | names => ", ".intercalate names.dropLast ++ ", or " ++ names.getLastD ""

/-- The message: where the place is, its line with the mark, and what was expected. -/
def message : String :=
  let number := diagnosis.line.repr
  let margin := String.ofList (List.replicate number.length ' ')
  "\n".intercalate
    [ margin ++ "--> " ++ number ++ ":" ++ diagnosis.column.repr
    , margin ++ " |"
    , number ++ " | " ++ String.ofList diagnosis.lineShown
    , margin ++ " | " ++ String.ofList diagnosis.underline
    , margin ++ " |"
    , margin ++ " = expected " ++ alternatives (diagnosis.expected.map Rule.name) ]

end Diagnosis

end GraphRequest
