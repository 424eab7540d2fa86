import GraphRequest.Token
import Mathlib.Tactic.Lemma

/-!
# Matching a text by rules

The grammar of requests can also be given as parsing expressions over characters.  Matching an
expression either fails or takes a part of the text, and leaves **pairs**: for each rule that was
matched on the way its name, the stretch of the text it took, and the pairs of the rules inside.

```text
blank         = _{ " " | "\t" | "\r" | "\n" }
identChar     = _{ letter | digit | "_" }
ident         = @{ (letter | "_") identChar* }
bound         = ${ "<" ident ">" }
number        = @{ digit+ }
string        = ${ quote stringInner quote }
stringInner   = @{ (!quote any)* }
value         = _{ bound | number | string }
param         =  { ident ":" value }
params        =  { "(" (param ("," param)*)? ")" }
alias         = ${ "as" !identChar blank* ident }
labels        = @{ "labels" !identChar }
relationships = @{ "relationships" !identChar }
graph         = @{ "graph" !identChar }
directive     = _{ labels | relationships | graph }
field         =  { ident }
item          = _{ node | field }
items         = _{ item ("," item)* ","? }
properties    =  { "properties" "{" items? "}" }
entry         = _{ node | directive | properties | field }
body          =  { "{" (entry ("," entry)* ","?)? "}" }
node          =  { ident params alias? body }
query         = _{ start node end }
```

Choice is ordered and repetition greedy, and neither is taken back.  The mark before the braces is
the kind of a rule: `_` leaves no pair of its own, `@` takes blanks as they are and leaves no pairs
of the rules inside, `$` takes blanks as they are.  In the rules without a mark blanks are skipped
between the parts of a sequence and between the rounds of a repetition.

* `Peg.Symbol.kind`, `Peg.Symbol.expression` — the grammar.
* `Peg.Parses` — what matching comes to, failure included.
* `Peg.Parses.unique` — it comes to one thing at most.
-/

namespace GraphRequest.Peg

/-! ## Pairs -/

/-- The rules of the grammar. -/
inductive Symbol where
  | blank
  | identChar
  | ident
  | bound
  | number
  | string
  | stringInner
  | value
  | param
  | params
  | nodeAlias
  | labels
  | relationships
  | graph
  | directive
  | field
  | item
  | items
  | properties
  | entry
  | body
  | node
  | query
  | endOfInput
deriving DecidableEq

/-- A stretch of a text: what is ahead where it begins and where it ends. -/
structure Span where
  ahead : List Char
  after : List Char

/-- The text of a stretch. -/
def Span.text (span : Span) : String :=
  String.ofList (span.ahead.take (span.ahead.length - span.after.length))

lemma Span.text_eq {taken : String} {ahead after : List Char} (h : ahead = taken.toList ++ after) :
    Span.text ⟨ahead, after⟩ = taken := by
  rw [text, h]
  simp

/-- What the match of a rule leaves. -/
inductive Pair where
  | mk (symbol : Symbol) (span : Span) (inner : List Pair)

namespace Pair

/-- The rule that was matched. -/
def symbol : Pair → Symbol
  | .mk symbol _ _ => symbol

/-- The stretch it took. -/
def span : Pair → Span
  | .mk _ span _ => span

/-- The pairs of the rules inside. -/
def inner : Pair → List Pair
  | .mk _ _ inner => inner

@[simp] lemma inner_mk (symbol : Symbol) (span : Span) (inner : List Pair) :
    (mk symbol span inner).inner = inner := rfl

/-- The text it took. -/
def text (pair : Pair) : String :=
  pair.span.text

/-- The text that several pairs took, from the beginning of the first to the end of the last. -/
def textOf : List Pair → String
  | [] => ""
  | pair :: pairs => Span.text ⟨pair.span.ahead, (pairs.getLastD pair).span.after⟩

end Pair

/-! ## The grammar -/

/-- The kinds of rules: those that skip blanks; those that do, and leave no pair of their own; those
    that take blanks as they are, and leave no pairs of the rules inside; those that take blanks as
    they are. -/
inductive Kind where
  | spaced
  | silent
  | atomic
  | compound
deriving DecidableEq

/-- Classes of characters. -/
inductive Class where
  | letter
  | digit
  | any

/-- Whether a character is in a class. -/
def Class.accepts : Class → Char → Bool
  | .letter => Char.isAlpha
  | .digit => Char.isDigit
  | .any => fun _ => true

/-- Parsing expressions. -/
inductive Expression where
  /-- The beginning of the text. -/
  | start
  /-- The end of the text. -/
  | finish
  | single (accepted : Class)
  | text (word : String)
  | rule (symbol : Symbol)
  | seq (first second : Expression)
  | choice (first second : Expression)
  | optional (inner : Expression)
  /-- As often as it goes. -/
  | many (inner : Expression)
  /-- As often as it goes from the second time on. -/
  | further (inner : Expression)
  /-- That something is not ahead. -/
  | notAhead (inner : Expression)

open Expression

/-- Things with commas between them. -/
def separated (inner : Expression) : Expression :=
  seq inner (many (seq (text ",") inner))

/-- Things with commas between them and perhaps one after the last. -/
def separatedLoosely (inner : Expression) : Expression :=
  seq (separated inner) (optional (text ","))

/-- A word that is not part of a longer one. -/
def keyword (word : String) : Expression :=
  seq (text word) (notAhead (rule .identChar))

namespace Symbol

/-- The kind of a rule. -/
def kind : Symbol → Kind
  | .blank | .identChar | .value | .directive | .item | .items | .entry | .query => .silent
  | .ident | .number | .stringInner | .labels | .relationships | .graph => .atomic
  | .bound | .string | .nodeAlias => .compound
  | .param | .params | .field | .properties | .body | .node | .endOfInput => .spaced

/-- The expression of a rule. -/
def expression : Symbol → Expression
  | .blank => choice (text " ") (choice (text "\t") (choice (text "\r") (text "\n")))
  | .identChar => choice (choice (single .letter) (single .digit)) (text "_")
  | .ident => seq (choice (single .letter) (text "_")) (many (rule .identChar))
  | .bound => seq (text "<") (seq (rule .ident) (text ">"))
  | .number => seq (single .digit) (many (single .digit))
  | .string => seq (text "\"") (seq (rule .stringInner) (text "\""))
  | .stringInner => many (seq (notAhead (text "\"")) (single .any))
  | .value => choice (rule .bound) (choice (rule .number) (rule .string))
  | .param => seq (rule .ident) (seq (text ":") (rule .value))
  | .params => seq (text "(") (seq (optional (separated (rule .param))) (text ")"))
  | .nodeAlias => seq (keyword "as") (seq (many (rule .blank)) (rule .ident))
  | .labels => keyword "labels"
  | .relationships => keyword "relationships"
  | .graph => keyword "graph"
  | .directive => choice (rule .labels) (choice (rule .relationships) (rule .graph))
  | .field => rule .ident
  | .item => choice (rule .node) (rule .field)
  | .items => separatedLoosely (rule .item)
  | .properties => seq (text "properties") (seq (text "\x7b")
      (seq (optional (rule .items)) (text "\x7d")))
  | .entry => choice (rule .node) (choice (rule .directive)
      (choice (rule .properties) (rule .field)))
  | .body => seq (text "\x7b") (seq (optional (separatedLoosely (rule .entry))) (text "\x7d"))
  | .node => seq (rule .ident) (seq (rule .params) (seq (optional (rule .nodeAlias)) (rule .body)))
  | .query => seq start (seq (rule .node) (rule .endOfInput))
  | .endOfInput => finish

end Symbol

/-! ## Matching -/

/-- How the inside of a rule is matched: with blanks skipped, with blanks taken as they are, or in
    this way and without pairs. -/
inductive Mode where
  | spaced
  | compound
  | atomic
deriving DecidableEq

/-- What is ahead after the blanks that are skipped between two parts. -/
def Mode.skip : Mode → List Char → List Char
  | .spaced, cs => cs.dropWhile Char.isWhitespace
  | _, cs => cs

/-- How the inside of a rule is matched that stands inside another one. -/
def Kind.inside : Kind → Mode → Mode
  | .atomic, _ => .atomic
  | .compound, _ => .compound
  | _, mode => mode

/-- The pairs that the match of a rule leaves, given those of the rules inside. -/
def Symbol.pairs (symbol : Symbol) (mode : Mode) (span : Span) (inner : List Pair) : List Pair :=
  match symbol.kind, mode with
  | .silent, _ => inner
  | .compound, _ => [.mk symbol span inner]
  | _, .atomic => inner
  | _, _ => [.mk symbol span inner]

/-- What is left of the text and the pairs, if the match passed. -/
abbrev Outcome := Option (List Char × List Pair)

/-- **Matching an expression**, somewhere in an input, comes to an outcome. -/
inductive Parses (input : List Char) : Mode → Expression → List Char → Outcome → Prop
  | start {mode cs} (h : cs = input) : Parses input mode .start cs (some (cs, []))
  | start_fail {mode cs} (h : cs ≠ input) : Parses input mode .start cs none
  | finish {mode} : Parses input mode .finish [] (some ([], []))
  | finish_fail {mode c cs} : Parses input mode .finish (c :: cs) none
  | single {mode accepted c cs} (h : Class.accepts accepted c = true) :
      Parses input mode (.single accepted) (c :: cs) (some (cs, []))
  | single_fail {mode accepted cs} (h : ∀ c, cs.head? = some c → Class.accepts accepted c = false) :
      Parses input mode (.single accepted) cs none
  | text {mode word cs rest} (h : cs = word.toList ++ rest) :
      Parses input mode (.text word) cs (some (rest, []))
  | text_fail {mode word cs} (h : ¬ word.toList <+: cs) : Parses input mode (.text word) cs none
  | rule {mode symbol cs rest inner}
      (h : Parses input (symbol.kind.inside mode) symbol.expression cs (some (rest, inner))) :
      Parses input mode (.rule symbol) cs (some (rest, symbol.pairs mode ⟨cs, rest⟩ inner))
  | rule_fail {mode symbol cs}
      (h : Parses input (symbol.kind.inside mode) symbol.expression cs none) :
      Parses input mode (.rule symbol) cs none
  | seq {mode first second cs mid rest before after}
      (h : Parses input mode first cs (some (mid, before)))
      (h' : Parses input mode second (mode.skip mid) (some (rest, after))) :
      Parses input mode (.seq first second) cs (some (rest, before ++ after))
  | seq_fail_first {mode first second cs} (h : Parses input mode first cs none) :
      Parses input mode (.seq first second) cs none
  | seq_fail_second {mode first second cs mid before}
      (h : Parses input mode first cs (some (mid, before)))
      (h' : Parses input mode second (mode.skip mid) none) :
      Parses input mode (.seq first second) cs none
  | choice_first {mode first second cs rest pairs}
      (h : Parses input mode first cs (some (rest, pairs))) :
      Parses input mode (.choice first second) cs (some (rest, pairs))
  | choice_second {mode first second cs outcome} (h : Parses input mode first cs none)
      (h' : Parses input mode second cs outcome) :
      Parses input mode (.choice first second) cs outcome
  | optional_some {mode inner cs rest pairs} (h : Parses input mode inner cs (some (rest, pairs))) :
      Parses input mode (.optional inner) cs (some (rest, pairs))
  | optional_none {mode inner cs} (h : Parses input mode inner cs none) :
      Parses input mode (.optional inner) cs (some (cs, []))
  | many_none {mode inner cs} (h : Parses input mode inner cs none) :
      Parses input mode (.many inner) cs (some (cs, []))
  | many_some {mode inner cs mid rest before after}
      (h : Parses input mode inner cs (some (mid, before)))
      (h' : Parses input mode (.further inner) mid (some (rest, after))) :
      Parses input mode (.many inner) cs (some (rest, before ++ after))
  | further_none {mode inner cs} (h : Parses input mode inner (mode.skip cs) none) :
      Parses input mode (.further inner) cs (some (cs, []))
  | further_some {mode inner cs mid rest before after}
      (h : Parses input mode inner (mode.skip cs) (some (mid, before)))
      (h' : Parses input mode (.further inner) mid (some (rest, after))) :
      Parses input mode (.further inner) cs (some (rest, before ++ after))
  | notAhead {mode inner cs} (h : Parses input mode inner cs none) :
      Parses input mode (.notAhead inner) cs (some (cs, []))
  | notAhead_fail {mode inner cs taken} (h : Parses input mode inner cs (some taken)) :
      Parses input mode (.notAhead inner) cs none

/-- **Matching has one outcome at most.** -/
theorem Parses.unique {input : List Char} {mode : Mode} {expression : Expression}
    {cs : List Char} {outcome outcome' : Outcome} (h : Parses input mode expression cs outcome)
    (h' : Parses input mode expression cs outcome') : outcome = outcome' := by
  induction h generalizing outcome' with
  | start h => cases h' <;> simp_all
  | start_fail h => cases h' <;> simp_all
  | finish => cases h'; rfl
  | finish_fail => cases h'; rfl
  | single h => cases h' <;> simp_all
  | single_fail h => cases h' <;> simp_all
  | text h => cases h' <;> simp_all
  | text_fail h => cases h' <;> simp_all
  | rule _ ih => cases h' with
    | rule h => cases ih h; rfl
    | rule_fail h => cases ih h
  | rule_fail _ ih => cases h' with
    | rule h => cases ih h
    | rule_fail h => rfl
  | seq _ _ ih ih' => cases h' with
    | seq h h' => cases ih h; cases ih' h'; rfl
    | seq_fail_first h => cases ih h
    | seq_fail_second h h' => cases ih h; cases ih' h'
  | seq_fail_first _ ih => cases h' with
    | seq h h' => cases ih h
    | seq_fail_first h => rfl
    | seq_fail_second h h' => rfl
  | seq_fail_second _ _ ih ih' => cases h' with
    | seq h h' => cases ih h; cases ih' h'
    | seq_fail_first h => rfl
    | seq_fail_second h h' => rfl
  | choice_first _ ih => cases h' with
    | choice_first h => exact ih h
    | choice_second h h' => cases ih h
  | choice_second _ _ ih ih' => cases h' with
    | choice_first h => cases ih h
    | choice_second h h' => exact ih' h'
  | optional_some _ ih => cases h' with
    | optional_some h => exact ih h
    | optional_none h => cases ih h
  | optional_none _ ih => cases h' with
    | optional_some h => cases ih h
    | optional_none h => rfl
  | many_none _ ih => cases h' with
    | many_none h => rfl
    | many_some h h' => cases ih h
  | many_some _ _ ih ih' => cases h' with
    | many_none h => cases ih h
    | many_some h h' => cases ih h; cases ih' h'; rfl
  | further_none _ ih => cases h' with
    | further_none h => rfl
    | further_some h h' => cases ih h
  | further_some _ _ ih ih' => cases h' with
    | further_none h => cases ih h
    | further_some h h' => cases ih h; cases ih' h'; rfl
  | notAhead _ ih => cases h' with
    | notAhead h => rfl
    | notAhead_fail h => cases ih h
  | notAhead_fail _ ih => cases h' with
    | notAhead h => cases ih h
    | notAhead_fail h => rfl

end GraphRequest.Peg
