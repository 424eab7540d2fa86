import GraphRequest.Phrase
import GraphRequest.Token
import Mathlib.Logic.Relation
import Mathlib.Tactic.Lemma

/-!
# Derivations of requests

The grammar of requests, read declaratively.  A choice may be made either way, a repetition may
stop after any number of rounds, and blanks of any length may stand wherever they are allowed to.
Nothing is tried in an order and nothing is taken as long as possible; that a name ends where it
ends has to follow from what comes after it.

```text
blank         = " " | TAB | CR | LF
ident         = ( letter | "_" ) { letter | digit | "_" }                       no blanks inside
bound         = "<" ident ">"                                                   no blanks inside
number        = digit { digit }                                                 no blanks inside
string        = QUOTE { any character but QUOTE } QUOTE                         no blanks added
param         = ident ":" ( bound | number | string )
params        = "(" [ param { "," param } ] ")"
alias         = "as" not-before( letter | digit | "_" ) { blank } ident         no other blanks
labels        = "labels" not-before( letter | digit | "_" )                     no blanks inside
field         = ident
item          = node | field
properties    = "properties" "{" [ item { "," item } [ "," ] ] "}"
entry         = node | labels | relationships | graph | properties | field
body          = "{" [ entry { "," entry } [ "," ] ] "}"
node          = ident params [ alias ] body
query         = { blank } node { blank } end
```

A **derivation** (`Derivation.Node`) records every choice but one: which alternative was taken, how
many rounds a repetition had, and whether an optional part is there, the comma after a last entry
included.  What it leaves open is the blanks.  So `Derivation.Node.Derives` is a relation between a
derivation and the texts it derives.

Derivations that differ only in reading a bare entry `labels`, `relationships` or `graph` as a
directive or as a field derive the same texts.  `Derivation.Node.settle` chooses the directive
everywhere.
-/

namespace GraphRequest

/-! ## Stretches of text

A stretch is what stands between two points of a text.  It is given by the text ahead of the
first point and the text ahead of the second, so that it can say what must **not** follow.
-/

/-- A kind of stretch: between which points of a text one stands. -/
abbrev Stretch := List Char → List Char → Prop

namespace Stretch

open Relation

/-- Nothing at all. -/
def nothing : Stretch := Eq

/-- One character of a class. -/
def oneOf (p : Char → Bool) : Stretch := fun ahead after =>
  ∃ c, p c = true ∧ ahead = c :: after

/-- A given text. -/
def literal (text : String) : Stretch := fun ahead after =>
  ahead = text.toList ++ after

/-- A punctuation mark. -/
def mark (mark : Punctuation) : Stretch := fun ahead after =>
  ahead = mark.char :: after

/-- Nothing, in front of no character of a class. -/
def notBefore (p : Char → Bool) : Stretch := fun ahead after =>
  ahead = after ∧ ∀ c, after.head? = some c → p c = false

/-- One stretch and, right after it, another. -/
def adjoin (front back : Stretch) : Stretch :=
  Comp front back

/-- Any number of blanks. -/
def blanks : Stretch :=
  ReflTransGen (oneOf Char.isWhitespace)

/-- One stretch and then another, blanks allowed between them. -/
def spaced (front back : Stretch) : Stretch :=
  front.adjoin (blanks.adjoin back)

/-- A stretch that has a given text. -/
def spelled (text : String) (part : Stretch) : Stretch := fun ahead after =>
  part ahead after ∧ ahead = text.toList ++ after

/-- An optional stretch. -/
def optional : Option Stretch → Stretch
  | none => nothing
  | some part => part

/-- Rounds of a comma and a stretch. -/
def rounds : List Stretch → Stretch
  | [] => nothing
  | part :: parts => (mark .comma).spaced (part.spaced (rounds parts))

/-- A stretch and rounds of more after commas. -/
def separated (part : Stretch) (parts : List Stretch) : Stretch :=
  part.spaced (rounds parts)

/-- The same, perhaps with a comma after the last. -/
def separatedLoosely (part : Stretch) (parts : List Stretch) (comma : Bool) : Stretch :=
  (separated part parts).spaced (if comma then mark .comma else nothing)

/-- A stretch between two marks. -/
def enclosed (opening closing : Punctuation) (part : Stretch) : Stretch :=
  (mark opening).spaced (part.spaced (mark closing))

/-! ### The rules without nodes -/

/-- A name. -/
def ident (name : String) : Stretch :=
  spelled name ((oneOf isNameStart).adjoin (ReflTransGen (oneOf isNameChar)))

/-- A numeral. -/
def number (digits : String) : Stretch :=
  spelled digits (TransGen (oneOf Char.isDigit))

/-- A name between angle brackets. -/
def bound (name : String) : Stretch :=
  (literal "<").adjoin ((ident name).adjoin (literal ">"))

/-- A text between double quotes. -/
def string (text : String) : Stretch :=
  (literal "\"").adjoin
    ((spelled text (ReflTransGen (oneOf (· != '"')))).adjoin (literal "\""))

/-- A word that is not the beginning of a longer one. -/
def keyword (word : String) : Stretch :=
  (literal word).adjoin (notBefore isNameChar)

/-- The value of a parameter. -/
def value : Value → Stretch
  | .bound name => bound name
  | .number digits => number digits
  | .string text => string text

/-- A parameter. -/
def param (parameter : Parameter) : Stretch :=
  (ident parameter.key).spaced ((mark .colon).spaced (value parameter.value))

/-- The parameters of a node. -/
def params (parameters : List Parameter) : Stretch :=
  enclosed .leftParen .rightParen <|
    match parameters with
    | [] => nothing
    | first :: rest => separated (param first) (rest.map param)

/-- An alias. -/
def nodeAlias (name : String) : Stretch :=
  (keyword "as").adjoin (blanks.adjoin (ident name))

end Stretch

/-! ## Derivations -/

namespace Derivation

/-- What stands between two braces: nothing, or parts with commas between them and perhaps one
    after the last. -/
inductive Block (α : Type) where
  | empty
  | filled (first : α) (rest : List α) (comma : Bool)

mutual

/-- The derivation of a node. -/
inductive Node where
  | mk (typeName : String) (params : List Parameter) (nodeAlias : Option String)
      (body : Block Entry)

/-- The derivation of an item of a `properties` block. -/
inductive Item where
  | field (name : String)
  | node (node : Node)

/-- The derivation of an entry of a body. -/
inductive Entry where
  | directive (directive : Directive)
  | item (item : Item)
  | properties (items : Block Item)

end

mutual

/-- The texts a node derives. -/
def Node.stretch : Node → Stretch
  | .mk typeName params nodeAlias body =>
    (Stretch.ident typeName).spaced <| (Stretch.params params).spaced <|
      (Stretch.optional (nodeAlias.map Stretch.nodeAlias)).spaced <|
        Stretch.enclosed .leftBrace .rightBrace (bodyStretch body)
termination_by structural node => node

/-- The texts an item derives. -/
def Item.stretch : Item → Stretch
  | .field name => Stretch.ident name
  | .node node => node.stretch
termination_by structural item => item

/-- The texts an entry derives. -/
def Entry.stretch : Entry → Stretch
  | .directive directive => Stretch.keyword directive.word
  | .item item => item.stretch
  | .properties items =>
    (Stretch.literal "properties").spaced
      (Stretch.enclosed .leftBrace .rightBrace (blockStretch items))
termination_by structural entry => entry

/-- The texts that stand between the braces of a body. -/
def bodyStretch : Block Entry → Stretch
  | .empty => Stretch.nothing
  | .filled first rest comma =>
    Stretch.separatedLoosely first.stretch (entryStretches rest) comma
termination_by structural body => body

/-- The texts that stand between the braces of a `properties` block. -/
def blockStretch : Block Item → Stretch
  | .empty => Stretch.nothing
  | .filled first rest comma =>
    Stretch.separatedLoosely first.stretch (itemStretches rest) comma
termination_by structural block => block

/-- The texts of several entries. -/
def entryStretches : List Entry → List Stretch
  | [] => []
  | entry :: entries => entry.stretch :: entryStretches entries
termination_by structural entries => entries

/-- The texts of several items. -/
def itemStretches : List Item → List Stretch
  | [] => []
  | item :: items => item.stretch :: itemStretches items
termination_by structural items => items

end

/-- **The texts a derivation derives**: blanks may stand before and after the node. -/
def Node.Derives (node : Node) (text : String) : Prop :=
  (Stretch.blanks.adjoin (node.stretch.adjoin Stretch.blanks)) text.toList []

/-! ## The phrase of a derivation

The phrase is what is left of a derivation when the commas are forgotten.
-/

mutual

/-- The phrase of a node. -/
def Node.phrase : Node → Phrase.Node
  | .mk typeName params nodeAlias body => .mk typeName params nodeAlias (bodyPhrase body)
termination_by structural node => node

/-- The phrase of an item. -/
def Item.phrase : Item → Phrase.Item
  | .field name => .field name
  | .node node => .node node.phrase
termination_by structural item => item

/-- The phrase of an entry. -/
def Entry.phrase : Entry → Phrase.Entry
  | .directive directive => .directive directive
  | .item item => .item item.phrase
  | .properties items => .properties (blockPhrase items)
termination_by structural entry => entry

/-- The entries of a body. -/
def bodyPhrase : Block Entry → List Phrase.Entry
  | .empty => []
  | .filled first rest _ => first.phrase :: entryPhrases rest
termination_by structural body => body

/-- The items of a block. -/
def blockPhrase : Block Item → List Phrase.Item
  | .empty => []
  | .filled first rest _ => first.phrase :: itemPhrases rest
termination_by structural block => block

/-- The phrases of several entries. -/
def entryPhrases : List Entry → List Phrase.Entry
  | [] => []
  | entry :: entries => entry.phrase :: entryPhrases entries
termination_by structural entries => entries

/-- The phrases of several items. -/
def itemPhrases : List Item → List Phrase.Item
  | [] => []
  | item :: items => item.phrase :: itemPhrases items
termination_by structural items => items

end

/-! ## Directives before fields -/

/-- The directive a word stands for, if it stands for one. -/
def directive? (word : String) : Option Directive :=
  [Directive.labels, .relationships, .graph].find? fun directive => directive.word == word

mutual

/-- The same node with every bare entry that is a directive's word read as the directive. -/
def Node.settle : Node → Node
  | .mk typeName params nodeAlias body => .mk typeName params nodeAlias (settleBody body)
termination_by structural node => node

/-- The same item, settled inside.  In a block the words of directives are fields. -/
def Item.settle : Item → Item
  | .field name => .field name
  | .node node => .node node.settle
termination_by structural item => item

/-- The same entry, settled. -/
def Entry.settle : Entry → Entry
  | .directive directive => .directive directive
  | .item (.field name) =>
    match directive? name with
    | some directive => .directive directive
    | none => .item (.field name)
  | .item (.node node) => .item (.node node.settle)
  | .properties items => .properties (settleBlock items)
termination_by structural entry => entry

/-- The same body, settled. -/
def settleBody : Block Entry → Block Entry
  | .empty => .empty
  | .filled first rest comma => .filled first.settle (settleEntries rest) comma
termination_by structural body => body

/-- The same block, settled inside. -/
def settleBlock : Block Item → Block Item
  | .empty => .empty
  | .filled first rest comma => .filled first.settle (settleItems rest) comma
termination_by structural block => block

/-- The same entries, settled. -/
def settleEntries : List Entry → List Entry
  | [] => []
  | entry :: entries => entry.settle :: settleEntries entries
termination_by structural entries => entries

/-- The same items, settled inside. -/
def settleItems : List Item → List Item
  | [] => []
  | item :: items => item.settle :: settleItems items
termination_by structural items => items

end

end Derivation

end GraphRequest
