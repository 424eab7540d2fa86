import GraphRequest.Phrase
import GraphRequest.Phrase.Reader

/-!
# The grammar of requests

```text
node       = ident params alias? body
params     = "(" [ param { "," param } ] ")"
param      = ident ":" ( bound | number | string )
alias      = "as" ident
body       = "{" [ entry { "," entry } [ "," ] ] "}"
entry      = node | directive | properties | field
directive  = "labels" | "relationships" | "graph"
properties = "properties" "{" [ item { "," item } [ "," ] ] "}"
item       = node | field
field      = ident
```

There are no reserved words.  A name is a type name as soon as parameters follow it, `properties`
opens a block only in front of a brace, and in a block the words of directives are fields.

Each reader takes as a parameter the reader of the nodes inside, so that only `node` recurs; it
does so at most once per token, since a node inside another has fewer tokens.
-/

namespace GraphRequest.Phrase

open Reader

/-- Reads a name. -/
def ident : Reader String :=
  attempt .ident <| token fun
    | .ident name => some name
    | _ => none

/-- Reads a bound name.  The name between the brackets is attempted for itself, right after the
    opening bracket. -/
def bound : Reader String :=
  attempt .bound fun tokens =>
    let inside (stop : Option Nat) : Attempt := .mk .ident ⟨tokens.length, true⟩ stop []
    match tokens with
    | .bound name :: rest => ⟨some (name, rest), [inside (some rest.length)]⟩
    | .unclosed _ :: rest => ⟨none, [inside (some rest.length)]⟩
    | .stray '<' :: _ => ⟨none, [inside none]⟩
    | _ => ⟨none, []⟩

/-- Reads a number. -/
def number : Reader String :=
  attempt .number <| token fun
    | .number digits => some digits
    | _ => none

/-- Reads a quoted string. -/
def string : Reader String :=
  attempt .string <| token fun
    | .string text => some text
    | _ => none

/-- Reads the value of a parameter. -/
def value : Reader Value :=
  Value.bound <$> bound <|> Value.number <$> number <|> Value.string <$> string

/-- Reads a parameter. -/
def param : Reader Parameter :=
  attempt .param do
    let key ← ident
    punctuation .colon
    let value ← value
    return ⟨key, value⟩

/-- Reads the parameters of a node. -/
def params : Reader (List Parameter) :=
  attempt .params do
    punctuation .leftParen
    let params ← listed param
    punctuation .rightParen
    return params

/-- Reads an alias. -/
def nodeAlias : Reader String :=
  attempt .nodeAlias do
    word "as"
    ident

/-- Reads the word of one directive. -/
def directiveWord (rule : Rule) (directive : Directive) : Reader Directive :=
  attempt rule do
    word directive.word
    return directive

/-- Reads a directive. -/
def directive : Reader Directive :=
  directiveWord .labels .labels <|> directiveWord .relationships .relationships <|>
    directiveWord .graph .graph

/-- Reads a field. -/
def field : Reader Item :=
  attempt .field (Item.field <$> ident)

/-- Reads an item of a `properties` block. -/
def item (inner : Reader Node) : Reader Item :=
  Item.node <$> inner <|> field

/-- Reads a `properties` block. -/
def properties (inner : Reader Node) : Reader (List Item) :=
  attempt .properties do
    word "properties"
    punctuation .leftBrace
    let items ← listedLoosely (item inner)
    punctuation .rightBrace
    return items

/-- Reads an entry of a body. -/
def entry (inner : Reader Node) : Reader Entry :=
  (Entry.item ∘ Item.node) <$> inner <|> Entry.directive <$> directive <|>
    Entry.properties <$> properties inner <|> Entry.item <$> field

/-- Reads the body of a node. -/
def body (inner : Reader Node) : Reader (List Entry) :=
  attempt .body do
    punctuation .leftBrace
    let entries ← listedLoosely (entry inner)
    punctuation .rightBrace
    return entries

/-- Reads a node, given how the nodes inside are read. -/
def nodeAround (inner : Reader Node) : Reader Node :=
  attempt .node do
    let typeName ← ident
    let params ← params
    let given ← optional nodeAlias
    let entries ← body inner
    return .mk typeName params given entries

/-- Reads a node with fewer than `depth` nodes around one another. -/
def node : (depth : Nat) → Reader Node
  | 0 => fail
  | depth + 1 => nodeAround (node depth)

/-- Reads the end of the text. -/
def endOfInput : Reader Unit :=
  attempt .endOfInput fun tokens =>
    match tokens with
    | [] => ⟨some ((), []), []⟩
    | _ :: _ => ⟨none, []⟩

/-- Reads a whole request.  Nodes cannot nest deeper than there are tokens. -/
def request : Reader Node := fun tokens =>
  (do
    let root ← node (tokens.length + 1)
    endOfInput
    return root : Reader Node) tokens

end GraphRequest.Phrase
