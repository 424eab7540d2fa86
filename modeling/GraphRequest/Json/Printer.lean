import GraphRequest.Json.Basic
import GraphRequest.Number.Shortest

/-!
# JSON text

The compact text of a value has no blanks, and it is more than a way to show the value: within one
scope two rows belong to the same entity exactly when the compact texts of their ids are equal.
The indented text differs from it in blanks alone.

In a string only the quotation mark, the backslash and the control characters below U+0020 are
escaped; all else stands for itself.
-/

namespace GraphRequest

/-- The text of a number: an integer in decimal, a floating point number by its shortest
    digits. -/
def Number.text : Number → String
  | .integer (.ofNat n) => n.repr
  | .integer (.negSucc n) => "-" ++ (n + 1).repr
  | .float x => x.text

namespace Json

/-- How one character of a string is written. -/
def escape (c : Char) : List Char :=
  if c = '"' then ['\\', '"']
  else if c = '\\' then ['\\', '\\']
  else if c = '\x08' then ['\\', 'b']
  else if c = '\t' then ['\\', 't']
  else if c = '\n' then ['\\', 'n']
  else if c = '\x0c' then ['\\', 'f']
  else if c = '\r' then ['\\', 'r']
  else if c.toNat < 32 then
    ['\\', 'u', '0', '0', Nat.digitChar (c.toNat / 16), Nat.digitChar (c.toNat % 16)]
  else [c]

/-- A string between quotation marks. -/
def quote (s : String) : String :=
  String.ofList ('"' :: s.toList.flatMap escape ++ ['"'])

mutual

/-- The compact text of a value. -/
def compact : Json → String
  | .null => "null"
  | .bool true => "true"
  | .bool false => "false"
  | .number n => n.text
  | .string s => quote s
  | .array items => "[" ++ ",".intercalate (compactItems items) ++ "]"
  | .object members => "\x7b" ++ ",".intercalate (compactMembers members) ++ "\x7d"
termination_by structural x => x

/-- The compact texts of elements. -/
def compactItems : List Json → List String
  | [] => []
  | x :: xs => x.compact :: compactItems xs
termination_by structural xs => xs

/-- The compact texts of members, each with its name. -/
def compactMembers : List (String × Json) → List String
  | [] => []
  | (name, x) :: xs => (quote name ++ ":" ++ x.compact) :: compactMembers xs
termination_by structural xs => xs

end

/-- Two more blanks of indentation. -/
def deeper (margin : String) : String :=
  margin ++ "  "

/-- Parts between brackets, each on a line of its own; brackets around nothing stay together. -/
def bracketed (margin opening closing : String) : List String → String
  | [] => opening ++ closing
  | parts =>
    opening ++ "\n" ++ ",\n".intercalate (parts.map (deeper margin ++ ·))
      ++ "\n" ++ margin ++ closing

mutual

/-- The text of a value indented by two blanks a level, its lines starting at `margin`. -/
def indented (margin : String) : Json → String
  | .array items => bracketed margin "[" "]" (indentedItems (deeper margin) items)
  | .object members => bracketed margin "\x7b" "\x7d" (indentedMembers (deeper margin) members)
  | x => x.compact
termination_by structural x => x

/-- The indented texts of elements. -/
def indentedItems (margin : String) : List Json → List String
  | [] => []
  | x :: xs => x.indented margin :: indentedItems margin xs
termination_by structural xs => xs

/-- The indented texts of members, each with its name. -/
def indentedMembers (margin : String) : List (String × Json) → List String
  | [] => []
  | (name, x) :: xs => (quote name ++ ": " ++ x.indented margin) :: indentedMembers margin xs
termination_by structural xs => xs

end

/-- The indented text of a value. -/
def pretty (x : Json) : String :=
  x.indented ""

end Json

end GraphRequest
