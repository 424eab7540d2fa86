import GraphRequest.Json.Basic

/-!
# Reading JSON text

The reader is strict: one value with nothing but blanks around it, no leading zeros, no trailing
commas, no raw control characters in strings, no half of a surrogate pair, no number beyond the
finite ones, and no nesting deeper than a given limit.  A name that stands twice in an object
keeps its first place and its last value.

Every reader takes characters and gives back what it read and what is left.  The nesting limit is
also what the recursion is on, so deep texts need no other bound; the loops over elements run at
most once per character.
-/

namespace GraphRequest.Json

/-- Reads a value of type `α` off the front of a text. -/
abbrev Reading (α : Type) := List Char → Option (α × List Char)

/-- Drops the blanks in front. -/
def skipBlanks (cs : List Char) : List Char :=
  cs.dropWhile Char.isWhitespace

/-- The value of digits read from the left. -/
def digitsValue (digits : List Char) : Nat :=
  digits.foldl (fun n c => 10 * n + (c.toNat - '0'.toNat)) 0

/-- Reads one or more digits. -/
def readDigits : Reading (List Char) := fun cs =>
  match cs.takeWhile Char.isDigit with
  | [] => none
  | digits => some (digits, cs.dropWhile Char.isDigit)

/-- Reads the digits after a point, if there is a point. -/
def readFraction : Reading (Option (List Char))
  | '.' :: cs => (readDigits cs).map fun (digits, rest) => (some digits, rest)
  | cs => some (none, cs)

/-- Reads an exponent, if there is one. -/
def readExponent : Reading (Option Int)
  | c :: cs =>
    if c = 'e' || c = 'E' then
      match cs with
      | '-' :: cs =>
        (readDigits cs).map fun (digits, rest) => (some (-(digitsValue digits : Int)), rest)
      | '+' :: cs => (readDigits cs).map fun (digits, rest) => (some (digitsValue digits), rest)
      | cs => (readDigits cs).map fun (digits, rest) => (some (digitsValue digits), rest)
    else some (none, c :: cs)
  | [] => some (none, [])

/-- The number written with these parts.  Without fraction and exponent it is an integer if it
    fits in 64 bits, signed or unsigned; the integer `-0` is the negative zero. -/
def makeNumber (negative : Bool) (whole : List Char) (fraction : Option (List Char))
    (exponent : Option Int) : Option Number :=
  let float (digits : Nat) (exponent : Int) :=
    (Binary64.ofDecimal negative digits exponent).map Number.float
  match fraction, exponent with
  | none, none =>
    let n := digitsValue whole
    if negative then
      if n = 0 then float 0 0
      else if n ≤ Nat.pow 2 63 then some (.integer (-(n : Int))) else float n 0
    else if n < Nat.pow 2 64 then some (.integer n) else float n 0
  | _, _ =>
    let places := fraction.getD []
    float (digitsValue (whole ++ places)) (exponent.getD 0 - places.length)

/-- Reads a number. -/
def readNumber : Reading Number := fun cs =>
  let (negative, cs) := match cs with
    | '-' :: rest => (true, rest)
    | _ => (false, cs)
  match readDigits cs with
  | none => none
  | some (whole, cs) =>
    if whole.head? = some '0' && whole.length != 1 then none
    else match readFraction cs with
      | none => none
      | some (fraction, cs) =>
        match readExponent cs with
        | none => none
        | some (exponent, cs) => (makeNumber negative whole fraction exponent).map (·, cs)

/-- The value of a hexadecimal digit of either case. -/
def hexDigit? (c : Char) : Option Nat :=
  if c.isDigit then some (c.toNat - '0'.toNat)
  else if 'a' ≤ c && c ≤ 'f' then some (c.toNat - 'a'.toNat + 10)
  else if 'A' ≤ c && c ≤ 'F' then some (c.toNat - 'A'.toNat + 10)
  else none

/-- The value of four hexadecimal digits. -/
def hexValue? (digits : List Char) : Option Nat :=
  digits.foldl (fun n c => n.bind fun n => (hexDigit? c).map (16 * n + ·)) (some 0)

/-- The character for a backslash and this one, where it takes no digits. -/
def unescape? (c : Char) : Option Char :=
  if c = '"' || c = '\\' || c = '/' then some c
  else if c = 'b' then some '\x08'
  else if c = 'f' then some '\x0c'
  else if c = 'n' then some '\n'
  else if c = 'r' then some '\r'
  else if c = 't' then some '\t'
  else none

/-- Puts a character in front of what was read. -/
def prepend (c : Char) : Option (List Char × List Char) → Option (List Char × List Char)
  | none => none
  | some (cs, rest) => some (c :: cs, rest)

/-- Reads the inside of a string up to the closing quotation mark.  A character beyond the first
    plane is escaped as a high and a low surrogate, one right after the other. -/
def readString : Reading (List Char)
  | [] => none
  | '"' :: rest => some ([], rest)
  | '\\' :: 'u' :: a :: b :: c :: d :: rest =>
    match hexValue? [a, b, c, d] with
    | none => none
    | some unit =>
      if unit < 0xD800 || 0xDFFF < unit then prepend (Char.ofNat unit) (readString rest)
      else if 0xDBFF < unit then none
      else match rest with
        | '\\' :: 'u' :: a :: b :: c :: d :: rest =>
          match hexValue? [a, b, c, d] with
          | none => none
          | some low =>
            if low < 0xDC00 || 0xDFFF < low then none
            else
              let point := 0x10000 + (unit - 0xD800) * 0x400 + (low - 0xDC00)
              prepend (Char.ofNat point) (readString rest)
        | _ => none
  | '\\' :: c :: rest =>
    match unescape? c with
    | none => none
    | some plain => prepend plain (readString rest)
  | c :: rest => if c.toNat < 32 then none else prepend c (readString rest)

/-- Reads a given word. -/
def readWord (word : List Char) (value : Json) : Reading Json := fun cs =>
  if cs.take word.length = word then some (value, cs.drop word.length) else none

/-- Reads a value that is neither an array nor an object. -/
def readScalar : Reading Json
  | '"' :: cs => (readString cs).map fun (s, rest) => (.string (String.ofList s), rest)
  | 'n' :: cs => readWord ['u', 'l', 'l'] .null cs
  | 't' :: cs => readWord ['r', 'u', 'e'] (.bool true) cs
  | 'f' :: cs => readWord ['a', 'l', 's', 'e'] (.bool false) cs
  | cs => (readNumber cs).map fun (n, rest) => (.number n, rest)

/-- Reads one or more things with commas between them, and the closing bracket after them. -/
def readUntil {α : Type} (closing : Char) (read : Reading α) : Nat → Reading (List α)
  | 0, _ => none
  | rounds + 1, cs =>
    match read (skipBlanks cs) with
    | none => none
    | some (x, cs) =>
      match skipBlanks cs with
      | c :: cs =>
        if c = closing then some ([x], cs)
        else if c = ',' then
          (readUntil closing read rounds cs).map fun (xs, rest) => (x :: xs, rest)
        else none
      | [] => none

/-- Reads things with commas between them up to the closing bracket; there may be none. -/
def readAll {α : Type} (closing : Char) (read : Reading α) : Reading (List α) := fun cs =>
  match skipBlanks cs with
  | c :: rest => if c = closing then some ([], rest) else readUntil closing read cs.length cs
  | [] => none

/-- Reads a member: a string, a colon, a value. -/
def readMember (read : Reading Json) : Reading (String × Json)
  | '"' :: cs =>
    match readString cs with
    | none => none
    | some (name, cs) =>
      match skipBlanks cs with
      | ':' :: cs => (read (skipBlanks cs)).map fun (x, rest) => ((String.ofList name, x), rest)
      | _ => none
  | _ => none

/-- Reads a value with at most `depth` arrays and objects around one another. -/
def readValue : (depth : Nat) → Reading Json
  | 0, cs => readScalar cs
  | depth + 1, '[' :: cs =>
    (readAll ']' (readValue depth) cs).map fun (items, rest) => (.array items, rest)
  | depth + 1, '\x7b' :: cs =>
    (readAll '\x7d' (readMember (readValue depth)) cs).map fun (members, rest) =>
      (.object (Entries.insertAll [] members), rest)
  | _ + 1, cs => readScalar cs

/-- The value of a whole text, if it is a JSON text nested no deeper than `depth`. -/
def parse? (depth : Nat) (text : String) : Option Json :=
  match readValue depth (skipBlanks text.toList) with
  | some (x, rest) => if (skipBlanks rest).isEmpty then some x else none
  | none => none

/-- How deep the rows handed in may nest. -/
def nestingLimit : Nat := 127

end GraphRequest.Json
