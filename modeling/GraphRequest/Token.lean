/-!
# Tokens

A request is written with names, numbers, bound names between angle brackets, quoted strings and
six punctuation marks; blanks separate tokens and mean nothing.

A text of another kind still has tokens.  `Token.unclosed` is a bound name whose closing bracket
is missing and `Token.stray` any character that begins no token.  No phrase holds either, so
reading always stops in front of them, and what follows them in the text does not matter.

`Token.width` is the number of characters a token takes up, which is how the places of tokens are
counted.
-/

namespace GraphRequest

/-- A character that may begin a name: an ASCII letter or an underscore. -/
def isNameStart (c : Char) : Bool :=
  c.isAlpha || c == '_'

/-- A character that may go on in a name: one that may begin it, or an ASCII digit. -/
def isNameChar (c : Char) : Bool :=
  c.isAlphanum || c == '_'

/-- The punctuation marks of a request. -/
inductive Punctuation where
  | leftParen
  | rightParen
  | leftBrace
  | rightBrace
  | colon
  | comma
deriving DecidableEq

/-- The character a mark is written as. -/
def Punctuation.char : Punctuation → Char
  | .leftParen => '('
  | .rightParen => ')'
  | .leftBrace => '\x7b'
  | .rightBrace => '\x7d'
  | .colon => ':'
  | .comma => ','

/-- The marks, in no particular order. -/
def Punctuation.all : List Punctuation :=
  [.leftParen, .rightParen, .leftBrace, .rightBrace, .colon, .comma]

/-- The mark a character is, if it is one. -/
def Punctuation.ofChar? (c : Char) : Option Punctuation :=
  Punctuation.all.find? fun mark => mark.char == c

/-- A piece of a request. -/
inductive Token where
  /-- A name or a keyword. -/
  | ident (name : String)
  /-- Digits. -/
  | number (digits : String)
  /-- A name between angle brackets. -/
  | bound (name : String)
  /-- The text between two double quotes. -/
  | string (text : String)
  | punctuation (mark : Punctuation)
  /-- An opening angle bracket and a name that no closing bracket follows. -/
  | unclosed (name : String)
  /-- A character that begins no token. -/
  | stray (c : Char)
deriving DecidableEq

namespace Token

/-- The characters a token is written with. -/
def spelling : Token → List Char
  | .ident name => name.toList
  | .number digits => digits.toList
  | .bound name => '<' :: name.toList ++ ['>']
  | .string text => '"' :: text.toList ++ ['"']
  | .punctuation mark => [mark.char]
  | .unclosed name => '<' :: name.toList
  | .stray c => [c]

/-- How many characters a token takes up. -/
def width (token : Token) : Nat :=
  token.spelling.length

/-- The token after an opening angle bracket, and what is left. -/
def afterAngle : List Char → Token × List Char
  | [] => (.stray '<', [])
  | c :: cs =>
    if isNameStart c then
      let name := String.ofList (c :: cs.takeWhile isNameChar)
      match cs.dropWhile isNameChar with
      | '>' :: rest => (.bound name, rest)
      | rest => (.unclosed name, rest)
    else (.stray '<', c :: cs)

/-- The token after a double quote, and what is left.  There are no escapes: the next double
    quote ends the string. -/
def afterQuote (cs : List Char) : Token × List Char :=
  match cs.dropWhile (· != '"') with
  | [] => (.stray '"', cs)
  | _ :: rest => (.string (String.ofList (cs.takeWhile (· != '"'))), rest)

/-- The token at the front of a text that begins with `c`, which is no blank, and what is left.
    Names and numbers are taken as long as they go on. -/
def atFront (c : Char) (cs : List Char) : Token × List Char :=
  if isNameStart c then
    (.ident (String.ofList (c :: cs.takeWhile isNameChar)), cs.dropWhile isNameChar)
  else if c.isDigit then
    (.number (String.ofList (c :: cs.takeWhile Char.isDigit)), cs.dropWhile Char.isDigit)
  else if c = '"' then afterQuote cs
  else if c = '<' then afterAngle cs
  else match Punctuation.ofChar? c with
    | some mark => (.punctuation mark, cs)
    | none => (.stray c, cs)

end Token

end GraphRequest
