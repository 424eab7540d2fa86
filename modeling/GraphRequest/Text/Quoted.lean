import GraphRequest.Text.Invisible

/-!
# Quoted text

Messages quote paths and other messages so that they stay on one line and show every character.
The quotation mark, the backslash and the usual controls have short escapes; any other character
that cannot be seen is written by its number.
-/

namespace GraphRequest.Quoted

/-- How one character is written. -/
def escape (c : Char) : List Char :=
  if c = '"' then ['\\', '"']
  else if c = '\\' then ['\\', '\\']
  else if c = '\n' then ['\\', 'n']
  else if c = '\r' then ['\\', 'r']
  else if c = '\t' then ['\\', 't']
  else if c.toNat = 0 then ['\\', '0']
  else if isInvisible c then '\\' :: 'u' :: '\x7b' :: Nat.toDigits 16 c.toNat ++ ['\x7d']
  else [c]

/-- A text between quotation marks. -/
def quote (text : String) : String :=
  String.ofList ('"' :: text.toList.flatMap escape ++ ['"'])

end GraphRequest.Quoted
