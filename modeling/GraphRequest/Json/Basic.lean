import GraphRequest.Entries
import GraphRequest.Number.Binary64

/-!
# JSON values

Rows come in and records go out as JSON.  An object is the list of its members in the order they
were written, because that order is seen again in every record.

Two notions of equality are needed, and they differ.

* Lean's `=` is **identity**: same kinds, same elements, same names in the same order, and the two
  zeros apart.
* `Json.agrees` is equality of **values**: it forgets the order of members and the sign of zero.
  An integer never agrees with a floating point number.
-/

namespace GraphRequest

/-- A JSON number: an integer, or a floating point number as soon as it is written with a point
    or an exponent, or leaves the range of 64-bit integers. -/
inductive Number where
  | integer (value : Int)
  | float (value : Binary64)
deriving DecidableEq

/-- Equality of values. -/
def Number.agrees : Number → Number → Bool
  | .integer m, .integer n => m == n
  | .float x, .float y => x.agrees y
  | _, _ => false

/-- A JSON value. -/
inductive Json where
  | null
  | bool (value : Bool)
  | number (value : Number)
  | string (value : String)
  | array (items : List Json)
  | object (members : List (String × Json))

namespace Json

mutual

/-- Equality of values: members in any order, elements in theirs. -/
def agrees : Json → Json → Bool
  | .null, .null => true
  | .bool a, .bool b => a == b
  | .number m, .number n => m.agrees n
  | .string s, .string t => s == t
  | .array xs, .array ys => itemsAgree xs ys
  | .object xs, .object ys => xs.length == ys.length && membersAgree xs ys
  | _, _ => false
termination_by structural x _ => x

/-- Elementwise agreement of lists of one length. -/
def itemsAgree : List Json → List Json → Bool
  | [], [] => true
  | x :: xs, y :: ys => x.agrees y && itemsAgree xs ys
  | _, _ => false
termination_by structural xs _ => xs

/-- Whether each member has its like, under the same name, among the others. -/
def membersAgree : List (String × Json) → List (String × Json) → Bool
  | [], _ => true
  | (name, x) :: xs, ys =>
    (match ys.lookup name with
      | some y => x.agrees y
      | none => false) && membersAgree xs ys
termination_by structural xs _ => xs

end

end Json

/-- A result row: the values of its columns. -/
abbrev Row := Entries Json

/-- A reduced entity as it is reported: values under names, in order. -/
abbrev Record := Entries Json

/-- The value in a column, if there is one and it is not `null`. -/
def Row.present? (row : Row) (column : String) : Option Json :=
  match row.lookup column with
  | none | some .null => none
  | some value => some value

end GraphRequest
