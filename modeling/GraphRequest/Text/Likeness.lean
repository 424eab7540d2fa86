/-!
# How alike two words are

A word that names nothing may be a slip for one that does.  The **likeness** of a word to a name
lies between 0 and 1.  The characters of the word are paired one after the other, each with the
first equal character of the name that is still free and stands near enough; the likeness is the
mean of three shares: how much of the word is paired, how much of the name is paired, and how many
pairs keep the order.  Every character of a common beginning then takes away a tenth of what is
missing from 1.

The arithmetic is binary floating point, rounded at every step, and the order of the steps is part
of the definition: two names that are equally like a word by exact arithmetic may differ in the
last place.

* `closest?` — the name most like a word, if any is like enough.
-/

namespace GraphRequest.Likeness

/-- How far apart the places of two paired characters may be. -/
def reach (word name : List Char) : Nat :=
  max word.length name.length / 2 - 1

/-- The first free place of the name that is within reach of a place of the word and holds the
    same character. -/
def partner? (name : List Char) (reach : Nat) (taken : List Nat) (c : Char) (place : Nat) :
    Option Nat :=
  (List.range name.length).find? fun other =>
    place ≤ other + reach && other ≤ place + reach && name[other]? == some c
      && !taken.contains other

/-- The places of the name that are paired, in the order of the word. -/
def partners (word name : List Char) : List Nat :=
  word.zipIdx.foldl
    (fun taken (c, place) => taken ++ (partner? name (reach word name) taken c place).toList) []

/-- How often a place is followed by an earlier one. -/
def drops : List Nat → Nat
  | first :: second :: rest => (if second < first then 1 else 0) + drops (second :: rest)
  | _ => 0

/-- How many characters two words begin with in common. -/
def sharedStart : List Char → List Char → Nat
  | c :: word, d :: name => if c = d then sharedStart word name + 1 else 0
  | _, _ => 0

/-- The mean of the three shares, 0 if nothing is paired. -/
def agreement (word name : List Char) : Float :=
  let partners := partners word name
  if partners.isEmpty then 0
  else
    let paired := partners.length.toFloat
    let ordered := (partners.length - drops partners).toFloat
    (1.0 / 3.0) * (paired / word.length.toFloat + paired / name.length.toFloat + ordered / paired)

/-- How like a name a word is. -/
def likeness (word name : String) : Float :=
  let agreement := agreement word.toList name.toList
  let start := (sharedStart word.toList name.toList).toFloat
  let likeness := agreement + 0.1 * start * (1.0 - agreement)
  if likeness ≤ 1.0 then likeness else 1.0

/-- What a name must exceed to be taken for the one that was meant. -/
def threshold : Float := 0.8

/-- Keeps the best name so far unless another one is more like the word. -/
def closer (word : String) (best : Option (String × Float)) (name : String) :
    Option (String × Float) :=
  let likeness := likeness word name
  if threshold < likeness && best.all (fun (_, most) => most < likeness) then some (name, likeness)
  else best

/-- The name most like a word, and of equals the first; none if no name is like enough. -/
def closest? (word : String) (names : List String) : Option String :=
  (names.foldl (closer word) none).map Prod.fst

end GraphRequest.Likeness
