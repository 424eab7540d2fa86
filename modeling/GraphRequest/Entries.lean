/-!
# Named values in order of first insertion

Rows, records and scopes are all lists of named values whose order can be seen in an answer: a
name keeps the place at which it was **first** inserted, and a later insertion under the same
name replaces the value in that place.  `Entries.upsert` is the one operation that says so; it
either changes the value a name has or appends the name at the end.

* `lookup_upsert` — what every name is bound to afterwards;
* `keys_upsert` — the names afterwards: as before, or with the new one at the end;
* `nodup_keys_upsert` — hence a name never stands twice.
-/

namespace GraphRequest

/-- Named values, in the order in which the names were first inserted. -/
abbrev Entries (α : Type) := List (String × α)

namespace Entries

variable {α : Type}

/-- The names, in order. -/
def keys (entries : Entries α) : List String :=
  entries.map Prod.fst

/-- Gives `name` the value `change` makes of its present one.  A name that is present keeps its
    place; one that is not goes to the end. -/
def upsert (name : String) (change : Option α → α) : Entries α → Entries α
  | [] => [(name, change none)]
  | (other, value) :: rest =>
    if other = name then (other, change (some value)) :: rest
    else (other, value) :: upsert name change rest

/-- Binds `name` to `value`, whatever it was bound to before. -/
def insert (name : String) (value : α) (entries : Entries α) : Entries α :=
  upsert name (fun _ => value) entries

/-- Inserts the values one after the other, so that of two under one name the later one stays,
    in the place of the earlier. -/
def insertAll (entries : Entries α) (new : List (String × α)) : Entries α :=
  new.foldl (fun found (name, value) => insert name value found) entries

/-- After an `upsert` the name is bound to the changed value and every other name is as it was. -/
theorem lookup_upsert (name other : String) (change : Option α → α) (entries : Entries α) :
    (upsert name change entries).lookup other =
      if other = name then some (change (entries.lookup name)) else entries.lookup other := by
  induction entries with
  | nil =>
    by_cases h : other = name
    · simp [upsert, h]
    · have h' : (other == name) = false := by simp [h]
      simp [upsert, List.lookup_cons, h, h']
  | cons entry rest ih =>
    obtain ⟨key, value⟩ := entry
    by_cases hkey : key = name
    · subst hkey
      by_cases h : other = key
      · simp [upsert, h]
      · have h' : (other == key) = false := by simp [h]
        simp [upsert, List.lookup_cons, h, h']
    · have hkey' : (name == key) = false := by simp [Ne.symm hkey]
      by_cases h : other = key
      · subst h
        simp [upsert, hkey]
      · have h' : (other == key) = false := by simp [h]
        simp [upsert, List.lookup_cons, hkey, hkey', h', ih]

/-- An `upsert` keeps the names and their order, and appends the name if it is new. -/
theorem keys_upsert (name : String) (change : Option α → α) (entries : Entries α) :
    keys (upsert name change entries) =
      if name ∈ keys entries then keys entries else keys entries ++ [name] := by
  induction entries with
  | nil => simp [upsert, keys]
  | cons entry rest ih =>
    obtain ⟨key, value⟩ := entry
    by_cases hkey : key = name
    · simp [upsert, keys, hkey]
    · simp only [keys] at ih
      by_cases h : name ∈ rest.map Prod.fst
      · simp [upsert, keys, hkey, Ne.symm hkey, ih, h]
      · simp [upsert, keys, hkey, Ne.symm hkey, ih, h]

/-- A name never stands twice. -/
theorem nodup_keys_upsert (name : String) (change : Option α → α) {entries : Entries α}
    (h : (keys entries).Nodup) : (keys (upsert name change entries)).Nodup := by
  rw [keys_upsert]
  split
  · exact h
  · rename_i hnew
    rw [List.nodup_append]
    refine ⟨h, by simp, ?_⟩
    intro a ha b hb
    simp only [List.mem_singleton] at hb
    subst hb
    exact fun hab => hnew (hab ▸ ha)

end Entries

end GraphRequest
