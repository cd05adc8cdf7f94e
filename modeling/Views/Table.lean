/-!
# Tables keyed by text

A table is a list of pairs in increasing order of their keys, compared by code point. Everything
the engine looks up by name is one: the fields of an object, the cached views, the memoized paths,
the compiled templates. `get?_insert` says what an insertion does to a look-up; it needs no
hypothesis on the order, so it also holds of a table written by hand.
-/

set_option autoImplicit false

namespace Views

/-- Entries in increasing order of their keys. -/
abbrev Table (α : Type) := List (String × α)

namespace Table

variable {α : Type}

/-- The entry stored under a key. -/
def get? (t : Table α) (key : String) : Option α :=
  match t with
  | [] => none
  | (k, v) :: rest => if k = key then some v else get? rest key

/-- Stores an entry, in place of the one its key had. -/
def insert (t : Table α) (key : String) (value : α) : Table α :=
  match t with
  | [] => [(key, value)]
  | (k, v) :: rest =>
    if key = k then (key, value) :: rest
    else if key < k then (key, value) :: (k, v) :: rest
    else (k, v) :: insert rest key value

/-- Whether a key has an entry. -/
def contains (t : Table α) (key : String) : Bool := (t.get? key).isSome

/-- The keys, in the order of the table. -/
def keys (t : Table α) : List String := t.map Prod.fst

/-- Stores the entries of `upper` over those of `t`. -/
def union (t upper : Table α) : Table α :=
  upper.foldl (fun acc entry => acc.insert entry.1 entry.2) t

/-- The table of a list of pairs; of two pairs with one key the last counts. -/
def ofList (entries : List (String × α)) : Table α := union [] entries

/-! ## Look-ups -/

@[simp] theorem get?_nil (key : String) : get? ([] : Table α) key = none := rfl

theorem get?_insert (t : Table α) (key other : String) (value : α) :
    (t.insert key value).get? other = if key = other then some value else t.get? other := by
  induction t with
  | nil => simp [insert, get?]
  | cons entry rest ih =>
    obtain ⟨k, v⟩ := entry
    by_cases hk : key = k
    · subst hk; by_cases ho : key = other <;> simp [insert, get?, ho]
    · by_cases hlt : key < k
      · simp [insert, hk, hlt, get?]
      · by_cases ho : k = other
        · subst ho; simp [insert, hk, hlt, get?]
        · simp [insert, hk, hlt, get?, ho, ih]

theorem get?_insert_self (t : Table α) (key : String) (value : α) :
    (t.insert key value).get? key = some value := by
  simp [get?_insert]

theorem get?_insert_ne (t : Table α) {key other : String} (value : α) (h : key ≠ other) :
    (t.insert key value).get? other = t.get? other := by
  simp [get?_insert, h]

end Table

end Views
