/-!
# Entries

A map from texts to values that remembers the order in which its keys first came.  Writing to a
key that is already there keeps its place and replaces its value.
-/

set_option autoImplicit false

namespace ChunkPlan

/-- Key and value pairs in the order of the keys' first writing. -/
abbrev Entries (α : Type) := List (String × α)

namespace Entries

variable {α : Type}

def keys (entries : Entries α) : List String := entries.map (·.1)

def values (entries : Entries α) : List α := entries.map (·.2)

def find? : Entries α → String → Option α
  | [], _ => none
  | (k, v) :: rest, key => if k = key then some v else find? rest key

def has (entries : Entries α) (key : String) : Bool := (entries.find? key).isSome

/-- Writes a value: in place for a known key, at the end for a new one. -/
def put : Entries α → String → α → Entries α
  | [], key, value => [(key, value)]
  | (k, v) :: rest, key, value =>
    if k = key then (k, value) :: rest else (k, v) :: put rest key value

def remove (entries : Entries α) (key : String) : Entries α :=
  entries.filter fun entry => entry.1 ≠ key

def putAll (entries : Entries α) (pairs : List (String × α)) : Entries α :=
  pairs.foldl (fun acc pair => acc.put pair.1 pair.2) entries

def ofPairs (pairs : List (String × α)) : Entries α := putAll [] pairs

@[simp] theorem find?_nil (key : String) : find? ([] : Entries α) key = none := rfl

theorem find?_put (entries : Entries α) (key other : String) (value : α) :
    (entries.put key value).find? other = if key = other then some value else entries.find? other := by
  induction entries with
  | nil => simp [put, find?]
  | cons entry rest ih =>
    obtain ⟨k, v⟩ := entry
    by_cases h : k = key
    · subst h
      by_cases ho : k = other <;> simp [put, find?, ho]
    · by_cases ho : k = other
      · subst ho
        simp [put, find?, h, Ne.symm h]
      · simp [put, find?, h, ho, ih]

theorem has_iff_mem_keys (entries : Entries α) (key : String) :
    entries.has key = true ↔ key ∈ entries.keys := by
  induction entries with
  | nil => simp [has, keys]
  | cons entry rest ih =>
    obtain ⟨k, v⟩ := entry
    simp only [has, keys] at ih
    by_cases h : k = key
    · simp [has, find?, keys, h]
    · simp [has, find?, keys, h, ih, Ne.symm h]

/-- A known key keeps its place and a new one goes to the end. -/
theorem keys_put (entries : Entries α) (key : String) (value : α) :
    (entries.put key value).keys = if key ∈ entries.keys then entries.keys else entries.keys ++ [key] := by
  induction entries with
  | nil => simp [put, keys]
  | cons entry rest ih =>
    obtain ⟨k, v⟩ := entry
    simp only [keys] at ih
    by_cases h : k = key
    · simp [put, keys, h]
    · by_cases hm : key ∈ rest.map (·.1)
      · simp [put, keys, h, ih, hm]
      · simp [put, keys, h, ih, hm, Ne.symm h]

end Entries

end ChunkPlan
