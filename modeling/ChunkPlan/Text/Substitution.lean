/-!
# Search and substitution

Finding, splitting and replacing in a text, seen as a list of characters.  A replacement goes from
left to right, and neither an occurrence that overlaps an earlier one nor the inserted text is
looked at again.
-/

set_option autoImplicit false

namespace ChunkPlan.Text

def occursIn (pattern : List Char) : List Char → Bool
  | [] => pattern.isEmpty
  | c :: cs => pattern.isPrefixOf (c :: cs) || occursIn pattern cs

/-- The parts between the occurrences of a separator: one more than there are separators. -/
def fields (separator : Char) : List Char → List (List Char)
  | [] => [[]]
  | c :: cs =>
    if c = separator then [] :: fields separator cs
    else
      match fields separator cs with
      | [] => [[c]]
      | field :: rest => (c :: field) :: rest

/-- The text of `fields` again. -/
def joinFields (separator : Char) : List (List Char) → List Char
  | [] => []
  | [field] => field
  | field :: rest => field ++ separator :: joinFields separator rest

/-- Replacement in a text whose first `skipped` characters belong to an occurrence that is already
replaced. -/
def replaceFrom (pattern replacement : List Char) : Nat → List Char → List Char
  | _, [] => []
  | skipped + 1, _ :: cs => replaceFrom pattern replacement skipped cs
  | 0, c :: cs =>
    if pattern.isPrefixOf (c :: cs) then
      replacement ++ replaceFrom pattern replacement (pattern.length - 1) cs
    else c :: replaceFrom pattern replacement 0 cs

/-- Replaces every occurrence of a pattern, which has at least one character. -/
def replace (pattern replacement text : List Char) : List Char :=
  replaceFrom pattern replacement 0 text

/-- Replaces one pattern after the other, each in the whole text that the ones before it left. -/
def substitute (replacements : List (String × String)) (template : String) : String :=
  String.ofList <| replacements.foldl
    (fun text pair => replace pair.1.toList pair.2.toList text) template.toList

def trim (drop : Char → Bool) (text : List Char) : List Char :=
  ((text.dropWhile drop).reverse.dropWhile drop).reverse

def trimEnd (drop : Char → Bool) (text : List Char) : List Char :=
  (text.reverse.dropWhile drop).reverse

/-- One line feed for each line break, however it is written. -/
def unifyLineBreaks : List Char → List Char
  | [] => []
  | '\r' :: '\n' :: cs => '\n' :: unifyLineBreaks cs
  | c :: cs => (if c = '\r' then '\n' else c) :: unifyLineBreaks cs

@[simp] theorem fields_ne_nil (separator : Char) (text : List Char) :
    fields separator text ≠ [] := by
  cases text with
  | nil => simp [fields]
  | cons c cs =>
    simp only [fields]
    split
    · simp
    · split <;> simp

/-- Splitting loses nothing. -/
theorem joinFields_fields (separator : Char) (text : List Char) :
    joinFields separator (fields separator text) = text := by
  induction text with
  | nil => rfl
  | cons c cs ih =>
    simp only [fields]
    split
    · rename_i h
      cases hf : fields separator cs with
      | nil => exact absurd hf (fields_ne_nil separator cs)
      | cons field rest => rw [hf] at ih; simp [joinFields, ih, h]
    · cases hf : fields separator cs with
      | nil => exact absurd hf (fields_ne_nil separator cs)
      | cons field rest =>
        rw [hf] at ih
        cases rest with
        | nil => simpa [joinFields] using ih
        | cons next others => simpa [joinFields] using ih

end ChunkPlan.Text
