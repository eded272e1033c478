import ChunkPlan.Proofs.Paths
import ChunkPlan.Text.Substitution
import Mathlib.Data.List.Find

/-!
# Filling templates

Replacing placeholders one after the other looks at inserted texts again, so a placeholder can come
about that the template has not.  If no inserted text has a percent sign, this takes two placeholders
with only letters between them.  In templates where nothing can come to stand like that between two
placeholders the replacements can as well be made all at once.
-/

set_option autoImplicit false

namespace ChunkPlan

namespace Text

variable {pairs : List (List Char × List Char)} {text rest name : List Char}

/-- Replacement of several patterns in a text whose first `skipped` characters belong to an
occurrence that is already replaced. -/
def fillFrom (pairs : List (List Char × List Char)) : (skipped : Nat) → List Char → List Char
  | _, [] => []
  | skipped + 1, _ :: cs => fillFrom pairs skipped cs
  | 0, c :: cs =>
    match pairs.find? fun pair => pair.1.isPrefixOf (c :: cs) with
    | some pair => pair.2 ++ fillFrom pairs (pair.1.length - 1) cs
    | none => c :: fillFrom pairs 0 cs

/-- Replaces all patterns in one walk through a template.  What is inserted is not looked at. -/
def fill (replacements : List (String × String)) (template : String) : String :=
  String.ofList <|
    fillFrom (replacements.map fun pair => (pair.1.toList, pair.2.toList)) 0 template.toList

private theorem replaceFrom_eq_fillFrom (pattern replacement : List Char) (skipped : Nat)
    (text : List Char) :
    replaceFrom pattern replacement skipped text =
      fillFrom [(pattern, replacement)] skipped text := by
  induction text generalizing skipped with
  | nil => cases skipped <;> rfl
  | cons c cs ih =>
    cases skipped with
    | succ skipped => exact ih skipped
    | zero =>
      rw [replaceFrom, fillFrom]
      by_cases begins : pattern.isPrefixOf (c :: cs) <;> simp [begins, ih]

/-! ## Placeholders -/

/-- A placeholder with a name. -/
def slotText (name : List Char) : List Char := '%' :: (name ++ ['%'])

/-- Whether a pattern is a placeholder whose name has letters only. -/
def IsSlot (pattern : List Char) : Prop :=
  let name := pattern.tail.dropLast
  name ≠ [] ∧ name.all Char.isAlpha = true ∧ pattern = slotText name

instance (pattern : List Char) : Decidable (IsSlot pattern) :=
  inferInstanceAs (Decidable (_ ∧ _ ∧ _))

private theorem IsSlot.cases {pattern : List Char} (slot : IsSlot pattern) : ∃ word,
    word ≠ [] ∧ (∀ c ∈ word, c.isAlpha = true) ∧ '%' ∉ word ∧ pattern = slotText word := by
  obtain ⟨nonempty, letters, same⟩ := slot
  rw [List.all_eq_true] at letters
  exact ⟨_, nonempty, letters, fun member => absurd (letters _ member) (by decide), same⟩

private theorem isPrefixOf_slot {pattern : List Char} (slot : IsSlot pattern) (free : '%' ∉ name) :
    pattern.isPrefixOf ('%' :: (name ++ '%' :: rest)) = decide (pattern = slotText name) := by
  obtain ⟨word, -, -, wordFree, rfl⟩ := slot.cases
  rw [Bool.eq_iff_iff, List.isPrefixOf_iff_prefix, decide_eq_true_eq]
  constructor
  · rintro ⟨after, same⟩
    have same : word ++ '%' :: after = name ++ '%' :: rest := by simpa [slotText] using same
    have split := congrArg (fields '%') same
    rw [fields_append wordFree, fields_append free] at split
    rw [(List.cons.inj split).1]
  · intro same
    rw [same]
    exact ⟨rest, by simp [slotText]⟩

private theorem fillFrom_length (text : List Char) :
    fillFrom pairs text.length (text ++ rest) = fillFrom pairs 0 rest := by
  induction text with
  | nil => rfl
  | cons c cs ih => exact ih

/-- Text without percent signs stays. -/
theorem fillFrom_append (slots : ∀ pair ∈ pairs, IsSlot pair.1) (free : '%' ∉ text) :
    fillFrom pairs 0 (text ++ rest) = text ++ fillFrom pairs 0 rest := by
  induction text with
  | nil => rfl
  | cons c cs ih =>
    obtain ⟨apart, free⟩ := List.ne_and_not_mem_of_not_mem_cons free
    have missing : pairs.find? (fun pair => pair.1.isPrefixOf (c :: (cs ++ rest))) = none := by
      refine List.find?_eq_none.mpr fun pair member begins => ?_
      obtain ⟨word, -, -, -, same⟩ := (slots pair member).cases
      rw [same, slotText, List.isPrefixOf_iff_prefix, List.cons_prefix_cons] at begins
      exact apart begins.1
    rw [List.cons_append, fillFrom, missing, ih free]
    rfl

private theorem fillFrom_slot (slots : ∀ pair ∈ pairs, IsSlot pair.1) (free : '%' ∉ name) :
    fillFrom pairs 0 ('%' :: (name ++ '%' :: rest)) =
      match pairs.find? fun pair => pair.1 = slotText name with
      | some pair => pair.2 ++ fillFrom pairs 0 rest
      | none => '%' :: (name ++ fillFrom pairs 0 ('%' :: rest)) := by
  have same : (pairs.find? fun pair => pair.1.isPrefixOf ('%' :: (name ++ '%' :: rest))) =
      pairs.find? fun pair => pair.1 = slotText name :=
    List.find?_congr fun pair member => isPrefixOf_slot (slots pair member) free
  rw [fillFrom, same]
  split
  · next pair found =>
    have known : pair.1 = slotText name := by simpa using List.find?_some found
    have length : pair.1.length - 1 = (name ++ ['%']).length := by simp [known, slotText]
    have split : name ++ '%' :: rest = (name ++ ['%']) ++ rest := by simp
    rw [length, split, fillFrom_length]
  · rw [fillFrom_append slots free]

/-- A percent sign that no other one follows stays. -/
theorem fillFrom_last (slots : ∀ pair ∈ pairs, IsSlot pair.1) (free : '%' ∉ text) :
    fillFrom pairs 0 ('%' :: text) = '%' :: text := by
  have missing : pairs.find? (fun pair => pair.1.isPrefixOf ('%' :: text)) = none := by
    refine List.find?_eq_none.mpr fun pair member begins => ?_
    obtain ⟨word, -, -, -, same⟩ := (slots pair member).cases
    rw [same, slotText, List.isPrefixOf_iff_prefix, List.cons_prefix_cons] at begins
    exact free (begins.2.subset (List.mem_append_right _ List.mem_cons_self))
  have stays : fillFrom pairs 0 (text ++ []) = text ++ [] := fillFrom_append slots free
  rw [List.append_nil] at stays
  rw [fillFrom, missing, stays]

/-- What stands between two percent signs stays if it is no name. -/
theorem fillFrom_between (slots : ∀ pair ∈ pairs, IsSlot pair.1) (free : '%' ∉ text)
    (nameless : text = [] ∨ ∃ c ∈ text, c.isAlpha = false) :
    fillFrom pairs 0 ('%' :: (text ++ '%' :: rest)) =
      '%' :: (text ++ fillFrom pairs 0 ('%' :: rest)) := by
  have missing : (pairs.find? fun pair => pair.1 = slotText text) = none := by
    refine List.find?_eq_none.mpr fun pair member same => ?_
    obtain ⟨word, nonempty, letters, -, known⟩ := (slots pair member).cases
    rw [known, decide_eq_true_eq, slotText, slotText, List.cons.injEq] at same
    obtain rfl : word = text := List.append_cancel_right same.2
    rcases nameless with blank | ⟨c, member, other⟩
    · exact nonempty blank
    · exact Bool.false_ne_true (other.symm.trans (letters c member))
  rw [fillFrom_slot slots free, missing]

end Text

/-! ## Parts of a template -/

/-- A text that stays, or a placeholder with a name. -/
inductive TemplatePart where
  | plain (text : List Char)
  | slot (name : List Char)
  deriving DecidableEq

namespace TemplatePart

open Text

variable {pairs more : List (List Char × List Char)} {parts others : List TemplatePart}
  {part : TemplatePart} {bare : Bool}

def source : TemplatePart → List Char
  | plain text => text
  | slot name => slotText name

/-- The parts of a text that is cut at its percent signs.  A last one without a partner stays. -/
def ofFields : List (List Char) → List TemplatePart
  | [] => []
  | [text] => [.plain text]
  | [text, tail] => [.plain text, .plain ('%' :: tail)]
  | text :: name :: next :: fields => .plain text :: .slot name :: ofFields (next :: fields)

def ofText (text : String) : List TemplatePart := ofFields (fields '%' text.toList)

private theorem source_ofFields (fields : List (List Char)) :
    (ofFields fields).flatMap source = joinFields '%' fields := by
  fun_induction ofFields fields with
  | case1 => rfl
  | case2 text => simp [source, joinFields]
  | case3 text tail => simp [source, joinFields]
  | case4 text name next fields ih => simp [source, slotText, joinFields, ih]

/-- The parts have the whole text. -/
theorem source_ofText (text : String) : (ofText text).flatMap source = text.toList := by
  rw [ofText, source_ofFields, joinFields_fields]

def fill (pairs : List (List Char × List Char)) : TemplatePart → TemplatePart
  | plain text => plain text
  | slot name =>
    match pairs.find? fun pair => pair.1 = slotText name with
    | some pair => plain pair.2
    | none => slot name

def IsFree : TemplatePart → Prop
  | plain text => '%' ∉ text
  | slot name => '%' ∉ name

instance : (part : TemplatePart) → Decidable part.IsFree
  | plain text => inferInstanceAs (Decidable ('%' ∉ text))
  | slot name => inferInstanceAs (Decidable ('%' ∉ name))

/-- Whether nothing that has letters only can come to stand between what is before these parts and a
placeholder among them.  So far nothing at all stands there if it is `bare`. -/
def keepsApart : (bare : Bool) → List TemplatePart → Bool
  | _, [] => true
  | bare, .plain text :: parts => text.any (!·.isAlpha) || keepsApart (bare && text.isEmpty) parts
  | bare, .slot _ :: parts => bare && keepsApart false parts

/-- Whether nothing that has letters only can come to stand between two placeholders. -/
def isClear : List TemplatePart → Bool
  | [] => true
  | .plain _ :: parts => isClear parts
  | .slot _ :: parts => keepsApart true parts && isClear parts

private theorem keepsApart_mono (apart : keepsApart false parts = true) :
    keepsApart bare parts = true := by
  induction parts generalizing bare with
  | nil => rfl
  | cons part parts ih =>
    cases part with
    | plain text =>
      simp only [keepsApart, Bool.or_eq_true, Bool.false_and] at apart ⊢
      exact apart.imp_right ih
    | slot name => cases apart

private theorem keepsApart_of_append (apart : keepsApart bare (parts ++ others) = true) :
    keepsApart bare parts = true := by
  induction parts generalizing bare with
  | nil => rfl
  | cons part parts ih =>
    cases part with
    | plain text =>
      simp only [List.cons_append, keepsApart, Bool.or_eq_true] at apart ⊢
      exact apart.imp_right ih
    | slot name =>
      simp only [List.cons_append, keepsApart, Bool.and_eq_true] at apart ⊢
      exact apart.imp_right ih

theorem isClear_of_append (clear : isClear (parts ++ others) = true) :
    isClear parts = true ∧ isClear others = true := by
  induction parts with
  | nil => exact ⟨rfl, clear⟩
  | cons part parts ih =>
    cases part with
    | plain text => exact ih clear
    | slot name =>
      simp only [List.cons_append, isClear, Bool.and_eq_true] at clear ⊢
      exact ⟨⟨keepsApart_of_append clear.1, (ih clear.2).1⟩, (ih clear.2).2⟩

/-- Filling leaves placeholders as far apart as they are. -/
theorem keepsApart_fill (apart : keepsApart bare parts = true) :
    keepsApart bare (parts.map (fill pairs)) = true := by
  induction parts generalizing bare with
  | nil => rfl
  | cons part parts ih =>
    cases part with
    | plain text =>
      simp only [keepsApart, Bool.or_eq_true, List.map_cons, fill] at apart ⊢
      exact apart.imp_right ih
    | slot name =>
      simp only [keepsApart, Bool.and_eq_true] at apart
      rw [List.map_cons, fill]
      split
      · rw [keepsApart, keepsApart_mono (ih apart.2), Bool.or_true]
      · rw [keepsApart, apart.1, ih apart.2]
        rfl

theorem isClear_fill (clear : isClear parts = true) : isClear (parts.map (fill pairs)) = true := by
  induction parts with
  | nil => rfl
  | cons part parts ih =>
    cases part with
    | plain text => exact ih clear
    | slot name =>
      simp only [isClear, Bool.and_eq_true] at clear
      rw [List.map_cons, fill]
      split
      · exact ih clear.2
      · rw [isClear, keepsApart_fill clear.1, ih clear.2]
        rfl

theorem isFree_fill (inserted : ∀ pair ∈ pairs, '%' ∉ pair.2) (free : part.IsFree) :
    (part.fill pairs).IsFree := by
  cases part with
  | plain text => exact free
  | slot name =>
    rw [fill]
    split
    · next pair found => exact inserted pair (List.mem_of_find?_eq_some found)
    · exact free

private theorem fill_nil : fill [] = id := by
  funext part
  cases part <;> rfl

/-- Filling with further pairs fills what the first ones have left. -/
theorem fill_fill : (part.fill pairs).fill more = part.fill (pairs ++ more) := by
  cases part with
  | plain text => rfl
  | slot name =>
    rw [fill, fill, List.find?_append]
    cases pairs.find? fun pair => pair.1 = slotText name with
    | some pair => rfl
    | none => rw [Option.none_or, fill]

/-! ## One walk -/

/-- A walk fills the placeholders, also if it begins at the end of one that stays, with the text
`run` behind it. -/
theorem fillFrom_source (slots : ∀ pair ∈ pairs, IsSlot pair.1) (clear : isClear parts = true)
    (free : ∀ part ∈ parts, part.IsFree) :
    fillFrom pairs 0 (parts.flatMap source) = (parts.map (fill pairs)).flatMap source ∧
      ∀ run, '%' ∉ run → (run.any (!·.isAlpha) || keepsApart run.isEmpty parts) = true →
        fillFrom pairs 0 ('%' :: (run ++ parts.flatMap source)) =
          '%' :: (run ++ (parts.map (fill pairs)).flatMap source) := by
  induction parts with
  | nil =>
    refine ⟨rfl, fun run runFree _ => ?_⟩
    rw [List.map_nil, List.flatMap_nil, List.append_nil, fillFrom_last slots runFree]
  | cons part parts ih =>
    obtain ⟨partFree, others⟩ := List.forall_mem_cons.mp free
    cases part with
    | plain text =>
      obtain ⟨whole, behind⟩ := ih clear others
      have partFree : '%' ∉ text := partFree
      rw [List.flatMap_cons, List.map_cons, List.flatMap_cons, fill, source]
      refine ⟨by rw [fillFrom_append slots partFree, whole], fun run runFree apart => ?_⟩
      have blank : (run ++ text).isEmpty = (run.isEmpty && text.isEmpty) := by cases run <;> simp
      have later := behind (run ++ text) (by simp [runFree, partFree])
        (by rwa [List.any_append, Bool.or_assoc, blank])
      simpa only [List.append_assoc] using later
    | slot name =>
      rw [isClear, Bool.and_eq_true] at clear
      obtain ⟨whole, behind⟩ := ih clear.2 others
      have partFree : '%' ∉ name := partFree
      have here : fillFrom pairs 0 ('%' :: (name ++ '%' :: parts.flatMap source)) =
          (fill pairs (slot name)).source ++ (parts.map (fill pairs)).flatMap source := by
        rw [fillFrom_slot slots partFree, fill]
        split
        · rw [whole, source]
        · have later := behind [] (by simp) (by simpa using clear.1)
          rw [List.nil_append] at later
          simp [later, source, slotText]
      have written : (slot name :: parts).flatMap source =
          '%' :: (name ++ '%' :: parts.flatMap source) := by simp [source, slotText]
      rw [written, here]
      refine ⟨rfl, fun run runFree apart => ?_⟩
      have nameless : run = [] ∨ ∃ c ∈ run, c.isAlpha = false := by
        rw [keepsApart, Bool.or_eq_true, Bool.and_eq_true, List.any_eq_true] at apart
        rcases apart with ⟨c, member, other⟩ | ⟨blank, -⟩
        · exact .inr ⟨c, member, by simpa using other⟩
        · exact .inl (List.isEmpty_iff.mp blank)
      rw [fillFrom_between slots runFree nameless, here]
      rfl

/-! ## One placeholder after the other -/

/-- Replacing one pattern after the other fills the placeholders, if no text but the last one brings
in percent signs. -/
theorem foldl_replace_source (slots : ∀ pair ∈ pairs, IsSlot pair.1)
    (inserted : ∀ pair ∈ pairs.dropLast, '%' ∉ pair.2) (clear : isClear parts = true)
    (free : ∀ part ∈ parts, part.IsFree) :
    pairs.foldl (fun text pair => replace pair.1 pair.2 text) (parts.flatMap source) =
      (parts.map (fill pairs)).flatMap source := by
  have one {pair : List Char × List Char} {parts : List TemplatePart} (slot : IsSlot pair.1)
      (clear : isClear parts = true) (free : ∀ part ∈ parts, part.IsFree) :
      replace pair.1 pair.2 (parts.flatMap source) = (parts.map (fill [pair])).flatMap source := by
    rw [replace, replaceFrom_eq_fillFrom]
    exact (fillFrom_source (by simpa using slot) clear free).1
  induction pairs generalizing parts with
  | nil => rw [fill_nil, List.map_id]; rfl
  | cons pair pairs ih =>
    obtain ⟨slot, slots⟩ := List.forall_mem_cons.mp slots
    cases pairs with
    | nil => exact one slot clear free
    | cons next pairs =>
      rw [List.dropLast_cons_cons] at inserted
      obtain ⟨first, inserted⟩ := List.forall_mem_cons.mp inserted
      have freed : ∀ part ∈ parts.map (fill [pair]), part.IsFree := by
        rw [List.forall_mem_map]
        exact fun part member => isFree_fill (by simpa using first) (free part member)
      rw [List.foldl_cons, one slot clear free, ih slots inserted (isClear_fill clear) freed,
        List.map_map]
      simp only [Function.comp_def, fill_fill]
      rfl

end TemplatePart

end ChunkPlan
