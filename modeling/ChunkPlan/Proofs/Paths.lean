import ChunkPlan.Path
import Mathlib.Algebra.GroupWithZero.Nat

/-!
# Paths that stay as they are

A path without empty names and names that stay in place is left as it is by another tidying, and one
that leads down from the root, name by name, is left as it is by resolving.
-/

set_option autoImplicit false

namespace ChunkPlan

namespace Text

variable {separator : Char} {field text rest : List Char} {parts : List (List Char)}

theorem fields_of_not_mem (free : separator ∉ field) : fields separator field = [field] := by
  induction field with
  | nil => rfl
  | cons c cs ih =>
    obtain ⟨apart, free⟩ := List.ne_and_not_mem_of_not_mem_cons free
    rw [fields, if_neg (Ne.symm apart), ih free]

/-- A text is split on both sides of a separator. -/
theorem fields_append_fields :
    fields separator (text ++ separator :: rest) = fields separator text ++ fields separator rest := by
  induction text with
  | nil => simp [fields]
  | cons c cs ih =>
    rw [List.cons_append, fields, fields, ih]
    split
    · rfl
    · cases split : fields separator cs with
      | nil => exact absurd split (fields_ne_nil _ _)
      | cons field others => rfl

theorem fields_append (free : separator ∉ field) :
    fields separator (field ++ separator :: rest) = field :: fields separator rest := by
  rw [fields_append_fields, fields_of_not_mem free, List.singleton_append]

private theorem fields_joinFields (nonempty : parts ≠ [])
    (free : ∀ part ∈ parts, separator ∉ part) :
    fields separator (joinFields separator parts) = parts := by
  induction parts with
  | nil => exact absurd rfl nonempty
  | cons part parts ih =>
    obtain ⟨first, others⟩ := List.forall_mem_cons.mp free
    cases parts with
    | nil => exact fields_of_not_mem first
    | cons next parts =>
      rw [joinFields, fields_append first, ih (by simp) others]
      simp

theorem not_mem_of_mem_fields (member : field ∈ fields separator text) : separator ∉ field := by
  induction text generalizing field with
  | nil =>
    rw [fields, List.mem_singleton] at member
    simp [member]
  | cons c cs ih =>
    rw [fields] at member
    split at member
    · rcases List.mem_cons.mp member with rfl | member
      · simp
      · exact ih member
    · next apart =>
      split at member
      · next none => exact absurd none (fields_ne_nil _ _)
      · next first others split =>
        rcases List.mem_cons.mp member with rfl | member
        · have free := ih (split ▸ List.mem_cons_self ..)
          simp [free, Ne.symm apart]
        · exact ih (split ▸ List.mem_cons_of_mem _ member)

end Text

namespace Path

variable {chars start : List Char} {segments : List Segment} {path : String}

/-- Names that a tidy path can have. -/
def Proper (segments : List Segment) : Prop :=
  ∀ segment ∈ segments, segment ≠ [] ∧ segment ≠ here ∧ '/' ∉ segment

theorem proper_names (chars : List Char) : Proper (names chars) := by
  intro segment member
  obtain ⟨listed, kept⟩ := List.mem_filter.mp member
  simp only [Bool.and_eq_true, decide_eq_true_eq] at kept
  exact ⟨kept.1, kept.2, Text.not_mem_of_mem_fields listed⟩

theorem names_joinNames (proper : Proper segments) : names (joinNames segments) = segments := by
  cases segments with
  | nil => rfl
  | cons first others =>
    rw [names, joinNames, Text.fields_joinFields (by simp) fun part member => (proper part member).2.2]
    apply List.filter_eq_self.mpr
    intro segment member
    obtain ⟨nonempty, moves, _⟩ := proper segment member
    simp [nonempty, moves]

theorem names_slash (chars : List Char) : names ('/' :: chars) = names chars := by
  simp [names, Text.fields]

theorem root_cases (chars : List Char) : root chars = [] ∨ root chars = ['/'] ∨ root chars = ['/', '/'] := by
  unfold root
  split <;> simp

theorem names_root_append (proper : Proper segments) :
    names (root chars ++ joinNames segments) = segments := by
  rcases root_cases chars with none | one | two
  · rw [none]
    exact names_joinNames proper
  · rw [one, List.cons_append, names_slash]
    exact names_joinNames proper
  · rw [two, List.cons_append, List.cons_append, names_slash, names_slash]
    exact names_joinNames proper

/-- Names begin with no slash. -/
theorem head?_joinNames (proper : Proper segments) : (joinNames segments).head? ≠ some '/' := by
  cases segments with
  | nil => simp [joinNames, Text.joinFields]
  | cons first others =>
    obtain ⟨nonempty, _, free⟩ := proper first (List.mem_cons_self ..)
    cases first with
    | nil => exact absurd rfl nonempty
    | cons c cs =>
      obtain ⟨apart, _⟩ := List.ne_and_not_mem_of_not_mem_cons free
      cases others <;> simp [joinNames, Text.joinFields, Ne.symm apart]

/-- Up to two slashes are the root of a path whose names follow. -/
theorem root_append {text : List Char} (begins : text.head? ≠ some '/') :
    root text = [] ∧ root ('/' :: text) = ['/'] ∧ root ('/' :: '/' :: text) = ['/', '/'] := by
  cases text with
  | nil => exact ⟨rfl, rfl, rfl⟩
  | cons c cs =>
    have apart : c ≠ '/' := by simpa using begins
    refine ⟨?_, ?_, ?_⟩ <;> rw [root] <;> simp [apart]

theorem root_root_append (proper : Proper segments) :
    root (root chars ++ joinNames segments) = root chars := by
  obtain ⟨none, one, two⟩ := root_append (head?_joinNames proper)
  rcases root_cases chars with same | same | same <;> rw [same]
  · exact none
  · exact one
  · exact two

theorem names_assemble (proper : Proper segments) :
    names (assemble (root chars) segments).toList = segments := by
  have same : names (root chars ++ joinNames segments) = segments := names_root_append proper
  simp only [assemble, String.toList_ofList]
  split
  · next blank =>
    rw [List.isEmpty_iff.mp blank] at same
    exact same
  · exact same

theorem root_assemble (proper : Proper segments) :
    root (assemble (root chars) segments).toList = root chars := by
  simp only [assemble, String.toList_ofList]
  split
  · next blank =>
    rw [List.isEmpty_iff, List.append_eq_nil_iff] at blank
    rw [blank.1]
    rfl
  · exact root_root_append proper

/-- Tidying a path a second time changes nothing. -/
theorem tidy_tidy (path : String) : tidy (tidy path) = tidy path := by
  have proper := proper_names path.toList
  simp only [tidy, names_assemble proper, root_assemble proper]

theorem isAbsolute_iff_root : isAbsolute path = true ↔ root path.toList ≠ [] := by
  rw [isAbsolute, decide_eq_true_eq]
  cases path.toList with
  | nil => simp [root]
  | cons c cs =>
    unfold root
    split <;> simp_all

theorem isAbsolute_assemble (proper : Proper segments) :
    isAbsolute (assemble (root path.toList) segments) = isAbsolute path := by
  rw [Bool.eq_iff_iff, isAbsolute_iff_root, isAbsolute_iff_root, root_assemble proper]

/-! ## Names that lead down -/

/-- Names that lead into a directory. -/
def IsName (segment : Segment) : Prop :=
  segment ≠ [] ∧ segment ≠ here ∧ segment ≠ up ∧ '/' ∉ segment

instance (segment : Segment) : Decidable (IsName segment) :=
  inferInstanceAs (Decidable (_ ∧ _ ∧ _ ∧ _))

theorem proper_of_isName (named : ∀ segment ∈ segments, IsName segment) : Proper segments := by
  intro segment member
  obtain ⟨nonempty, moves, _, free⟩ := named segment member
  exact ⟨nonempty, moves, free⟩

theorem foldl_walk_of_isName {absolute : Bool} {before : List Segment}
    (named : ∀ segment ∈ segments, IsName segment) :
    segments.foldl (walk absolute) before = segments.reverse ++ before := by
  induction segments generalizing before with
  | nil => rfl
  | cons segment segments ih =>
    obtain ⟨first, others⟩ := List.forall_mem_cons.mp named
    rw [List.foldl_cons, ih others, walk.eq_def, if_neg first.2.2.1]
    simp

/-- Names that lead down are left as they are. -/
theorem settle_of_isName {absolute : Bool} (named : ∀ segment ∈ segments, IsName segment) :
    settle absolute segments = segments := by
  rw [settle, foldl_walk_of_isName named, List.append_nil, List.reverse_reverse]

/-- No step up is left below the root. -/
theorem isName_of_mem_settle (proper : Proper segments) :
    ∀ segment ∈ settle true segments, IsName segment := by
  have walked (before : List Segment) (named : ∀ segment ∈ before, IsName segment) :
      ∀ segment ∈ segments.foldl (walk true) before, IsName segment := by
    induction segments generalizing before with
    | nil => exact named
    | cons segment segments ih =>
      obtain ⟨⟨nonempty, moves, free⟩, others⟩ := List.forall_mem_cons.mp proper
      apply ih others _
      intro name member
      unfold walk at member
      split at member
      · split at member
        · cases member
        · next last rest =>
          have climbs := (named last (List.mem_cons_self ..)).2.2.1
          rw [if_neg climbs] at member
          exact named name (List.mem_cons_of_mem _ member)
      · next climbs =>
        rcases List.mem_cons.mp member with rfl | member
        · exact ⟨nonempty, moves, climbs, free⟩
        · exact named name member
  intro segment member
  exact walked [] (by simp) segment (List.mem_reverse.mp member)

theorem isName_of_mem_locate {workingDirectory name : String}
    (member : name ∈ locate workingDirectory path) : IsName name.toList := by
  obtain ⟨segment, settled, rfl⟩ := List.mem_map.mp member
  rw [String.toList_ofList]
  exact isName_of_mem_settle (proper_names _) segment settled

/-- A path made of names leads along these names, wherever it is seen from. -/
theorem locate_ofNames {workingDirectory : String} {place : List String}
    (named : ∀ name ∈ place, IsName name.toList) :
    locate workingDirectory (ofNames place) = place := by
  have named : ∀ segment ∈ place.map String.toList, IsName segment := by
    intro segment member
    obtain ⟨name, listed, rfl⟩ := List.mem_map.mp member
    exact named name listed
  have absolute : isAbsolute (ofNames place) = true := by
    rw [isAbsolute, ofNames, String.toList_ofList]
    rfl
  rw [locate, join, if_pos absolute, ofNames, String.toList_ofList, names_slash,
    names_joinNames (proper_of_isName named), settle_of_isName named, List.map_map]
  simp [Function.comp_def]

end Path

end ChunkPlan
