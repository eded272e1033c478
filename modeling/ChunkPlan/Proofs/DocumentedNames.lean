import ChunkPlan.Proofs.KnownProvides
import Mathlib.Data.List.Infix

/-!
# Namespaces in type expressions

An expression can name several known namespaces, and only the last one of them in order counts as
used.  So a namespace that documentation names can be reported as unnecessary, but only beside a
later one in every expression.
-/

set_option autoImplicit false

namespace ChunkPlan

namespace DocType

variable {name text : List Char} {expression provide : String}

/-- Whether a character can stand right before a name. -/
def Leads (c : Char) : Prop := isNamePart c = false ∧ c ≠ '.'

instance (c : Char) : Decidable (Leads c) := inferInstanceAs (Decidable (_ ∧ _))

/-- Whether a name occurs in a type expression.  What stands behind it may go on with a dot, so the
expression may also name something in the namespace. -/
def Mentions (expression name : String) : Prop :=
  ∃ left right, expression.toList = left ++ (name.toList ++ right) ∧
    (∀ c ∈ left.getLast?, Leads c) ∧ ∀ c ∈ right.head?, isNamePart c = false

/-- Whether a name occurs in a type expression as a whole word. -/
def HasWord (expression name : String) : Prop :=
  ∃ left right, expression.toList = left ++ (name.toList ++ right) ∧
    (∀ c ∈ left.getLast?, Leads c) ∧ ∀ c ∈ right.head?, isNamePart c = false ∧ c ≠ '.'

private theorem HasWord.mentions (word : HasWord expression provide) :
    Mentions expression provide := by
  obtain ⟨left, right, split, before, after⟩ := word
  exact ⟨left, right, split, before, fun c first => (after c first).1⟩

theorem occursAsWord_iff : occursAsWord name text = true ↔ ∃ left c right,
    text = left ++ c :: (name ++ right) ∧ Leads c ∧ ∃ d ∈ right.head?, isNamePart d = false := by
  have here (c : Char) (cs : List Char) : (!(isNamePart c || c = '.') && name.isPrefixOf cs
      && (cs.drop name.length).head?.any fun after => !isNamePart after) = true ↔
      Leads c ∧ ∃ right, cs = name ++ right ∧ ∃ d ∈ right.head?, isNamePart d = false := by
    simp only [Leads, Bool.and_eq_true, Bool.not_eq_true', Bool.or_eq_false_iff,
      decide_eq_false_iff_not, List.isPrefixOf_iff_prefix, Option.any_eq_true, and_assoc]
    refine and_congr_right fun _ => and_congr_right fun _ => ?_
    constructor
    · rintro ⟨⟨right, rfl⟩, d, next, ends⟩
      exact ⟨right, rfl, d, by simpa using next, ends⟩
    · rintro ⟨right, rfl, d, next, ends⟩
      exact ⟨List.prefix_append _ _, d, by simpa using next, ends⟩
  induction text with
  | nil => simp [occursAsWord]
  | cons first text ih =>
    rw [occursAsWord, Bool.or_eq_true]
    refine (or_congr (here first text) ih).trans ?_
    constructor
    · rintro (⟨leads, right, rfl, ends⟩ | ⟨left, c, right, rfl, leads, ends⟩)
      · exact ⟨[], first, right, rfl, leads, ends⟩
      · exact ⟨first :: left, c, right, rfl, leads, ends⟩
    · rintro ⟨left, c, right, split, leads, ends⟩
      cases left with
      | nil =>
        obtain ⟨rfl, rfl⟩ := List.cons.inj split
        exact .inl ⟨leads, right, rfl, ends⟩
      | cons _ left =>
        obtain ⟨-, rfl⟩ := List.cons.inj split
        exact .inr ⟨left, c, right, rfl, leads, ends⟩

/-- The blanks around an expression stand for its ends. -/
theorem names_iff : names expression provide = true ↔ Mentions expression provide := by
  rw [names, occursAsWord_iff]
  constructor
  · rintro ⟨left, c, right, split, leads, d, next, ends⟩
    have filled : right ≠ [] := by
      rintro rfl
      cases next
    -- What stands before the name, without the blank that was put there.
    obtain ⟨front, same, stops⟩ : ∃ front, front ++ (provide.toList ++ right) =
        expression.toList ++ [' '] ∧ ∀ d ∈ front.getLast?, Leads d := by
      cases left with
      | nil => exact ⟨[], (List.cons.inj split).2.symm, by simp⟩
      | cons blank left =>
        exact ⟨left ++ [c], by simpa using (List.cons.inj split).2.symm, by simpa using leads⟩
    have whole := congrArg List.dropLast same
    rw [List.dropLast_concat, ← List.append_assoc, List.dropLast_append_of_ne_nil filled] at whole
    refine ⟨front, right.dropLast, by rw [← whole, List.append_assoc], stops, fun e first => ?_⟩
    cases right with
    | nil => cases next
    | cons after right =>
      cases next
      cases right with
      | nil => cases first
      | cons _ _ =>
        cases first
        exact ends
  · rintro ⟨left, right, split, before, after⟩
    obtain ⟨front, c, same, leads⟩ : ∃ front c, ' ' :: left = front ++ [c] ∧ Leads c := by
      rcases List.eq_nil_or_concat' left with rfl | ⟨front, c, rfl⟩
      · exact ⟨[], ' ', rfl, by decide, by decide⟩
      · exact ⟨' ' :: front, c, rfl, before c (by simp)⟩
    refine ⟨front, c, right ++ [' '], ?_, leads, ?_⟩
    · rw [split, ← List.cons_append, ← List.cons_append, same]
      simp
    · cases right with
      | nil => exact ⟨' ', rfl, by decide⟩
      | cons d _ => exact ⟨d, rfl, after d rfl⟩

theorem namespace?_eq_some_iff {provides : List String}
    (descending : provides.Pairwise fun a b => b ≤ a) :
    DocType.namespace? expression provides = some provide ↔ provide ∈ provides ∧
      Mentions expression provide ∧
        ∀ other ∈ provides, provide < other → ¬Mentions expression other := by
  simp only [namespace?, Text.find?_eq_some_iff_of_descending descending, names_iff,
    Bool.eq_false_iff, ne_eq]

end DocType

namespace CheckedSource

variable {source : CheckedSource} {provides : List String} {name : String}

/-- Whether documentation of a source has a type expression. -/
def Documents (source : CheckedSource) (expression : String) : Prop :=
  ∃ comment ∈ source.script.comments, DocType.isDocumentation comment = true ∧
    expression ∈ DocType.ofBody comment.text

theorem mem_usedInDocs_iff (descending : provides.Pairwise fun a b => b ≤ a) :
    name ∈ source.usedInDocs provides ↔ name ∈ provides ∧
      ∃ expression, source.Documents expression ∧ DocType.Mentions expression name ∧
        ∀ other ∈ provides, name < other → ¬DocType.Mentions expression other := by
  have listed (expression : String) : expression ∈ (source.script.comments.filter
      DocType.isDocumentation).flatMap (DocType.ofBody ·.text) ↔ source.Documents expression := by
    simp [Documents, and_assoc]
  simp only [usedInDocs, List.mem_filterMap, listed, DocType.namespace?_eq_some_iff descending]
  constructor
  · rintro ⟨expression, documented, known, mentioned, last⟩
    exact ⟨known, expression, documented, mentioned, last⟩
  · rintro ⟨known, expression, documented, mentioned, last⟩
    exact ⟨expression, documented, known, mentioned, last⟩

/-- A known namespace that a source requires is not unnecessary if a type expression has it as a
word and mentions no later one.  It is unnecessary just when code does not use it and every type
expression that mentions it mentions a later one too. -/
theorem documented_unnecessary_iff (sources : List CheckedSource) (excluded : List String)
    (source : CheckedSource) (name : String) (required : name ∈ source.unit.requires)
    (known : name ∈ knownProvides sources excluded) :
    (∀ expression, source.Documents expression → DocType.HasWord expression name →
      (∀ other ∈ knownProvides sources excluded, name < other →
        ¬DocType.Mentions expression other) →
      name ∉ source.unnecessary (knownProvides sources excluded)) ∧
    (name ∈ source.unnecessary (knownProvides sources excluded) ↔
      name ∉ source.usedInCode (knownProvides sources excluded) ∧
        ∀ expression, source.Documents expression → DocType.Mentions expression name →
          ∃ other ∈ knownProvides sources excluded, name < other ∧
            DocType.Mentions expression other) := by
  have docs : name ∈ source.usedInDocs (knownProvides sources excluded) ↔ _ :=
    mem_usedInDocs_iff (descending_knownProvides sources excluded)
  constructor
  · intro expression documented word last reported
    obtain ⟨-, -, unused⟩ := mem_unnecessary.mp reported
    exact unused (docs.mpr ⟨known, expression, documented, word.mentions, last⟩)
  · rw [mem_unnecessary, docs]
    constructor
    · rintro ⟨-, code, unused⟩
      refine ⟨code, fun expression documented mentioned => ?_⟩
      by_contra alone
      exact unused ⟨known, expression, documented, mentioned,
        fun other member later also => alone ⟨other, member, later, also⟩⟩
    · rintro ⟨code, beside⟩
      refine ⟨required, code, ?_⟩
      rintro ⟨-, expression, documented, mentioned, last⟩
      obtain ⟨other, member, later, also⟩ := beside expression documented mentioned
      exact last other member later also

/-! ## An expression with two namespaces -/

/-- A source that provides two namespaces. -/
def pairText : String := "goog.provide('a.A');\ngoog.provide('b.B');"

/-- A source that requires both for the type of a function. -/
def converterText : String :=
  "goog.require('a.A');\ngoog.require('b.B');\n/** @type \x7bfunction(b.B):a.A\x7d */\nvar convert;"

def converterType : String := "function(b.B):a.A"

theorem hasWord_converterType :
    DocType.HasWord converterType "a.A" ∧ DocType.HasWord converterType "b.B" := by
  constructor
  · refine ⟨"function(b.B):".toList, [], by decide, ?_, nofun⟩
    intro c last
    cases last
    decide
  · refine ⟨"function(".toList, "):a.A".toList, by decide, ?_, ?_⟩
    · intro c last
      cases last
      decide
    · intro c first
      cases first
      decide

theorem read_converter : ∃ pair converter, ofText "/pair.js" pairText = .ok pair ∧
    ofText "/convert.js" converterText = .ok converter ∧
    knownProvides [pair, converter] [] = ["b.B", "a.A"] ∧
    converter.unit.requires = ["a.A", "b.B"] ∧ converter.Documents converterType ∧
    "a.A" ∈ converter.unnecessary ["b.B", "a.A"] := by
  have first : (ofText "/pair.js" pairText).toOption.map (·.unit.provides) =
      some ["a.A", "b.B"] := by decide +kernel
  have second : (ofText "/convert.js" converterText).toOption.map (fun converter =>
      (converter.unit.provides, converter.unit.requires, converter.usedInCode ["b.B", "a.A"],
        converter.usedInDocs ["b.B", "a.A"])) =
        some ([], ["a.A", "b.B"], [], ["b.B"]) := by decide +kernel
  have typed : (ofText "/convert.js" converterText).toOption.any (fun converter =>
      converter.script.comments.any fun comment => DocType.isDocumentation comment &&
        (DocType.ofBody comment.text).contains converterType) = true := by decide +kernel
  obtain ⟨pair, readPair, provides⟩ := Option.map_eq_some_iff.mp first
  obtain ⟨converter, readConverter, same⟩ := Option.map_eq_some_iff.mp second
  simp only [Prod.mk.injEq] at same
  obtain ⟨none, requires, code, docs⟩ := same
  rw [readConverter] at typed
  obtain ⟨comment, member, documented⟩ := List.any_eq_true.mp typed
  rw [Bool.and_eq_true, List.contains_iff_mem] at documented
  refine ⟨pair, converter, eq_ok_of_toOption readPair, eq_ok_of_toOption readConverter, ?_, requires,
    ⟨comment, member, documented⟩, ?_⟩
  · rw [knownProvides, List.flatMap_cons, List.flatMap_cons, provides, none]
    exact congrArg List.reverse (Text.sorted_of_ascending (by decide))
  · rw [mem_unnecessary, requires, code, docs]
    decide

theorem documented_unnecessary_iff_converter : ∃ pair converter,
    ofText "/pair.js" pairText = .ok pair ∧ ofText "/convert.js" converterText = .ok converter ∧
    "b.B" ∈ converter.unit.requires ∧ "b.B" ∈ knownProvides [pair, converter] [] ∧
    converter.Documents converterType ∧ DocType.HasWord converterType "b.B" ∧
    "b.B" ∉ converter.unnecessary (knownProvides [pair, converter] []) := by
  obtain ⟨pair, converter, first, second, known, requires, documented, -⟩ := read_converter
  have required : "b.B" ∈ converter.unit.requires := by
    rw [requires]
    decide
  have member : "b.B" ∈ knownProvides [pair, converter] [] := by
    rw [known]
    decide
  have last : ∀ other ∈ knownProvides [pair, converter] [], ¬"b.B" < other := by
    rw [known]
    decide
  refine ⟨pair, converter, first, second, required, member, documented, hasWord_converterType.2, ?_⟩
  exact (documented_unnecessary_iff [pair, converter] [] converter "b.B" required member).1
    converterType documented hasWord_converterType.2
    fun other present later => absurd later (last other present)

/-- The type names both namespaces, and still the one that comes first in order is reported. -/
theorem unnecessary_although_documented : ∃ pair converter,
    ofText "/pair.js" pairText = .ok pair ∧ ofText "/convert.js" converterText = .ok converter ∧
    "a.A" ∈ converter.unit.requires ∧ "a.A" ∈ knownProvides [pair, converter] [] ∧
    converter.Documents converterType ∧ DocType.HasWord converterType "a.A" ∧
    "a.A" ∈ converter.unnecessary (knownProvides [pair, converter] []) := by
  obtain ⟨pair, converter, first, second, known, requires, documented, reported⟩ := read_converter
  refine ⟨pair, converter, first, second, ?_, ?_, documented, hasWord_converterType.1, ?_⟩
  · rw [requires]
    decide
  · rw [known]
    decide
  · rwa [known]

end CheckedSource

end ChunkPlan
