import ChunkPlan.DepsFile
import ChunkPlan.Proofs.Catalog
import ChunkPlan.Proofs.Layout
import ChunkPlan.Proofs.Order

/-!
# Reading dependency files

A dependency file is a script.  Nothing in it is escaped, but texts without quotes, backslashes and
line breaks are read back as they are, and the file declares no namespace of its own.
-/

set_option autoImplicit false

namespace ChunkPlan

/-! ## Scripts without slashes -/

/-- Characters that are read as the same words wherever they stand.  A slash occurs in comments and
strings only, since elsewhere it depends on what stands before it. -/
inductive Spells : List Char → List (TokenKind × String) → Prop where
  | nil : Spells [] []
  | blank {c : Char} {chars : List Char} {words : List (TokenKind × String)} :
      CharClass.isBlank c = true → Spells chars words → Spells (c :: chars) words
  | lineComment {body chars : List Char} {words : List (TokenKind × String)} :
      '\n' ∉ body → Spells chars words → Spells ('/' :: '/' :: body ++ '\n' :: chars) words
  | identifier {c : Char} {name chars : List Char} {words : List (TokenKind × String)} :
      Lexeme.isIdentifierStart c = true → (∀ d ∈ name, Lexeme.isIdentifierPart d = true) →
      (∀ d ∈ chars.head?, Lexeme.isIdentifierPart d = false) → Spells chars words →
      Spells (c :: name ++ chars) ((.identifier, String.ofList (c :: name)) :: words)
  | string {body chars : List Char} {words : List (TokenKind × String)} :
      '\'' ∉ body → '\\' ∉ body → '\n' ∉ body → Spells chars words →
      Spells ('\'' :: body ++ '\'' :: chars) ((.string, String.ofList body) :: words)
  | mark {c : Char} {chars : List Char} {words : List (TokenKind × String)} :
      Lexeme.IsMark c → c ≠ '/' → (∀ d ∈ chars.head?, Lexeme.joins c d = false) →
      Spells chars words → Spells (c :: chars) ((.punctuation, String.ofList [c]) :: words)

namespace Spells

variable {chars : List Char} {words : List (TokenKind × String)}

private theorem exists_pieces (spells : Spells chars words) :
    ∃ pieces, Piece.sources pieces = chars ∧
    (∀ memory, Cut.Lawful memory pieces) ∧ pieces.filterMap Piece.word? = words ∧
      pieces.any Piece.marksBootstrap = false := by
  induction spells with
  | nil => exact ⟨[], rfl, fun _ => .nil, rfl, rfl⟩
  | @blank c _ _ blank _ ih =>
    obtain ⟨pieces, rfl, lawful, rfl, unmarked⟩ := ih
    exact ⟨.blank c :: pieces, rfl, fun memory => .cons (.blank blank) (fun _ _ => rfl) (lawful _),
      rfl, unmarked⟩
  | @lineComment body _ _ line _ ih =>
    obtain ⟨pieces, rfl, lawful, rfl, unmarked⟩ := ih
    refine ⟨.lineComment body :: .blank '\n' :: pieces, rfl, fun memory => ?_, rfl, unmarked⟩
    refine .cons (.lineComment line) ?_ (.cons (.blank (by decide)) (fun _ _ => rfl) (lawful _))
    intro d next
    cases next
    rfl
  | @identifier c name _ _ start parts ends _ ih =>
    obtain ⟨pieces, rfl, lawful, rfl, unmarked⟩ := ih
    exact ⟨.token (.identifier (c :: name)) :: pieces, rfl,
      fun memory => .cons (.token (.identifier start parts)) ends (lawful _), rfl, unmarked⟩
  | @string body _ _ closed plain line _ ih =>
    obtain ⟨pieces, rfl, lawful, rfl, unmarked⟩ := ih
    have text : Lexeme.unescape body = body :=
      (Lexeme.stringBody_self closed plain line).unescape_eq
    have legal (memory : Memory) : (Lexeme.string '\'' body).Legal memory := by
      apply Lexeme.Legal.string (.inl rfl)
      rw [text]
      exact Lexeme.stringBody_self closed plain line
    refine ⟨.token (.string '\'' body) :: pieces, ?_,
      fun memory => .cons (.token (legal memory)) (fun _ _ => rfl) (lawful _), ?_, unmarked⟩
    · simp [Piece.source, Lexeme.source]
    · simp [Piece.word?, Lexeme.kind, Lexeme.text, text]
  | @mark c _ _ mark apart ends _ ih =>
    obtain ⟨pieces, rfl, lawful, rfl, unmarked⟩ := ih
    have legal (memory : Memory) : (Lexeme.punctuation [c]).Legal memory :=
      .mark mark fun same => absurd same apart
    exact ⟨.token (.punctuation [c]) :: pieces, rfl,
      fun memory => .cons (.token (legal memory)) ends (lawful _), rfl, unmarked⟩

private theorem read {text : String} (spells : Spells text.toList words)
    (plain : ¬['#', '!'] <+: text.toList) : ∃ script, Script.read text = .ok script ∧
      script.tokens.map Token.word = words ++ [(.endOfFile, "")] ∧
      script.comments.any Comment.marksBootstrap = false := by
  obtain ⟨pieces, split, lawful, rfl, unmarked⟩ := spells.exists_pieces
  have cut : Cut.ofSource text.toList = ⟨pieces, none⟩ :=
    Cut.ofSource_eq_iff.mpr ⟨split, .plain (by rwa [split]) (lawful {})⟩
  refine ⟨_, Script.read_eq_ok.mpr ⟨pieces, cut, rfl⟩, Piece.words_tokensFrom, ?_⟩
  rw [Piece.any_commentsFrom, unmarked]

/-- Punctuation that never joins with what follows it. -/
theorem separator {c : Char} (member : c ∈ ['(', ')', '[', ']', ',', ';'])
    (spells : Spells chars words) :
    Spells (c :: chars) ((.punctuation, String.ofList [c]) :: words) := by
  have mark : Lexeme.IsMark c ∧ c ≠ '/' ∧ c ≠ '.' ∧ c ≠ '+' ∧ c ≠ '-' := by
    simp only [List.mem_cons, List.not_mem_nil, or_false] at member
    rcases member with rfl | rfl | rfl | rfl | rfl | rfl <;>
      exact ⟨⟨by decide, by decide, by decide, by decide⟩, by decide⟩
  obtain ⟨mark, slash, dot, plus, minus⟩ := mark
  apply Spells.mark mark slash _ spells
  intro d _
  simp [Lexeme.joins, slash, dot, plus, minus]

end Spells

/-! ## The words of a dependency file -/

namespace DepsFile

variable {chars : List Char} {words : List (TokenKind × String)} {path : String} {unit : SourceUnit}
  {texts : List String}

/-- A text that can stand between single quotes as it is. -/
def Quotable (text : String) : Prop := '\'' ∉ text.toList ∧ '\\' ∉ text.toList ∧ '\n' ∉ text.toList

instance (text : String) : Decidable (Quotable text) := inferInstanceAs (Decidable (_ ∧ _ ∧ _))

/-- The words of a list of names in brackets. -/
def listWords (names : List String) : List (TokenKind × String) :=
  (.punctuation, "[") ::
    [(.punctuation, ",")].intercalate (names.map fun name => [(.string, name)]) ++
      [(.punctuation, "]")]

/-- The words of the call that lists a source. -/
def callWords (path : String) (provides requires : List String) (isModule : Bool) :
    List (TokenKind × String) :=
  (.identifier, "goog") :: (.punctuation, ".") :: (.identifier, "addDependency") ::
    (.punctuation, "(") :: (.string, path) :: (.punctuation, ",") :: (listWords provides ++
    (.punctuation, ",") :: (listWords requires ++ [(.punctuation, ","),
    (.identifier, if isModule then "true" else "false"), (.punctuation, ")"), (.punctuation, ";")]))

private theorem spells_word (word : String)
    (start : word.toList.head?.any Lexeme.isIdentifierStart = true)
    (parts : word.toList.tail.all Lexeme.isIdentifierPart = true)
    (ends : ∀ d ∈ chars.head?, Lexeme.isIdentifierPart d = false) (spells : Spells chars words) :
    Spells (word.toList ++ chars) ((.identifier, word) :: words) := by
  cases same : word.toList with
  | nil =>
    rw [same] at start
    cases start
  | cons c name =>
    rw [same] at start parts
    have named : String.ofList (c :: name) = word := by rw [← same, String.ofList_toList]
    rw [← named]
    exact .identifier start (List.all_eq_true.mp parts) ends spells

private theorem spells_dot (begins : chars.head?.any Lexeme.isIdentifierStart = true)
    (spells : Spells chars words) : Spells ('.' :: chars) ((.punctuation, ".") :: words) := by
  refine .mark ⟨by decide, by decide, by decide, by decide⟩ (by decide) ?_ spells
  intro d next
  rw [Option.mem_def.mp next] at begins
  have digit : CharClass.isDigit d = false := by
    refine Bool.eq_false_iff.mpr fun digit => ?_
    rw [Option.any_some, Lexeme.isIdentifierStart_of_isDigit digit] at begins
    cases begins
  simp [Lexeme.joins, digit]

theorem spells_string {text : String} (quotable : Quotable text) (spells : Spells chars words) :
    Spells ('\'' :: text.toList ++ '\'' :: chars) ((.string, text) :: words) := by
  have string := Spells.string quotable.1 quotable.2.1 quotable.2.2 spells
  rwa [String.ofList_toList] at string

private theorem toList_quotedNames (names : List String) : (quotedNames names).toList =
    [',', ' '].intercalate
      ((Text.sorted names).map fun name => '\'' :: name.toList ++ ['\'']) := by
  have quote : (String.toList ∘ fun name : String => s!"'{name}'") =
      fun name => '\'' :: name.toList ++ ['\''] := by
    funext name
    simp [toString]
  rw [quotedNames, String.toList_intercalate, List.map_map, quote]
  rfl

private theorem spells_quoted (quotable : ∀ text ∈ texts, Quotable text)
    (spells : Spells chars words) :
    Spells ([',', ' '].intercalate (texts.map fun text => '\'' :: text.toList ++ ['\'']) ++ chars)
      ([(.punctuation, ",")].intercalate (texts.map fun text => [(.string, text)]) ++ words) := by
  induction texts with
  | nil => exact spells
  | cons text texts ih =>
    obtain ⟨first, others⟩ := List.forall_mem_cons.mp quotable
    cases texts with
    | nil => simpa using spells_string first spells
    | cons next texts =>
      have comma := Spells.separator (c := ',') (by decide)
        (.blank (c := ' ') (by decide) (ih others))
      simpa [List.intercalate_cons_cons] using spells_string first comma

private theorem spells_quotedNames (quotable : ∀ text ∈ texts, Quotable text)
    (spells : Spells chars words) :
    Spells ('[' :: (quotedNames texts).toList ++ ']' :: chars)
      (listWords (Text.sorted texts) ++ words) := by
  have quoted := spells_quoted (fun text member => quotable text (Text.mem_sorted.mp member))
    (.separator (c := ']') (by decide) spells)
  rw [← toList_quotedNames] at quoted
  simpa [listWords] using Spells.separator (c := '[') (by decide) quoted

theorem toList_line : (line path unit).toList =
    "goog".toList ++ '.' :: ("addDependency".toList ++ '(' :: ('\'' ::
      (Path.withSlashes path).toList ++ '\'' :: ',' :: ' ' :: ('[' ::
      (quotedNames unit.provides).toList ++ ']' :: ',' :: ' ' :: ('[' ::
      (quotedNames unit.requires).toList ++ ']' :: ',' :: ' ' ::
      ((if unit.isModule then "true" else "false").toList ++ [')', ';', '\n']))))) := by
  unfold line
  simp only [toString, String.toList_append]
  -- Only the texts in between are spelled out.
  generalize (Path.withSlashes path).toList = slashed
  generalize (quotedNames unit.provides).toList = provides
  generalize (quotedNames unit.requires).toList = requires
  generalize (if unit.isModule then "true" else "false").toList = flag
  simp only [String.reduceToList, List.append_assoc, List.cons_append, List.nil_append]

private theorem quotable_withSlashes (quote : '\'' ∉ path.toList) (line : '\n' ∉ path.toList) :
    Quotable (Path.withSlashes path) := by
  have kept {c : Char} (other : c ≠ '/') :
      c ∈ (Path.withSlashes path).toList ↔ c ∈ path.toList ∧ c ≠ '\\' := by
    simp only [Path.withSlashes, String.toList_ofList, List.mem_map]
    constructor
    · rintro ⟨d, member, same⟩
      split at same
      · exact absurd same.symm other
      · next plain =>
        subst same
        exact ⟨member, plain⟩
    · rintro ⟨member, plain⟩
      exact ⟨c, member, if_neg plain⟩
  refine ⟨?_, ?_, ?_⟩
  · rw [kept (by decide)]
    exact fun member => quote member.1
  · rw [kept (by decide)]
    exact fun member => member.2 rfl
  · rw [kept (by decide)]
    exact fun member => line member.1

private theorem spells_line (quote : '\'' ∉ path.toList) (plain : '\n' ∉ path.toList)
    (names : ∀ name ∈ unit.provides ++ unit.requires, Quotable name) (spells : Spells chars words) :
    Spells ((line path unit).toList ++ chars)
      (callWords (Path.withSlashes path) (Text.sorted unit.provides) (Text.sorted unit.requires)
        unit.isModule ++ words) := by
  obtain ⟨provides, requires⟩ := List.forall_mem_append.mp names
  have close : Spells (')' :: ';' :: '\n' :: chars)
      ((.punctuation, ")") :: (.punctuation, ";") :: words) :=
    .separator (by decide) (.separator (by decide) (.blank (by decide) spells))
  have apart {d : Char} (other : Lexeme.isIdentifierPart d = false) (rest : List Char) :
      ∀ e ∈ (d :: rest).head?, Lexeme.isIdentifierPart e = false := by
    intro e next
    cases next
    exact other
  have flag : Spells ((if unit.isModule then "true" else "false").toList ++
      ')' :: ';' :: '\n' :: chars) ((.identifier, if unit.isModule then "true" else "false") ::
        (.punctuation, ")") :: (.punctuation, ";") :: words) := by
    cases unit.isModule
    · exact spells_word _ (by decide) (by decide) (apart (by decide) _) close
    · exact spells_word _ (by decide) (by decide) (apart (by decide) _) close
  have second := spells_quotedNames requires (.separator (c := ',') (by decide)
    (.blank (c := ' ') (by decide) flag))
  have first := spells_quotedNames provides (.separator (c := ',') (by decide)
    (.blank (c := ' ') (by decide) second))
  have listed := spells_string (quotable_withSlashes quote plain)
    (.separator (c := ',') (by decide) (.blank (c := ' ') (by decide) first))
  have method := spells_word "addDependency" (by decide) (by decide)
    (apart (by decide) _) (.separator (c := '(') (by decide) listed)
  have owner := spells_word "goog" (by decide) (by decide) (apart (by decide) _)
    (spells_dot rfl method)
  rw [toList_line]
  simpa [callWords] using owner

private theorem spells_lines {listed : Entries SourceUnit}
    (paths : ∀ entry ∈ listed, '\'' ∉ entry.1.toList ∧ '\n' ∉ entry.1.toList)
    (names : ∀ entry ∈ listed, ∀ name ∈ entry.2.provides ++ entry.2.requires, Quotable name) :
    Spells (String.join (listed.map fun entry => line entry.1 entry.2)).toList
      (listed.flatMap fun entry => callWords (Path.withSlashes entry.1)
        (Text.sorted entry.2.provides) (Text.sorted entry.2.requires) entry.2.isModule) := by
  induction listed with
  | nil => exact .nil
  | cons entry listed ih =>
    obtain ⟨path, paths⟩ := List.forall_mem_cons.mp paths
    obtain ⟨own, names⟩ := List.forall_mem_cons.mp names
    rw [List.map_cons, String.join_cons, String.toList_append, List.flatMap_cons]
    exact spells_line path.1 path.2 own (ih paths names)

theorem toList_header : header.toList =
    '/' :: '/' :: " This file was autogenerated by closurebuild.".toList ++
      '\n' :: ('/' :: '/' :: " Please do not edit.".toList ++ ['\n']) := by
  simp only [header, String.reduceToList, List.cons_append, List.nil_append]

private theorem spells_header (spells : Spells chars words) :
    Spells (header.toList ++ chars) words := by
  have second : Spells ('/' :: '/' :: " Please do not edit.".toList ++ '\n' :: chars) words :=
    .lineComment (by decide) spells
  have first : Spells ('/' :: '/' :: " This file was autogenerated by closurebuild.".toList ++
      '\n' :: ('/' :: '/' :: " Please do not edit.".toList ++ '\n' :: chars)) words :=
    .lineComment (by decide) second
  rw [toList_header]
  simpa using first

/-- The sources that a dependency file lists, in order of their paths. -/
structure Lists (sources listed : Entries SourceUnit) : Prop where
  providing : listed.Perm (sources.filter fun entry => !entry.2.provides.isEmpty)
  ordered : listed.Pairwise fun a b => a.1 ≤ b.1

private theorem lists_body (sources : Entries SourceUnit) :
    Lists sources ((sources.mergeSort precedes).filter fun entry => !entry.2.provides.isEmpty) := by
  exact ⟨(List.mergeSort_perm sources precedes).filter _,
    (Text.ascending_mergeSort_fst sources).filter _⟩

/-- The words of a call that lists a source. -/
def Calls (entry : String × SourceUnit) (call : List (TokenKind × String)) : Prop :=
  ∃ provides requires, provides.Perm entry.2.provides ∧ provides.Pairwise (· ≤ ·) ∧
    requires.Perm entry.2.requires ∧ requires.Pairwise (· ≤ ·) ∧
      call = callWords (Path.withSlashes entry.1) provides requires entry.2.isModule

private theorem not_identifier_listWords {names : List String} {text : String} :
    (.identifier, text) ∉ listWords names := by
  have strings : (.identifier, text) ∉
      [(TokenKind.punctuation, ",")].intercalate (names.map fun name => [(.string, name)]) := by
    induction names with
    | nil => simp
    | cons name names ih =>
      cases names with
      | nil => simp
      | cons next names => simpa [List.intercalate_cons_cons] using ih
  simpa [listWords] using strings

private theorem identifier_callWords {provides requires : List String} {isModule : Bool}
    {text : String}
    (member : (.identifier, text) ∈ callWords path provides requires isModule) :
    text ∈ ["goog", "addDependency", "true", "false"] := by
  have texts : text = "goog" ∨ text = "addDependency" ∨
      text = if isModule then "true" else "false" := by
    simpa [callWords, not_identifier_listWords] using member
  obtain rfl | rfl | same := texts
  · decide
  · decide
  · cases isModule
    · exact same ▸ by decide
    · exact same ▸ by decide

/-- A dependency file is read as one call for each source that it lists, with all texts as they
were.  As a source of a later build it declares nothing and leaves the catalog as it is. -/
theorem read_back (sources : Entries SourceUnit)
    (paths : ∀ entry ∈ sources, '\'' ∉ entry.1.toList ∧ '\n' ∉ entry.1.toList)
    (names : ∀ entry ∈ sources, ∀ name ∈ entry.2.provides ++ entry.2.requires, Quotable name) :
    ∃ script listed calls, Script.read (header ++ body sources) = .ok script ∧
      Lists sources listed ∧ List.Forall₂ Calls listed calls ∧
      script.tokens.map Token.word = calls.flatten ++ [(.endOfFile, "")] ∧
      ∀ path, ∃ unit, SourceUnit.ofText path (header ++ body sources) = .ok unit ∧
        unit.provides = [] ∧ unit.requires = [] ∧ unit.isBootstrap = false ∧
        ∀ left right, Catalog.ofUnits (left ++ unit :: right) = Catalog.ofUnits (left ++ right) := by
  have lists := lists_body sources
  generalize filtered : (sources.mergeSort precedes).filter
    (fun entry => !entry.2.provides.isEmpty) = listed at lists
  have present (entry : String × SourceUnit) (member : entry ∈ listed) : entry ∈ sources :=
    (List.mem_filter.mp (lists.providing.mem_iff.mp member)).1
  have lines := spells_lines (fun entry member => paths entry (present entry member))
    (fun entry member => names entry (present entry member))
  have spells := spells_header lines
  have whole : (header ++ body sources).toList =
      header.toList ++ (String.join (listed.map fun entry => line entry.1 entry.2)).toList := by
    rw [String.toList_append, body, filtered]
  rw [← whole, List.flatMap_def] at spells
  obtain ⟨script, read, words, unmarked⟩ := spells.read (by rw [whole, toList_header]; simp)
  refine ⟨script, listed, _, read, lists, ?_, words, fun path => ?_⟩
  · refine List.forall₂_map_right_iff.mpr (List.forall₂_same.mpr fun entry _ => ?_)
    exact ⟨_, _, Text.perm_sorted _, Text.ascending_sorted _, Text.perm_sorted _,
      Text.ascending_sorted _, rfl⟩
  · have silent : Declaration.list none script.tokens = [] := by
      refine Declaration.list_eq_nil fun token member identifier name => ?_
      have word : (TokenKind.identifier, token.text) ∈ script.tokens.map Token.word :=
        List.mem_map.mpr ⟨token, member, by rw [Token.word, identifier]⟩
      rw [words] at word
      have known : token.text ∈ ["goog", "addDependency", "true", "false"] := by
        rcases List.mem_append.mp word with inside | last
        · obtain ⟨call, listed, inside⟩ := List.mem_flatten.mp inside
          obtain ⟨entry, -, rfl⟩ := List.mem_map.mp listed
          exact identifier_callWords inside
        · simp at last
      simp only [List.mem_cons, List.not_mem_nil, or_false] at known
      obtain text | text | text | text := known <;> rw [text] <;> rfl
    have unit : script.toUnit path = .create path [] [] false := by
      simp only [Script.toUnit, silent, unmarked]
      rfl
    refine ⟨script.toUnit path, SourceUnit.ofText_of_read read, ?_⟩
    rw [unit]
    refine ⟨rfl, rfl, ?_, fun left right => Catalog.ofUnits_of_provides_nil rfl⟩
    simp [SourceUnit.create, SourceUnit.bootstraps]

/-- Sources under relative paths, one of them with a backslash and one that provides nothing. -/
def shelf : Entries SourceUnit := [
  ("lib\\b.js", { path := "/lib/b.js", provides := ["b", "a.b"], requires := ["a"], isModule := true }),
  ("main.js", { path := "/main.js", requires := ["b"] }),
  ("a.js", { path := "/a.js", provides := ["a"] })]

theorem read_back_shelf :
    (∀ entry ∈ shelf, '\'' ∉ entry.1.toList ∧ '\n' ∉ entry.1.toList) ∧
    (∀ entry ∈ shelf, ∀ name ∈ entry.2.provides ++ entry.2.requires, Quotable name) ∧
    ∃ script listed calls, Script.read (header ++ body shelf) = .ok script ∧
      Lists shelf listed ∧ List.Forall₂ Calls listed calls ∧
      script.tokens.map Token.word = calls.flatten ++ [(.endOfFile, "")] ∧
      ∀ path, ∃ unit, SourceUnit.ofText path (header ++ body shelf) = .ok unit ∧
        unit.provides = [] ∧ unit.requires = [] ∧ unit.isBootstrap = false ∧
        ∀ left right, Catalog.ofUnits (left ++ unit :: right) = Catalog.ofUnits (left ++ right) :=
  ⟨by decide, by decide, read_back shelf (by decide) (by decide)⟩

end DepsFile

end ChunkPlan
