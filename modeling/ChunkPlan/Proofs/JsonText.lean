import ChunkPlan.Json.Parser
import ChunkPlan.Proofs.Entries
import ChunkPlan.Proofs.JsonScalar

/-!
# JSON texts read back

A value that is written can be read back, with any blanks after commas and colons.  Numbers with a
fraction are left out: they are written with as many digits as it takes, which is another matter.
-/

set_option autoImplicit false

namespace ChunkPlan.Json

variable {separators : Separators} {text rest word : List Char} {c : Char} {token : Token}
  {reading later : Reading} {value final : Json} {outer : List Frame} {items : List Json}
  {members : List (String × Json)}

/-- Values that are read back as they were: whole numbers not longer than can be read, no other
numbers, and no key twice. -/
inductive Plain : Json → Prop
  | null : Plain .null
  | bool (value : Bool) : Plain (.bool value)
  | integer {value : Int} (short : value.natAbs < 10 ^ Numeral.maxDigits) : Plain (.integer value)
  | string (value : String) : Plain (.string value)
  | array {items : List Json} (each : ∀ item ∈ items, Plain item) : Plain (.array items)
  | object {members : List (String × Json)} (keys : (Entries.keys members).Nodup)
      (each : ∀ member ∈ members, Plain member.2) : Plain (.object members)

/-- Separators that are a comma and a colon, each with any blanks after it. -/
structure Separators.Fit (separators : Separators) : Prop where
  item : ∃ gaps, separators.item.toList = ',' :: gaps ∧ ∀ c ∈ gaps, Token.isGap c = true
  key : ∃ gaps, separators.key.toList = ':' :: gaps ∧ ∀ c ∈ gaps, Token.isGap c = true

theorem Separators.fit_spaced : Separators.spaced.Fit := by
  have blank : ∀ c ∈ [' '], Token.isGap c = true := by simp [Token.isGap]
  exact ⟨⟨[' '], rfl, blank⟩, ⟨[' '], rfl, blank⟩⟩

/-! ## Tokens -/

/-- The tokens of a text, whatever budget is enough for it. -/
def Lexes (text : List Char) (tokens : List Token) : Prop :=
  ∀ budget, text.length ≤ budget → Token.listWithin? budget text = some tokens

theorem Lexes.nil : Lexes [] [] := by
  intro budget _
  unfold Token.listWithin?
  cases budget <;> rfl

theorem Lexes.gap {tokens : List Token} (gap : Token.isGap c = true) (lexes : Lexes text tokens) :
    Lexes (c :: text) tokens := by
  intro budget enough
  rw [← lexes budget (by simp at enough; omega), Token.listWithin?.eq_def,
    Token.listWithin?.eq_def budget text]
  simp only [List.dropWhile_cons, gap, if_true]

theorem Lexes.cons {tokens : List Token}
    (next : Token.next? (c :: (word ++ rest)) = some (token, rest))
    (solid : Token.isGap c = false) (lexes : Lexes rest tokens) :
    Lexes (c :: (word ++ rest)) (token :: tokens) := by
  intro budget enough
  cases budget with
  | zero => simp at enough
  | succ budget =>
    have remaining := lexes budget (by simp at enough; omega)
    rw [Token.listWithin?.eq_def]
    simp [solid, next, remaining]

/-! ## Reading -/

/-- A text that brings a reading to its end with a value. -/
def Reads (reading : Reading) (text : List Char) (final : Json) : Prop :=
  ∃ tokens, Lexes text tokens ∧ reading.run? tokens = some (.done final)

namespace Reads

theorem done : Reads (.done final) [] final := ⟨[], .nil, rfl⟩

theorem gaps {gaps : List Char} (all : ∀ c ∈ gaps, Token.isGap c = true)
    (reads : Reads reading text final) : Reads reading (gaps ++ text) final := by
  induction gaps with
  | nil => exact reads
  | cons c gaps ih =>
    obtain ⟨first, others⟩ := List.forall_mem_cons.mp all
    obtain ⟨tokens, lexes, ran⟩ := ih others
    exact ⟨tokens, lexes.gap first, ran⟩

theorem step (next : Token.next? (c :: (word ++ rest)) = some (token, rest))
    (solid : Token.isGap c = false) (taken : reading.step? token = some later)
    (reads : Reads later rest final) : Reads reading (c :: (word ++ rest)) final := by
  obtain ⟨tokens, lexes, ran⟩ := reads
  refine ⟨token :: tokens, lexes.cons next solid, ?_⟩
  rw [Reading.run?, List.foldlM_cons, taken]
  exact ran

/-- A token of one character. -/
theorem mark (next : Token.next? (c :: rest) = some (token, rest))
    (solid : Token.isGap c = false) (taken : reading.step? token = some later)
    (reads : Reads later rest final) : Reads reading (c :: rest) final :=
  @step rest [] c token reading later final next solid taken reads

theorem literal {name : String} (taken : reading.step? (.scalar (.string name)) = some later)
    (reads : Reads later rest final) : Reads reading (literal name ++ rest) final := by
  have next := @next?_literal rest name
  rw [Json.literal, List.cons_append, List.cons_append] at next ⊢
  exact step next rfl taken reads

/-- The first item of an array is read as any other. -/
theorem firstItem (reads : Reads (.value (.array [] :: outer)) text final) :
    Reads (.firstItem outer) text final := by
  obtain ⟨tokens, lexes, ran⟩ := reads
  refine ⟨tokens, lexes, ?_⟩
  cases tokens with
  | nil => cases ran
  | cons token tokens =>
    rw [Reading.run?, List.foldlM_cons] at ran ⊢
    cases token <;> first | exact ran | cases ran

end Reads

/-- Whether a reading that expects a value takes the text of one as this value. -/
def ReadsValue (separators : Separators) (value : Json) : Prop :=
  ∀ {outer rest final}, Stops rest → Reads (Reading.accept value outer) rest final →
    Reads (.value outer) (chars separators value ++ rest) final

private theorem readsValue_integer {value : Int} (short : value.natAbs < 10 ^ Numeral.maxDigits) :
    ReadsValue separators (.integer value) := by
  intro outer rest final stops reads
  have next := next?_integer short stops
  obtain ⟨c, word, written, solid⟩ := exists_toString value
  rw [chars, written]
  rw [written] at next
  exact .step next solid rfl reads

/-- The items of an array are taken one by one. -/
theorem reads_items (fit : separators.Fit) {first : Json} {taken : List Json}
    (each : ∀ item ∈ first :: items, ReadsValue separators item)
    (reads : Reads (Reading.accept (.array (taken.reverse ++ first :: items)) outer) rest final) :
    Reads (.value (.array taken :: outer)) (itemChars separators (first :: items) ++ ']' :: rest)
      final := by
  induction items generalizing first taken with
  | nil =>
    obtain ⟨readsFirst, _⟩ := List.forall_mem_cons.mp each
    rw [itemChars]
    refine readsFirst (stops_cons rfl (by decide)) (.mark rfl rfl rfl ?_)
    rwa [List.reverse_cons]
  | cons second items ih =>
    obtain ⟨readsFirst, others⟩ := List.forall_mem_cons.mp each
    obtain ⟨gaps, separated, blank⟩ := fit.item
    have readsOthers := @ih second (first :: taken) others (by simpa using reads)
    rw [itemChars, separated]
    · simp only [List.append_assoc, List.cons_append]
      exact readsFirst (stops_cons rfl (by decide)) (.mark rfl rfl rfl (.gaps blank readsOthers))
    · simp

/-- The members of an object are taken one by one. -/
theorem reads_members (fit : separators.Fit) {first : String × Json} {taken : Entries Json}
    (opens : ∀ name, reading.step? (.scalar (.string name)) = some (.colon taken name outer))
    (each : ∀ member ∈ first :: members, ReadsValue separators member.2)
    (reads : Reads (Reading.accept (.object (taken.putAll (first :: members))) outer) rest final) :
    Reads reading (memberChars separators (first :: members) ++ '\x7d' :: rest) final := by
  obtain ⟨keyGaps, keySeparated, keyBlank⟩ := fit.key
  induction members generalizing first taken reading with
  | nil =>
    obtain ⟨name, value⟩ := first
    obtain ⟨readsFirst, _⟩ := List.forall_mem_cons.mp each
    rw [memberChars, keySeparated]
    simp only [List.append_assoc, List.cons_append]
    refine .literal (opens name) (.mark rfl rfl rfl (.gaps keyBlank ?_))
    exact readsFirst (stops_cons rfl (by decide)) (.mark rfl rfl rfl reads)
  | cons second members ih =>
    obtain ⟨name, value⟩ := first
    obtain ⟨readsFirst, others⟩ := List.forall_mem_cons.mp each
    obtain ⟨gaps, separated, blank⟩ := fit.item
    have readsOthers := @ih (.key (taken.put name value) outer) second (taken.put name value)
      (fun _ => rfl) others reads
    rw [memberChars, keySeparated, separated]
    · simp only [List.append_assoc, List.cons_append]
      refine .literal (opens name) (.mark rfl rfl rfl (.gaps keyBlank ?_))
      exact readsFirst (stops_cons rfl (by decide)) (.mark rfl rfl rfl (.gaps blank readsOthers))
    · simp

private theorem Plain.readsValue (fit : separators.Fit) (plain : Plain value) :
    ReadsValue separators value := by
  induction plain with
  | null =>
    intro outer rest final stops reads
    exact @Reads.step rest "ull".toList 'n' _ _ _ _ rfl rfl rfl reads
  | bool value =>
    intro outer rest final stops reads
    cases value with
    | true => exact @Reads.step rest "rue".toList 't' _ _ _ _ rfl rfl rfl reads
    | false => exact @Reads.step rest "alse".toList 'f' _ _ _ _ rfl rfl rfl reads
  | integer short => exact readsValue_integer short
  | string value =>
    intro outer rest final stops reads
    rw [chars]
    exact .literal rfl reads
  | @array items each ih =>
    intro outer rest final stops reads
    rw [chars, List.cons_append, List.cons_append, List.append_assoc]
    refine .mark rfl rfl rfl ?_
    cases items with
    | nil => exact .mark rfl rfl rfl reads
    | cons first items => exact .firstItem (reads_items fit ih reads)
  | @object members keys each ih =>
    intro outer rest final stops reads
    rw [chars, List.cons_append, List.cons_append, List.append_assoc]
    refine .mark rfl rfl rfl ?_
    cases members with
    | nil => exact .mark rfl rfl rfl reads
    | cons first members =>
      rw [← Entries.putAll_nil_of_nodup keys] at reads
      exact reads_members fit (fun _ => rfl) ih reads

/-- What is written is read back. -/
theorem parse?_render (fit : separators.Fit) (plain : Plain value) :
    parse? (render value separators) = some value := by
  have stops : Stops [] := by
    intro c none
    cases none
  obtain ⟨tokens, lexes, ran⟩ := @Plain.readsValue _ _ fit plain [] [] value stops .done
  rw [List.append_nil] at lexes
  rw [parse?, render, String.toList_ofList, Token.list?, lexes _ (Nat.le_refl _), Option.bind_some,
    ofTokens?, ran]

end ChunkPlan.Json
