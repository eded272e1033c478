import ChunkPlan.Proofs.KnownProvides

/-!
# Namespaces that code uses

A chain of identifiers uses the longest known namespace that it goes into.  The search takes the
first one that fits in descending order and never compares lengths; all that fit begin the same
chain, and among those the order is that of length, whatever characters the names have.
-/

set_option autoImplicit false

namespace ChunkPlan

namespace Text

/-- Of two beginnings of one text the shorter one comes first. -/
theorem lt_iff_length_lt_of_prefix {left right text : String}
    (leftBegins : left.toList <+: text.toList) (rightBegins : right.toList <+: text.toList) :
    left < right ↔ left.length < right.length := by
  have comes_first {short long : String} (shortBegins : short.toList <+: text.toList)
      (longBegins : long.toList <+: text.toList) (shorter : short.length ≤ long.length) :
      short ≤ long := by
    rw [← String.length_toList, ← String.length_toList] at shorter
    have begins := List.prefix_of_prefix_length_le shortBegins longBegins shorter
    exact String.not_lt.mp fun after => begins.le (String.lt_iff_toList_lt.mp after)
  constructor
  · intro before
    by_contra longer
    exact absurd before (String.not_lt.mpr
      (comes_first rightBegins leftBegins (Nat.le_of_not_lt longer)))
  · intro shorter
    have before := comes_first leftBegins rightBegins (Nat.le_of_lt shorter)
    rcases lt_or_eq_of_le before with before | same
    · exact before
    · rw [same] at shorter
      exact absurd shorter (Nat.lt_irrefl _)

end Text

namespace IdentifierChain

variable {chain name : String} {provides : List String}

/-- Whether a chain is a namespace, or goes on after it with a character that is part of no name. -/
def GoesInto (chain name : String) : Prop :=
  chain = name ∨ ∃ c rest, chain.toList = name.toList ++ c :: rest ∧
    CharClass.isWordChar c = false ∧ c ≠ '$'

/-- The known namespace that a chain uses: no longer one fits. -/
structure Uses (provides : List String) (chain name : String) : Prop where
  known : name ∈ provides
  into : GoesInto chain name
  longest : ∀ other ∈ provides, GoesInto chain other → other.length ≤ name.length

private theorem GoesInto.begins (into : GoesInto chain name) : name.toList <+: chain.toList := by
  rcases into with rfl | ⟨c, rest, split, _⟩
  · exact List.prefix_rfl
  · rw [split]
    exact List.prefix_append _ _

theorem getElem?_behind (rest : List Char) :
    (name.toList ++ rest)[name.length]? = rest.head? := by
  rw [← String.length_toList, List.getElem?_append_right (Nat.le_refl _), Nat.sub_self,
    List.head?_eq_getElem?]

theorem livesUnder_iff : livesUnder chain name = true ↔ GoesInto chain name := by
  rw [livesUnder, GoesInto, Bool.or_eq_true, decide_eq_true_eq]
  refine or_congr_right ?_
  rw [Bool.and_eq_true, List.isPrefixOf_iff_prefix]
  constructor
  · rintro ⟨⟨rest, split⟩, ends⟩
    rw [← split, getElem?_behind] at ends
    cases rest with
    | nil => cases ends
    | cons c rest => exact ⟨c, rest, split.symm, by simpa using ends⟩
  · rintro ⟨c, rest, split, word, dollar⟩
    rw [split, getElem?_behind]
    exact ⟨List.prefix_append _ _, by simp [word, dollar]⟩

/-- Where a namespace begins a longer chain, a character of the chain stands behind it. -/
theorem getElem?_of_begins (apart : chain ≠ name) (begins : name.toList <+: chain.toList) :
    ∃ c, chain.toList[name.length]? = some c := by
  obtain ⟨rest, split⟩ := begins
  rw [← split, getElem?_behind]
  cases rest with
  | nil =>
    rw [List.append_nil] at split
    exact absurd (String.toList_inj.mp split.symm) apart
  | cons c rest => exact ⟨c, rfl⟩

/-- In descending order the first namespace that fits is the longest one. -/
theorem namespace?_eq_some_iff (descending : provides.Pairwise fun a b => b ≤ a) :
    IdentifierChain.namespace? chain provides = some name ↔ Uses provides chain name := by
  rw [namespace?, Text.find?_eq_some_iff_of_descending descending, livesUnder_iff]
  constructor
  · rintro ⟨known, into, last⟩
    refine ⟨known, into, fun other alsoKnown alsoInto => ?_⟩
    by_contra longer
    have above := (Text.lt_iff_length_lt_of_prefix into.begins alsoInto.begins).mpr
      (Nat.lt_of_not_le longer)
    have fails := last other alsoKnown above
    rw [livesUnder_iff.mpr alsoInto] at fails
    cases fails
  · intro uses
    refine ⟨uses.known, uses.into, fun other alsoKnown above => ?_⟩
    by_contra fits
    have alsoInto := livesUnder_iff.mp (eq_true_of_ne_false fits)
    have longer := (Text.lt_iff_length_lt_of_prefix uses.into.begins alsoInto.begins).mp above
    exact absurd (uses.longest other alsoKnown alsoInto) (Nat.not_le.mpr longer)

end IdentifierChain

namespace CheckedSource

variable {source : CheckedSource} {provides : List String} {name : String}

theorem mem_usedInCode_iff (descending : provides.Pairwise fun a b => b ≤ a) :
    name ∈ source.usedInCode provides ↔
      ∃ chain ∈ IdentifierChain.used source.script.tokens,
        IdentifierChain.Uses provides chain name := by
  simp only [usedInCode, List.mem_filterMap, IdentifierChain.namespace?_eq_some_iff descending]

/-- The missing requires of a source: in ascending order and each one once, the namespaces that it
neither provides nor requires and that are, for some chain of its code, the longest known one that
the chain goes into.  The character looked at behind a known namespace is always there. -/
theorem missing_lists_longest (sources : List CheckedSource) (excluded : List String)
    (source : CheckedSource) :
    (source.missing (knownProvides sources excluded)).Pairwise (· < ·) ∧
    (∀ name, name ∈ source.missing (knownProvides sources excluded) ↔
      name ∉ source.unit.provides ∧ name ∉ source.unit.requires ∧
        ∃ chain ∈ IdentifierChain.used source.script.tokens,
          IdentifierChain.Uses (knownProvides sources excluded) chain name) ∧
    ∀ chain ∈ IdentifierChain.used source.script.tokens,
      ∀ name ∈ knownProvides sources excluded, chain ≠ name → name.toList <+: chain.toList →
        ∃ c, chain.toList[name.length]? = some c := by
  refine ⟨?_, fun name => ?_, fun chain _ name _ => IdentifierChain.getElem?_of_begins⟩
  · exact Text.strictly_ascending_sorted ((Text.nodup_eraseDups _).filter _)
  · rw [mem_missing, mem_usedInCode_iff (descending_knownProvides sources excluded), and_comm,
      and_assoc]

/-- A kit with a namespace inside another one. -/
def kitText : String := "goog.provide('a');\ngoog.provide('a.b');"

/-- A source that calls a function of the inner one and requires nothing. -/
def runnerText : String := "a.b.run();"

theorem missing_lists_longest_runner : ∃ kit runner, ofText "/kit.js" kitText = .ok kit ∧
    ofText "/run.js" runnerText = .ok runner ∧
    "a.b.run" ∈ IdentifierChain.used runner.script.tokens ∧ "a.b" ∈ knownProvides [kit] [] ∧
    "a.b.run" ≠ "a.b" ∧ "a.b".toList <+: "a.b.run".toList ∧
    (∃ c, "a.b.run".toList["a.b".length]? = some c) ∧
    "a.b" ∈ runner.missing (knownProvides [kit] []) := by
  have first : (ofText "/kit.js" kitText).toOption.map (·.unit.provides) = some ["a", "a.b"] := by
    decide +kernel
  have second : (ofText "/run.js" runnerText).toOption.map (fun runner =>
      (runner.unit.provides, runner.unit.requires, IdentifierChain.used runner.script.tokens)) =
        some ([], [], ["a.b.run"]) := by decide +kernel
  obtain ⟨kit, readKit, provides⟩ := Option.map_eq_some_iff.mp first
  obtain ⟨runner, readRunner, same⟩ := Option.map_eq_some_iff.mp second
  simp only [Prod.mk.injEq] at same
  obtain ⟨provided, required, chains⟩ := same
  have known : knownProvides [kit] [] = ["a.b", "a"] := by
    rw [knownProvides, List.flatMap_cons, provides]
    exact congrArg List.reverse (Text.sorted_of_ascending (by decide))
  have used : "a.b.run" ∈ IdentifierChain.used runner.script.tokens := by
    rw [chains]
    decide
  have member : "a.b" ∈ knownProvides [kit] [] := by
    rw [known]
    decide
  have begins : "a.b".toList <+: "a.b.run".toList := by decide
  obtain ⟨-, listed, behind⟩ := missing_lists_longest [kit] [] runner
  refine ⟨kit, runner, eq_ok_of_toOption readKit, eq_ok_of_toOption readRunner, used, member,
    by decide, begins, behind _ used _ member (by decide) begins, ?_⟩
  have longest : ∀ other ∈ knownProvides [kit] [], other.length ≤ "a.b".length := by
    rw [known]
    decide
  exact (listed "a.b").mpr ⟨by simp [provided], by simp [required], "a.b.run", used, member,
    .inr ⟨'.', "run".toList, by decide, by decide, by decide⟩,
    fun other isKnown _ => longest other isKnown⟩

end CheckedSource

end ChunkPlan
