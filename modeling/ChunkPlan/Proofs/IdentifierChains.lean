import ChunkPlan.Proofs.Order
import ChunkPlan.RequireCheck.Identifier
import Mathlib.Data.List.TakeWhile

/-!
# Identifier chains in code

A chain is looked for at every identifier that no dot stands before, and it goes as far as dots and
identifiers take turns.  The search jumps from the end of a chain to what follows; it passes over no
beginning of a chain, since within a chain every identifier but the first one has its dot before it.
-/

set_option autoImplicit false

namespace ChunkPlan

namespace IdentifierChain

variable {tokens : List Token} {token : Token} {parts kept : List String}
  {name : String} {start : Nat} {afterDot : Bool}

/-- Some tokens begin with identifiers that have dots between them. -/
inductive Run : List Token → List String → Prop where
  | one {token : Token} {rest : List Token} :
      token.kind = .identifier → Run (token :: rest) [token.text]
  | link {token dot : Token} {rest : List Token} {parts : List String} :
      token.kind = .identifier → dot.isPunctuation "." = true → Run rest parts →
      Run (token :: dot :: rest) (token.text :: parts)

structure LongestRun (tokens : List Token) (parts : List String) : Prop where
  run : Run tokens parts
  longest : ∀ other, Run tokens other → other.length ≤ parts.length

/-- What stands before the first part that is a prototype, if there is one. -/
structure BeforePrototype (parts kept : List String) : Prop where
  begins : parts = kept ∨ ∃ behind, parts = kept ++ "prototype" :: behind
  plain : "prototype" ∉ kept

/-- A chain of these parts uses a name. -/
structure Names (parts : List String) (name : String) : Prop where
  notReserved : ∀ first ∈ parts.head?, first ∉ reservedWords
  joined : ∃ kept, BeforePrototype parts kept ∧ name = ".".intercalate kept
  nonempty : name ≠ ""

/-- Whether no dot stands directly before a token, where `afterDot` tells whether one stands before
the first. -/
def NotAfterDot (afterDot : Bool) (tokens : List Token) : Nat → Prop
  | 0 => afterDot = false
  | start + 1 => ∀ token ∈ tokens[start]?, token.isPunctuation "." = false

/-- A name is used by the chain that begins at a token. -/
def NamedAt (afterDot : Bool) (tokens : List Token) (start : Nat) (name : String) : Prop :=
  NotAfterDot afterDot tokens start ∧
    ∃ parts, LongestRun (tokens.drop start) parts ∧ Names parts name

/-! ## The name of a chain -/

theorem beforePrototype_iff : BeforePrototype parts kept ↔ kept = parts.takeWhile (· ≠ "prototype") := by
  constructor
  · intro before
    obtain ⟨begins, plain⟩ := before
    have all : ∀ part ∈ kept, decide (part ≠ "prototype") = true := fun part member =>
      decide_eq_true fun same => plain (same ▸ member)
    rcases begins with rfl | ⟨behind, rfl⟩
    · exact (List.takeWhile_eq_self_iff.mpr all).symm
    · rw [List.takeWhile_append_of_pos all]
      simp
  · intro taken
    subst taken
    refine ⟨?_, fun member => by simpa using List.mem_takeWhile_imp member⟩
    induction parts with
    | nil => exact .inl rfl
    | cons first parts ih =>
      by_cases same : first = "prototype"
      · exact .inr ⟨parts, by simp [same]⟩
      · rw [List.takeWhile_cons_of_pos (by simpa using same)]
        refine ih.imp (congrArg (first :: ·)) fun cut => ?_
        obtain ⟨behind, split⟩ := cut
        exact ⟨behind, congrArg (first :: ·) split⟩

theorem name?_eq_some_iff : name? parts = some name ↔ Names parts name := by
  have reserved : parts.head?.any reservedWords.contains = true ↔
      ¬∀ first ∈ parts.head?, first ∉ reservedWords := by
    cases parts <;> simp
  unfold name?
  split
  · next begins =>
    exact iff_of_false nofun fun names => reserved.mp begins names.notReserved
  · next begins =>
    have notReserved := not_not.mp (mt reserved.mpr begins)
    dsimp only
    constructor
    · intro named
      split at named
      · cases named
      · next nonempty =>
        cases named
        exact ⟨notReserved, ⟨_, beforePrototype_iff.mpr rfl, rfl⟩, by simpa using nonempty⟩
    · intro names
      obtain ⟨_, ⟨kept, before, rfl⟩, nonempty⟩ := names
      obtain rfl := beforePrototype_iff.mp before
      rw [if_neg (by simpa using nonempty)]

/-! ## The longest chain -/

theorem Run.ne_nil (run : Run tokens parts) : parts ≠ [] := by
  cases run <;> simp

private theorem run_takeLinks (identifier : token.kind = .identifier) :
    Run (token :: tokens) (token.text :: (takeLinks tokens).1) := by
  fun_induction takeLinks tokens generalizing token with
  | case1 dot next tokens follows links rest taken ih =>
    rw [Bool.and_eq_true, decide_eq_true_eq] at follows
    rw [taken] at ih
    exact .link identifier follows.1 (ih follows.2)
  | case2 => exact .one identifier
  | case3 => exact .one identifier

private theorem length_le_takeLinks (run : Run (token :: tokens) parts) :
    parts.length ≤ (takeLinks tokens).1.length + 1 := by
  fun_induction takeLinks tokens generalizing token parts with
  | case1 dot next tokens follows links rest taken ih =>
    rw [taken] at ih
    cases run with
    | one => simp
    | link _ _ behind => exact Nat.succ_le_succ (ih behind)
  | case2 dot next tokens other =>
    cases run with
    | one => simp
    | link _ dotted behind =>
      have identifier : next.kind = .identifier := by cases behind <;> assumption
      simp [dotted, identifier] at other
  | case3 tokens short =>
    cases run with
    | one => simp
    | link _ _ behind =>
      cases behind with
      | one => exact absurd rfl (short _ _ _)
      | link => exact absurd rfl (short _ _ _)

private theorem longestRun_takeLinks (identifier : token.kind = .identifier) :
    LongestRun (token :: tokens) (token.text :: (takeLinks tokens).1) :=
  ⟨run_takeLinks identifier, fun _ other => length_le_takeLinks other⟩

private theorem Run.eq_of_length (run : Run tokens parts) {others : List String}
    (other : Run tokens others)
    (same : parts.length = others.length) : parts = others := by
  induction run generalizing others with
  | one =>
    cases other with
    | one => rfl
    | link _ _ behind => exact absurd (List.length_eq_zero_iff.mp (Nat.succ.inj same).symm) behind.ne_nil
  | link _ _ behind ih =>
    cases other with
    | one => exact absurd (List.length_eq_zero_iff.mp (Nat.succ.inj same)) behind.ne_nil
    | link _ _ also => rw [ih also (Nat.succ.inj same)]

theorem longestRun_cons_iff : LongestRun (token :: tokens) parts ↔
    token.kind = .identifier ∧ parts = token.text :: (takeLinks tokens).1 := by
  constructor
  · intro longest
    have identifier : token.kind = .identifier := by cases longest.run <;> assumption
    have taken : LongestRun (token :: tokens) (token.text :: (takeLinks tokens).1) :=
      longestRun_takeLinks identifier
    refine ⟨identifier, longest.run.eq_of_length taken.run ?_⟩
    exact Nat.le_antisymm (taken.longest _ longest.run) (longest.longest _ taken.run)
  · intro taken
    obtain ⟨identifier, rfl⟩ := taken
    exact longestRun_takeLinks identifier

/-! ## Where chains begin -/

theorem not_namedAt_nil : ¬NamedAt afterDot [] start name := by
  intro named
  obtain ⟨_, parts, longest, _⟩ := named
  rw [List.drop_nil] at longest
  cases longest.run

theorem namedAt_zero : NamedAt afterDot (token :: tokens) 0 name ↔
    afterDot = false ∧ token.kind = .identifier ∧
      name? (token.text :: (takeLinks tokens).1) = some name := by
  simp only [NamedAt, NotAfterDot, List.drop_zero, longestRun_cons_iff, name?_eq_some_iff]
  refine and_congr_right fun _ => ⟨?_, ?_⟩
  · intro named
    obtain ⟨parts, ⟨identifier, rfl⟩, names⟩ := named
    exact ⟨identifier, names⟩
  · intro named
    obtain ⟨identifier, names⟩ := named
    exact ⟨_, ⟨identifier, rfl⟩, names⟩

theorem namedAt_succ : NamedAt afterDot (token :: tokens) (start + 1) name ↔
    NamedAt (token.isPunctuation ".") tokens start name := by
  unfold NamedAt
  refine and_congr_left fun _ => ?_
  cases start <;> simp [NotAfterDot]

/-- No chain begins among the links of another one. -/
theorem namedAt_takeLinks : NamedAt false tokens start name ↔
    ∃ later, start = 2 * (takeLinks tokens).1.length + later ∧
      NamedAt false (takeLinks tokens).2 later name := by
  fun_induction takeLinks tokens generalizing start with
  | case1 dot next tokens follows links rest taken ih =>
    rw [Bool.and_eq_true, decide_eq_true_eq] at follows
    obtain ⟨dotted, identifier⟩ := follows
    simp only [taken] at ih
    have plain : next.isPunctuation "." = false := by simp [Token.isPunctuation, identifier]
    have punctuation : dot.kind ≠ .identifier := by
      intro same
      simp [Token.isPunctuation, same] at dotted
    rw [List.length_cons]
    cases start with
    | zero =>
      rw [namedAt_zero]
      refine iff_of_false (fun named => punctuation named.2.1) fun named => ?_
      obtain ⟨later, far, _⟩ := named
      omega
    | succ start =>
      rw [namedAt_succ, dotted]
      cases start with
      | zero =>
        rw [namedAt_zero]
        refine iff_of_false (fun named => Bool.noConfusion named.1) fun named => ?_
        obtain ⟨later, far, _⟩ := named
        omega
      | succ start =>
        rw [namedAt_succ, plain, ih]
        refine exists_congr fun later => and_congr_left fun _ => ?_
        omega
  | case2 => simp
  | case3 => simp

private theorem namedAt_identifier (identifier : token.kind = .identifier) :
    NamedAt false (token :: tokens) start name ↔
      (start = 0 ∧ name? (token.text :: (takeLinks tokens).1) = some name) ∨
        ∃ later, start = 2 * (takeLinks tokens).1.length + 1 + later ∧
          NamedAt false (takeLinks tokens).2 later name := by
  have plain : token.isPunctuation "." = false := by simp [Token.isPunctuation, identifier]
  cases start with
  | zero =>
    rw [namedAt_zero]
    simp only [identifier, true_and]
    refine ⟨.inl, fun named => named.resolve_right fun behind => ?_⟩
    obtain ⟨later, far, _⟩ := behind
    omega
  | succ start =>
    rw [namedAt_succ, plain, namedAt_takeLinks]
    refine ⟨fun named => .inr ?_, fun named => ?_⟩
    · exact named.imp fun later => And.imp_left (by omega)
    · obtain ⟨later, far, named⟩ := named.resolve_left nofun
      exact ⟨later, by omega, named⟩

private theorem namedAt_other (other : ¬(token.kind = .identifier && !afterDot) = true) :
    NamedAt afterDot (token :: tokens) start name ↔
      ∃ later, start = 1 + later ∧ NamedAt (token.isPunctuation ".") tokens later name := by
  cases start with
  | zero =>
    rw [namedAt_zero]
    refine iff_of_false (fun named => other ?_) fun named => ?_
    · obtain ⟨free, identifier, _⟩ := named
      simp [free, identifier]
    · obtain ⟨later, far, _⟩ := named
      omega
  | succ start =>
    rw [namedAt_succ]
    refine ⟨fun named => ⟨start, Nat.add_comm start 1, named⟩, fun behind => ?_⟩
    obtain ⟨later, far, named⟩ := behind
    obtain rfl : start = later := by omega
    exact named

/-! ## Chains in order -/

/-- Names with their positions, in the order of these, where names stand nowhere else. -/
structure Marks (stands : Nat → String → Prop) (marks : List (Nat × String)) : Prop where
  ascending : marks.Pairwise fun left right => left.1 < right.1
  mem_iff : ∀ start name, (start, name) ∈ marks ↔ stands start name

namespace Marks

variable {stands later : Nat → String → Prop} {marks : List (Nat × String)} {distance : Nat}
  {first second : String} {before after : List String}

theorem shift (marked : Marks later marks)
    (moved : ∀ start name, stands start name ↔ ∃ more, start = distance + more ∧ later more name) :
    Marks stands (marks.map (Prod.map (distance + ·) id)) := by
  refine ⟨List.pairwise_map.mpr (marked.ascending.imp fun less => ?_), fun start name => ?_⟩
  · exact Nat.add_lt_add_left less distance
  · simp only [moved, ← marked.mem_iff, List.mem_map, Prod.exists, Prod.map_apply, Prod.mk.injEq, id_eq]
    constructor
    · intro listed
      obtain ⟨more, _, member, rfl, rfl⟩ := listed
      exact ⟨more, rfl, member⟩
    · intro stands
      obtain ⟨more, rfl, member⟩ := stands
      exact ⟨more, name, member, rfl, rfl⟩

private theorem map_snd_shift :
    (marks.map (Prod.map (distance + ·) id)).map Prod.snd = marks.map Prod.snd := by
  simp [Function.comp_def]

theorem lead (marked : Marks later marks) (positive : 0 < distance)
    (moved : ∀ start name, stands start name ↔
      (start = 0 ∧ some first = some name) ∨ ∃ more, start = distance + more ∧ later more name) :
    Marks stands ((0, first) :: marks.map (Prod.map (distance + ·) id)) := by
  have behind : Marks (fun start name => ∃ more, start = distance + more ∧ later more name)
      (marks.map (Prod.map (distance + ·) id)) := marked.shift fun _ _ => .rfl
  refine ⟨List.pairwise_cons.mpr ⟨fun mark member => ?_, behind.ascending⟩, fun start name => ?_⟩
  · obtain ⟨more, far, _⟩ := (behind.mem_iff mark.1 mark.2).mp member
    omega
  · rw [moved, List.mem_cons, behind.mem_iff, Prod.mk.injEq, Option.some.injEq, @eq_comm _ first]

/-- The first of the names comes before every other name that is not listed in front of it. -/
theorem lt_of_split (marked : Marks stands marks)
    (split : marks.map Prod.snd = before ++ first :: after) (absent : second ∉ before)
    (apart : first ≠ second) :
    ∃ start, stands start first ∧ ∀ other, stands other second → start < other := by
  obtain ⟨front, rest, rfl, rfl, others⟩ := List.map_eq_append_iff.mp split
  obtain ⟨⟨start, name⟩, back, rfl, rfl, rfl⟩ := List.map_eq_cons_iff.mp others
  refine ⟨start, (marked.mem_iff _ _).mp (by simp), fun other stands => ?_⟩
  rcases List.mem_append.mp ((marked.mem_iff _ _).mpr stands) with earlier | member
  · exact absurd (List.mem_map_of_mem earlier) absent
  · rcases List.mem_cons.mp member with same | behind
    · cases same
      exact absurd rfl apart
    · obtain ⟨_, ascending, _⟩ := List.pairwise_append.mp marked.ascending
      exact (List.pairwise_cons.mp ascending).1 (other, second) behind

end Marks

/-- Chains are named in the order in which they begin. -/
theorem exists_marks (afterDot : Bool) (tokens : List Token) :
    ∃ marks, marks.map Prod.snd = names afterDot tokens ∧ Marks (NamedAt afterDot tokens) marks := by
  fun_induction names afterDot tokens with
  | case1 => exact ⟨[], rfl, .nil, fun _ _ => iff_of_false nofun not_namedAt_nil⟩
  | case2 afterDot token tokens begins chain name named ih =>
    obtain ⟨marks, listed, marked⟩ := ih
    rw [Bool.and_eq_true, decide_eq_true_eq, Bool.not_eq_true'] at begins
    obtain ⟨identifier, rfl⟩ := begins
    have moved (start : Nat) (other : String) : NamedAt false (token :: tokens) start other ↔
        (start = 0 ∧ some name = some other) ∨
          ∃ later, start = 2 * chain.1.length + 1 + later ∧ NamedAt false chain.2 later other := by
      rw [namedAt_identifier identifier, ← named]
    refine ⟨_, ?_, marked.lead (Nat.succ_pos _) moved⟩
    rw [List.map_cons, Marks.map_snd_shift, listed]
  | case3 afterDot token tokens begins chain nameless ih =>
    obtain ⟨marks, listed, marked⟩ := ih
    rw [Bool.and_eq_true, decide_eq_true_eq, Bool.not_eq_true'] at begins
    obtain ⟨identifier, rfl⟩ := begins
    have moved (start : Nat) (other : String) : NamedAt false (token :: tokens) start other ↔
        ∃ later, start = 2 * chain.1.length + 1 + later ∧ NamedAt false chain.2 later other := by
      rw [namedAt_identifier identifier, nameless]
      simp [chain]
    exact ⟨_, Marks.map_snd_shift.trans listed, marked.shift moved⟩
  | case4 afterDot token tokens other ih =>
    obtain ⟨marks, listed, marked⟩ := ih
    exact ⟨_, Marks.map_snd_shift.trans listed, marked.shift fun _ _ => namedAt_other other⟩

/-- The names that some code uses are those of its chains, each one once and in the order of first
use: the longest run of identifiers with dots between them from each identifier that no dot stands
before, unless it begins with a word of the language, as far as there is no prototype. -/
theorem used_first_uses (tokens : List Token) :
    (used tokens).Nodup ∧
    (∀ name, name ∈ used tokens ↔ ∃ start, NamedAt false tokens start name) ∧
    (used tokens).Pairwise fun first second =>
      ∃ start, NamedAt false tokens start first ∧
        ∀ other, NamedAt false tokens other second → start < other := by
  obtain ⟨marks, listed, marked⟩ := exists_marks false tokens
  refine ⟨Text.nodup_eraseDups _, fun name => ?_, (Text.pairwise_eraseDups _).imp fun kept => ?_⟩
  · rw [used, List.mem_eraseDups, ← listed, List.mem_map]
    simp only [Prod.exists, exists_eq_right, marked.mem_iff]
  · obtain ⟨apart, before, after, split, absent⟩ := kept
    exact marked.lt_of_split (listed.trans split) absent apart

end IdentifierChain

end ChunkPlan
