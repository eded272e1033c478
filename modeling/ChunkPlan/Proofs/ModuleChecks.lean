import ChunkPlan.Proofs.ParentChains

/-!
# Checks of declared modules

Declarations make a tree below one root, or they are refused with the first error that applies.
-/

set_option autoImplicit false

namespace ChunkPlan.ModuleGraph

variable {modules entries : Entries ModuleDeclaration} {name root : String}
  {declaration : ModuleDeclaration} {tree : Outline} {error : BuildError}

/-- The error for a module that has no place. -/
inductive Misplaced (modules : Entries ModuleDeclaration) (name : String)
    (declaration : ModuleDeclaration) : BuildError → Prop where
  | severalParents : 1 < declaration.deps.length →
      Misplaced modules name declaration (.malformedModule name (.severalParents declaration.deps))
  | unknownParent {parent : String} : declaration.deps = [parent] → parent ∉ modules.keys →
      Misplaced modules name declaration (.unknownParent name parent)

/-- The modules whose chains do not come to the root, in order of declaration. -/
noncomputable def stranded (modules : Entries ModuleDeclaration) (root : String) : List String :=
  open Classical in modules.keys.filter fun name => ¬Leads modules name root

/-- Declarations that make a tree below a root. -/
structure Rooted (modules : Entries ModuleDeclaration) (root : String) : Prop where
  tops : tops modules = [root]
  placed : ∀ entry ∈ modules, Placed modules entry.2
  leads : ∀ name ∈ modules.keys, Leads modules name root

/-- Declarations that make no tree, with their error. -/
inductive Refused (modules : Entries ModuleDeclaration) : BuildError → Prop where
  | noRoot : tops modules = [] → Refused modules .noRootModule
  | severalRoots : 1 < (tops modules).length → Refused modules (.severalRootModules (tops modules))
  | misplaced {root name : String} {declaration : ModuleDeclaration}
      {before after : Entries ModuleDeclaration} {error : BuildError} : tops modules = [root] →
      modules = before ++ (name, declaration) :: after →
      (∀ entry ∈ before, Placed modules entry.2) → Misplaced modules name declaration error →
      Refused modules error
  | unreachable {root : String} : tops modules = [root] →
      (∀ entry ∈ modules, Placed modules entry.2) → stranded modules root ≠ [] →
      Refused modules (.unreachableModules (stranded modules root))

theorem root_eq (modules : Entries ModuleDeclaration) : ModuleGraph.root modules =
    match tops modules with
    | [] => .error .noRootModule
    | [name] => .ok name
    | names => .error (.severalRootModules names) := by
  unfold ModuleGraph.root tops
  generalize modules.filter (·.2.deps.isEmpty) = found
  match found with
  | [] => rfl
  | [_] => rfl
  | _ :: _ :: _ => rfl

theorem checkParents_eq_ok (placed : Placed modules declaration) :
    checkParents modules name declaration = .ok () := by
  unfold checkParents
  cases placed with
  | top none => rw [none]
  | below one declared =>
    rw [one]
    exact if_pos ((Entries.has_iff_mem_keys modules _).mpr declared)

private theorem checkParents_eq_error (misplaced : Misplaced modules name declaration error) :
    checkParents modules name declaration = .error error := by
  unfold checkParents
  cases misplaced with
  | severalParents several =>
    generalize declaration.deps = parents at several
    match parents, several with
    | _ :: _ :: _, _ => rfl
  | unknownParent one missing =>
    rw [one]
    exact if_neg fun known => missing ((Entries.has_iff_mem_keys modules _).mp known)

private theorem placed_or_misplaced (modules : Entries ModuleDeclaration) (name : String)
    (declaration : ModuleDeclaration) :
    Placed modules declaration ∨ ∃ error, Misplaced modules name declaration error := by
  cases parents : declaration.deps with
  | nil => exact .inl (.top parents)
  | cons parent others =>
    cases others with
    | nil =>
      by_cases known : parent ∈ modules.keys
      · exact .inl (.below parents known)
      · exact .inr ⟨_, .unknownParent parents known⟩
    | cons next others => exact .inr ⟨_, .severalParents (by simp [parents])⟩

private theorem checkAll_eq_ok (placed : ∀ entry ∈ entries, Placed modules entry.2) :
    checkAll modules entries = .ok () := by
  induction entries with
  | nil => rfl
  | cons entry entries ih =>
    obtain ⟨first, others⟩ := List.forall_mem_cons.mp placed
    rw [checkAll, checkParents_eq_ok first]
    exact ih others

private theorem checkAll_eq_error {before after : Entries ModuleDeclaration}
    (placed : ∀ entry ∈ before, Placed modules entry.2)
    (misplaced : Misplaced modules name declaration error) :
    checkAll modules (before ++ (name, declaration) :: after) = .error error := by
  induction before with
  | nil => rw [List.nil_append, checkAll, checkParents_eq_error misplaced]
  | cons entry before ih =>
    obtain ⟨first, others⟩ := List.forall_mem_cons.mp placed
    rw [List.cons_append, checkAll, checkParents_eq_ok first]
    exact ih others

private theorem placed_or_first (modules entries : Entries ModuleDeclaration) :
    (∀ entry ∈ entries, Placed modules entry.2) ∨
      ∃ before name declaration after error, entries = before ++ (name, declaration) :: after ∧
        (∀ entry ∈ before, Placed modules entry.2) ∧ Misplaced modules name declaration error := by
  induction entries with
  | nil => exact .inl fun _ member => nomatch member
  | cons entry entries ih =>
    obtain ⟨name, declaration⟩ := entry
    rcases placed_or_misplaced modules name declaration with first | ⟨error, misplaced⟩
    · rcases ih with others | ⟨before, other, wrong, after, error, rfl, placed, misplaced⟩
      · exact .inl (List.forall_mem_cons.mpr ⟨first, others⟩)
      · exact .inr ⟨(name, declaration) :: before, other, wrong, after, error, rfl,
          List.forall_mem_cons.mpr ⟨first, placed⟩, misplaced⟩
    · exact .inr ⟨[], name, declaration, entries, error, rfl, List.forall_mem_nil _, misplaced⟩

theorem grown_of_noRoot (none : tops modules = []) : grown modules = .error .noRootModule := by
  rw [grown, root_eq, none]

theorem grown_of_severalRoots (several : 1 < (tops modules).length) :
    grown modules = .error (.severalRootModules (tops modules)) := by
  rw [grown, root_eq]
  generalize tops modules = names at several
  match names, several with
  | _ :: _ :: _, _ => rfl

theorem grown_of_misplaced {before after : Entries ModuleDeclaration} (top : tops modules = [root])
    (split : modules = before ++ (name, declaration) :: after)
    (placed : ∀ entry ∈ before, Placed modules entry.2)
    (misplaced : Misplaced modules name declaration error) : grown modules = .error error := by
  have checked : checkAll modules (before ++ (name, declaration) :: after) = .error error :=
    checkAll_eq_error placed misplaced
  rw [← split] at checked
  rw [grown, root_eq, top, childrenMap, checked]

theorem grown_of_oneTop (only : OneTop modules root) (declared : (root, declaration) ∈ modules) :
    grown modules = .ok (grow modules (root, declaration)) := by
  have found := Entries.find?_of_mem only.unique declared
  rw [grown, root_eq, only.tops, childrenMap, checkAll_eq_ok only.placed]
  simp only [found]

theorem OneTop.declared (only : OneTop modules root) :
    ∃ declaration, (root, declaration) ∈ modules ∧ declaration.deps = [] :=
  mem_tops.mp (only.tops ▸ List.mem_singleton.mpr rfl)

theorem OneTop.descend?_eq (only : OneTop modules root) {levels : Nat}
    (enough : modules.length < levels) (declaration : ModuleDeclaration) :
    descend? modules levels (root, declaration) = some (grow modules (root, declaration)) :=
  descend?_eq_some only enough .refl (.refl modules root)

theorem OneTop.follows (only : OneTop modules root) (declaration : ModuleDeclaration) :
    (grow modules (root, declaration)).value = (root, declaration) ∧
      Follows modules (grow modules (root, declaration)) :=
  follows_of_descend? (only.descend?_eq (Nat.lt_succ_self _) declaration)

theorem unreachable_eq (follows : Follows modules tree) (value : tree.value.1 = root) :
    unreachable modules tree = stranded modules root := by
  refine List.filter_congr fun name _ => ?_
  rw [Bool.eq_iff_iff]
  simp [follows.mem_names_iff, value]

theorem rooted_or_refused (modules : Entries ModuleDeclaration) :
    (∃ root, Rooted modules root) ∨ ∃ error, Refused modules error := by
  match roots : tops modules with
  | [] => exact .inr ⟨_, .noRoot roots⟩
  | _ :: _ :: _ => exact .inr ⟨_, .severalRoots (by simp [roots])⟩
  | [root] =>
    rcases placed_or_first modules modules with
      placed | ⟨before, name, declaration, after, error, split, placed, misplaced⟩
    · by_cases all : stranded modules root = []
      · refine .inl ⟨root, roots, placed, fun name declared => ?_⟩
        have leads := List.filter_eq_nil_iff.mp all name declared
        simpa using leads
      · exact .inr ⟨_, .unreachable roots placed all⟩
    · exact .inr ⟨error, .misplaced roots split placed misplaced⟩

end ChunkPlan.ModuleGraph
