import ChunkPlan.Build
import ChunkPlan.Proofs.ModuleChecks
import ChunkPlan.Proofs.Scanning

/-!
# Trees of declared modules

Which tree the declarations of modules come to when their inputs are scanned on the way.
-/

set_option autoImplicit false

namespace ChunkPlan

/-! ## Scans of the inputs -/

namespace Scan

open SourceScanner

variable {α β : Type} {files : FileSystem} {start : SourceScanner} {work : Scan α}
  {next : α → Scan β} {value : α} {last : β}

/-- Work that comes to a value from every scanner that answers as a given one does. -/
def Yields (files : FileSystem) (start : SourceScanner) (work : Scan α) (value : α) : Prop :=
  ∀ scanner, Alike files start scanner →
    (work scanner).1 = .ok value ∧ Alike files start (work scanner).2

private theorem Reads.yields (reads : Reads files work) (answer : (work start).1 = .ok value) :
    Yields files start work value :=
  fun scanner alike =>
    ⟨(reads.same start scanner alike).symm.trans answer, alike.trans (reads.keeps scanner)⟩

theorem yields_pure (value : α) : Yields files start (pure value) value :=
  fun _ alike => ⟨rfl, alike⟩

theorem Yields.bind (first : Yields files start work value)
    (second : Yields files start (next value) last) : Yields files start (work >>= next) last := by
  intro scanner alike
  obtain ⟨answer, kept⟩ := first scanner alike
  rw [bind_run]
  rcases done : work scanner with ⟨result, later⟩
  rw [done] at answer kept
  obtain rfl : result = .ok value := answer
  exact second later kept

private theorem yields_traverse {action : α → Scan β} {result : α → β} {tree : Tree α}
    (each : ∀ value ∈ tree.preorder, Yields files start (action value) (result value)) :
    Yields files start (tree.traverse action) (tree.map result) := by
  have all (trees : List (Tree α))
      (each : ∀ tree ∈ trees, Yields files start (tree.traverse action) (tree.map result)) :
      Yields files start (Tree.traverseAll action trees) (trees.map (Tree.map result)) := by
    induction trees with
    | nil => exact yields_pure _
    | cons tree trees ih =>
      obtain ⟨first, others⟩ := List.forall_mem_cons.mp each
      exact first.bind ((ih others).bind (yields_pure _))
  induction tree using Tree.induct with
  | node value children ih =>
    rw [Tree.preorder_node] at each
    obtain ⟨own, below⟩ := List.forall_mem_cons.mp each
    rw [Tree.traverse, Tree.map_node]
    refine own.bind ((all children fun child among => ?_).bind (yields_pure _))
    refine ih child among fun value inside => below value ?_
    exact List.mem_flatMap.mpr ⟨child, among, inside⟩

theorem steps_of_bind_ok (done : ((work >>= next) start).1 = .ok last) :
    ∃ value later, work start = (.ok value, later) ∧ (next value later).1 = .ok last := by
  rw [bind_run] at done
  rcases worked : work start with ⟨result, later⟩
  rw [worked] at done
  cases result with
  | error error => cases done
  | ok value => exact ⟨value, later, rfl, done⟩

/-- Work in two steps that comes to a value does so in each step, from the same scanner. -/
theorem Reads.of_bind_ok (first : Reads files work) (second : ∀ value, Reads files (next value))
    (done : ((work >>= next) start).1 = .ok last) :
    ∃ value, (work start).1 = .ok value ∧ (next value start).1 = .ok last := by
  obtain ⟨value, later, worked, done⟩ := steps_of_bind_ok done
  have kept := first.keeps start
  rw [worked] at kept
  exact ⟨value, congrArg Prod.fst worked, ((second value).same start later kept).trans done⟩

theorem reads_traverseAll {action : α → Scan β} {trees : List (Tree α)}
    (each : ∀ tree ∈ trees, Reads files (tree.traverse action)) :
    Reads files (Tree.traverseAll action trees) := by
  induction trees with
  | nil => exact reads_pure _
  | cons tree trees ih =>
    obtain ⟨first, others⟩ := List.forall_mem_cons.mp each
    exact reads_bind first fun _ => reads_bind (ih others) fun _ => reads_pure _

private theorem reads_traverse {action : α → Scan β} (reads : ∀ value, Reads files (action value))
    (tree : Tree α) : Reads files (tree.traverse action) := by
  induction tree using Tree.induct with
  | node value children ih =>
    rw [Tree.traverse]
    exact reads_bind (reads value) fun _ => reads_bind (reads_traverseAll ih) fun _ => reads_pure _

/-- A traversal that comes to a tree comes to a value at every place, from the first scanner. -/
theorem each_of_traverse {action : α → Scan β} {tree : Tree α} {result : Tree β}
    (reads : ∀ value, Reads files (action value)) (done : (tree.traverse action start).1 = .ok result) :
    ∀ value ∈ tree.preorder, ∃ out, (action value start).1 = .ok out := by
  have all (trees : List (Tree α)) {results : List (Tree β)}
      (done : (Tree.traverseAll action trees start).1 = .ok results) :
      ∀ tree ∈ trees, ∃ result, (tree.traverse action start).1 = .ok result := by
    induction trees generalizing results with
    | nil => exact List.forall_mem_nil _
    | cons tree trees ih =>
      have others : Reads files (Tree.traverseAll action trees) :=
        reads_traverseAll fun tree _ => reads_traverse reads tree
      obtain ⟨first, here, done⟩ := (reads_traverse reads tree).of_bind_ok
        (fun _ => reads_bind others fun _ => reads_pure _) done
      obtain ⟨rest, below, -⟩ := others.of_bind_ok (fun _ => reads_pure _) done
      exact List.forall_mem_cons.mpr ⟨⟨first, here⟩, ih below⟩
  induction tree using Tree.induct generalizing result with
  | node value children ih =>
    rw [Tree.traverse] at done
    have below : Reads files (Tree.traverseAll action children) :=
      reads_traverseAll fun tree _ => reads_traverse reads tree
    obtain ⟨out, here, done⟩ := (reads value).of_bind_ok
      (fun _ => reads_bind below fun _ => reads_pure _) done
    obtain ⟨results, done, -⟩ := below.of_bind_ok (fun _ => reads_pure _) done
    rw [Tree.preorder_node]
    refine List.forall_mem_cons.mpr ⟨⟨out, here⟩, fun other member => ?_⟩
    obtain ⟨child, among, inside⟩ := List.mem_flatMap.mp member
    obtain ⟨result, done⟩ := all children done child among
    exact ih child among done other inside

end Scan

/-! ## The tree -/

namespace Build

open ModuleGraph

variable {files : FileSystem} {options : RunOptions} {modules : Entries ModuleDeclaration}
  {scanner : SourceScanner} {root : String} {declaration : ModuleDeclaration}
  {tree : ModuleTree} {error : BuildError}

/-- Whether the inputs of all modules can be scanned. -/
def Readable (files : FileSystem) (options : RunOptions) (scanner : SourceScanner)
    (modules : Entries ModuleDeclaration) : Prop :=
  ∀ entry ∈ modules, ∃ units,
    (SourceScanner.scan files options entry.2.inputs scanner).1 = .ok units

/-- A tree in which every declared module stands once, below its parent. -/
structure Forms (files : FileSystem) (options : RunOptions) (scanner : SourceScanner)
    (modules : Entries ModuleDeclaration) (tree : ModuleTree) : Prop where
  names : (tree.nodes.map (·.name)).Perm modules.keys
  nodes : ∀ node ∈ tree.nodes, ∃ declaration, (node.name, declaration) ∈ modules ∧
    node.parent.toList = declaration.deps ∧
    (SourceScanner.scan files options declaration.inputs scanner).1 = .ok node.entries ∧
    node.wrapper =
      (if declaration.wrapper.isEmpty then none else some (.template declaration.wrapper)) ∧
    node.deps = []
  root : tree.value.parent = none
  parents : ∀ place index child, tree.at? (place ++ [index]) = some child →
    ∃ above, tree.at? place = some above ∧ child.value.parent = some above.value.name
  children : ∀ place above, tree.at? place = some above → above.children.map (·.value.name) =
    Entries.keys (modules.filter (·.2.deps.contains above.value.name))

def nodeOf (files : FileSystem) (options : RunOptions) (scanner : SourceScanner)
    (entry : String × ModuleDeclaration) : ModuleNode where
  name := entry.1
  parent := entry.2.deps.head?
  entries := (SourceScanner.scan files options entry.2.inputs scanner).1.toOption.getD []
  wrapper := if entry.2.wrapper.isEmpty then none else some (.template entry.2.wrapper)

private theorem yields_materialize (readable : Readable files options scanner modules)
    (entry : String × ModuleDeclaration) (member : entry ∈ modules) :
    Scan.Yields files scanner (materialize files options entry)
      (nodeOf files options scanner entry) := by
  obtain ⟨units, scanned⟩ := readable entry member
  have node : nodeOf files options scanner entry =
      { nodeOf files options scanner entry with entries := units } := by
    simp [nodeOf, scanned, Except.toOption]
  rw [node]
  exact ((SourceScanner.reads_scan files options _).yields scanned).bind
    (((Scan.reads_note _).yields rfl).bind (Scan.yields_pure _))

private theorem buildTree_of_grown_error (failed : grown modules = .error error) :
    (buildTree files options modules scanner).1 = .error error := by
  rw [buildTree, Scan.bind_run, failed]
  rfl

theorem buildTree_of_oneTop (only : OneTop modules root) (declared : (root, declaration) ∈ modules)
    (readable : Readable files options scanner modules) :
    (buildTree files options modules scanner).1 =
      if stranded modules root = [] then
        .ok ((grow modules (root, declaration)).map (nodeOf files options scanner))
      else .error (.unreachableModules (stranded modules root)) := by
  obtain ⟨value, follows⟩ := only.follows declaration
  have inside : ∀ entry ∈ (grow modules (root, declaration)).preorder, entry ∈ modules :=
    fun entry member => follows.mem_of_mem_preorder (by rwa [value]) member
  have left := unreachable_eq follows (congrArg Prod.fst value)
  obtain ⟨answer, -⟩ := Scan.yields_traverse
    (fun entry member => yields_materialize readable entry (inside entry member)) scanner
    (SourceScanner.Alike.refl scanner)
  rw [buildTree, Scan.bind_run, grown_of_oneTop only declared]
  simp only [Scan.ofExcept]
  rw [Scan.bind_run, left]
  rcases done : (grow modules (root, declaration)).traverse (materialize files options) scanner with
    ⟨result, later⟩
  rw [done] at answer
  obtain rfl : result = _ := answer
  cases stranded modules root with
  | nil => rfl
  | cons name names => rfl

private theorem forms_of_rooted (unique : modules.keys.Nodup) (rooted : Rooted modules root)
    (declared : (root, declaration) ∈ modules) (readable : Readable files options scanner modules) :
    Forms files options scanner modules
      ((grow modules (root, declaration)).map (nodeOf files options scanner)) := by
  have only : OneTop modules root := ⟨unique, rooted.tops, rooted.placed⟩
  obtain ⟨value, follows⟩ := only.follows declaration
  generalize grow modules (root, declaration) = tree at value follows
  have inside : ∀ entry ∈ tree.preorder, entry ∈ modules :=
    fun entry member => follows.mem_of_mem_preorder (by rwa [value]) member
  refine ⟨?_, ?_, ?_, ?_, ?_⟩
  · rw [ModuleTree.nodes, Tree.preorder_map, List.map_map]
    refine follows.perm_names only (by rw [value]) (by rwa [value]) fun name listed => ?_
    rw [value]
    exact rooted.leads name listed
  · intro node listed
    rw [ModuleTree.nodes, Tree.preorder_map] at listed
    obtain ⟨entry, member, rfl⟩ := List.mem_map.mp listed
    obtain ⟨units, scanned⟩ := readable entry (inside entry member)
    have parent := (only.placed entry (inside entry member)).toList_head?
    refine ⟨entry.2, inside entry member, parent, ?_, rfl, rfl⟩
    rw [nodeOf, scanned]
    rfl
  · obtain ⟨top, present, none⟩ := only.declared
    rw [Tree.value_map, value, nodeOf, only.declaration_eq declared present, none]
    rfl
  · intro place index child found
    rw [Tree.at?_map] at found
    obtain ⟨subtree, located, rfl⟩ := Option.map_eq_some_iff.mp found
    obtain ⟨above, reached, deps⟩ := follows.deps_eq only located
    refine ⟨above.map (nodeOf files options scanner), by rw [Tree.at?_map, reached]; rfl, ?_⟩
    rw [Tree.value_map, Tree.value_map, nodeOf, deps]
    rfl
  · intro place above found
    rw [Tree.at?_map] at found
    obtain ⟨subtree, reached, rfl⟩ := Option.map_eq_some_iff.mp found
    have names : subtree.children.map (·.value.1) =
        Entries.keys (ModuleGraph.below modules subtree.value.1) := by
      rw [← (follows.at? reached).children_eq, Entries.keys, List.map_map]
      rfl
    rw [Tree.children_map, List.map_map, Tree.value_map]
    refine Eq.trans (List.map_congr_left fun child _ => ?_) names
    rw [Function.comp_apply, Tree.value_map]
    rfl

theorem buildTree_of_rooted (unique : modules.keys.Nodup) (rooted : Rooted modules root)
    (readable : Readable files options scanner modules) :
    ∃ tree, (buildTree files options modules scanner).1 = .ok tree ∧
      Forms files options scanner modules tree := by
  have only : OneTop modules root := ⟨unique, rooted.tops, rooted.placed⟩
  obtain ⟨declaration, declared, -⟩ := only.declared
  have none : stranded modules root = [] := by
    refine List.filter_eq_nil_iff.mpr fun name declared => ?_
    simpa using rooted.leads name declared
  exact ⟨_, (buildTree_of_oneTop only declared readable).trans (if_pos none),
    forms_of_rooted unique rooted declared readable⟩

private theorem buildTree_of_refused (unique : modules.keys.Nodup) (refused : Refused modules error)
    (readable : Readable files options scanner modules) :
    (buildTree files options modules scanner).1 = .error error := by
  cases refused with
  | noRoot none => exact buildTree_of_grown_error (grown_of_noRoot none)
  | severalRoots several => exact buildTree_of_grown_error (grown_of_severalRoots several)
  | misplaced top split placed misplaced =>
    exact buildTree_of_grown_error (grown_of_misplaced top split placed misplaced)
  | unreachable top placed left =>
    have only : OneTop modules _ := ⟨unique, top, placed⟩
    obtain ⟨declaration, declared, -⟩ := only.declared
    exact (buildTree_of_oneTop only declared readable).trans (if_neg left)

private theorem reads_materialize (entry : String × ModuleDeclaration) :
    Scan.Reads files (materialize files options entry) :=
  Scan.reads_bind (SourceScanner.reads_scan files options _) fun _ =>
    Scan.reads_bind (Scan.reads_note _) fun _ => Scan.reads_pure _

theorem grown_of_buildTree_ok (made : (buildTree files options modules scanner).1 = .ok tree) :
    ∃ outline, grown modules = .ok outline ∧ unreachable modules outline = [] ∧
      (outline.traverse (materialize files options) scanner).1 = .ok tree := by
  obtain ⟨outline, later, first, made⟩ := Scan.steps_of_bind_ok made
  obtain ⟨grew, rfl⟩ := Prod.mk.inj first
  obtain ⟨other, after, done, made⟩ := Scan.steps_of_bind_ok made
  cases left : unreachable modules outline with
  | nil =>
    simp only [left] at made
    cases made
    exact ⟨outline, grew, left, congrArg Prod.fst done⟩
  | cons name names =>
    simp only [left] at made
    cases made

/-- Declarations for which a tree was made make a tree. -/
theorem rooted_of_buildTree_ok (unique : modules.keys.Nodup)
    (made : (buildTree files options modules scanner).1 = .ok tree) :
    ∃ root, Rooted modules root := by
  obtain ⟨outline, grew, complete, -⟩ := grown_of_buildTree_ok made
  refine (rooted_or_refused modules).resolve_right ?_
  rintro ⟨error, refused⟩
  cases refused with
  | noRoot none => cases grew.symm.trans (grown_of_noRoot none)
  | severalRoots several => cases grew.symm.trans (grown_of_severalRoots several)
  | misplaced top split placed misplaced =>
    cases grew.symm.trans (grown_of_misplaced top split placed misplaced)
  | unreachable top placed left =>
    have only : OneTop modules _ := ⟨unique, top, placed⟩
    obtain ⟨declaration, declared, -⟩ := only.declared
    cases grew.symm.trans (grown_of_oneTop only declared)
    obtain ⟨value, follows⟩ := only.follows declaration
    exact left ((unreachable_eq follows (congrArg Prod.fst value)).symm.trans complete)

/-- Declarations for which a tree was made have inputs that can be scanned. -/
theorem readable_of_buildTree_ok (unique : modules.keys.Nodup)
    (made : (buildTree files options modules scanner).1 = .ok tree) :
    Readable files options scanner modules := by
  obtain ⟨outline, grew, complete, done⟩ := grown_of_buildTree_ok made
  obtain ⟨root, rooted⟩ := rooted_of_buildTree_ok unique made
  have only : OneTop modules root := ⟨unique, rooted.tops, rooted.placed⟩
  obtain ⟨declaration, declared, -⟩ := only.declared
  cases grew.symm.trans (grown_of_oneTop only declared)
  obtain ⟨value, follows⟩ := only.follows declaration
  intro entry member
  -- Every module has a place in the tree, so its inputs were scanned on the way.
  have placed : entry.1 ∈ ((grow modules (root, declaration)).preorder).map (·.1) := by
    have listed : entry.1 ∈ modules.keys := List.mem_map_of_mem member
    simpa using List.filter_eq_nil_iff.mp complete entry.1 listed
  obtain ⟨other, inside, same⟩ := List.mem_map.mp placed
  obtain rfl : other = entry := by
    have known : other ∈ modules := follows.mem_of_mem_preorder (by rwa [value]) inside
    obtain ⟨name, first⟩ := other
    obtain ⟨_, second⟩ := entry
    obtain rfl : name = _ := same
    rw [only.declaration_eq known member]
  obtain ⟨node, scanned⟩ := Scan.each_of_traverse reads_materialize done other inside
  obtain ⟨units, scanned, -⟩ := (SourceScanner.reads_scan files options _).of_bind_ok
    (fun _ => Scan.reads_bind (Scan.reads_note _) fun _ => Scan.reads_pure _) scanned
  exact ⟨units, scanned⟩

/-- A tree that was made holds every declared module once, below its parent. -/
theorem forms_of_buildTree_ok (unique : modules.keys.Nodup)
    (made : (buildTree files options modules scanner).1 = .ok tree) :
    Forms files options scanner modules tree := by
  obtain ⟨root, rooted⟩ := rooted_of_buildTree_ok unique made
  obtain ⟨other, again, forms⟩ :=
    buildTree_of_rooted unique rooted (readable_of_buildTree_ok unique made)
  cases made.symm.trans again
  exact forms

/-- Declared modules come to a tree exactly if they hang together below one root, and else to the
error for what is wrong with them.  The recursion over the modules below each one ends. -/
theorem buildTree_spec (files : FileSystem) (options : RunOptions)
    (modules : Entries ModuleDeclaration) (scanner : SourceScanner) (unique : modules.keys.Nodup)
    (readable : Readable files options scanner modules) :
    ((∃ tree, (buildTree files options modules scanner).1 = .ok tree) ↔
      ∃ root, Rooted modules root) ∧
    (∀ tree, (buildTree files options modules scanner).1 = .ok tree →
      Forms files options scanner modules tree) ∧
    (∀ error, (buildTree files options modules scanner).1 = .error error ↔ Refused modules error) ∧
    ∀ root declaration levels, tops modules = [root] →
      (∀ entry ∈ modules, Placed modules entry.2) → modules.length < levels →
      descend? modules levels (root, declaration) = some (grow modules (root, declaration)) := by
  refine ⟨⟨?_, ?_⟩, ?_, fun error => ⟨?_, ?_⟩, ?_⟩
  · rintro ⟨tree, made⟩
    refine (rooted_or_refused modules).resolve_right ?_
    rintro ⟨error, refused⟩
    cases made.symm.trans (buildTree_of_refused unique refused readable)
  · rintro ⟨root, rooted⟩
    obtain ⟨tree, made, -⟩ := buildTree_of_rooted unique rooted readable
    exact ⟨tree, made⟩
  · intro tree made
    rcases rooted_or_refused modules with ⟨root, rooted⟩ | ⟨error, refused⟩
    · obtain ⟨other, again, forms⟩ := buildTree_of_rooted unique rooted readable
      cases made.symm.trans again
      exact forms
    · cases made.symm.trans (buildTree_of_refused unique refused readable)
  · intro failed
    rcases rooted_or_refused modules with ⟨root, rooted⟩ | ⟨other, refused⟩
    · obtain ⟨tree, made, -⟩ := buildTree_of_rooted unique rooted readable
      cases failed.symm.trans made
    · cases failed.symm.trans (buildTree_of_refused unique refused readable)
      exact refused
  · exact fun refused => buildTree_of_refused unique refused readable
  · intro root declaration levels top placed enough
    exact OneTop.descend?_eq ⟨unique, top, placed⟩ enough declaration

def chainFiles : FileSystem where
  root := .directory [("w", .directory [
    ("a.js", .file (Utf8.encode "goog.provide('a');") 1000000000000000000),
    ("b.js", .file (Utf8.encode "goog.require('a');") 1000000000000000000)] 0)] 0
  workingNames := ["w"]

/-- A module that is declared before its parent. -/
def chain : Entries ModuleDeclaration :=
  [("late", { name := "late", deps := ["early"], inputs := ["b.js"] }),
    ("early", { name := "early", deps := [], inputs := ["a.js", "./a.js"] })]

theorem rooted_chain : Rooted chain "early" where
  tops := by decide
  placed := by
    intro entry member
    rcases List.mem_pair.mp member with rfl | rfl
    · exact .below rfl (by decide)
    · exact .top rfl
  leads := by
    intro name member
    rcases List.mem_pair.mp member with rfl | rfl
    · exact .single ⟨_, List.mem_cons_self .., List.mem_singleton.mpr rfl⟩
    · exact .refl

theorem readable_chain : Readable chainFiles {} {} chain := by
  have scanned : ∀ entry ∈ chain,
      (SourceScanner.scan chainFiles {} entry.2.inputs {}).1.isOk = true := by decide +kernel
  exact fun entry member => exists_of_isOk (scanned entry member)

theorem buildTree_spec_chain : chain.keys.Nodup ∧ Readable chainFiles {} {} chain ∧
    (∀ error, ¬Refused chain error) ∧ ∃ tree, (buildTree chainFiles {} chain {}).1 = .ok tree ∧
      Forms chainFiles {} {} chain tree := by
  obtain ⟨made, forms, failed, -⟩ :=
    buildTree_spec chainFiles {} chain {} (by decide) readable_chain
  obtain ⟨tree, built⟩ := made.mpr ⟨"early", rooted_chain⟩
  refine ⟨by decide, readable_chain, fun error refused => ?_, tree, built, forms tree built⟩
  cases built.symm.trans ((failed error).mpr refused)

end Build

end ChunkPlan
