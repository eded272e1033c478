import ChunkPlan.Proofs.Clashes
import ChunkPlan.Proofs.Planning
import ChunkPlan.Proofs.StoppedSearches

/-!
# Plans that fail

Planning stops at the first module, each one before those below it, whose needs cannot be listed.
The modules before that one list what they need behind what they held, and all others are as they
were.  Nothing is moved up before every module is done.
-/

set_option autoImplicit false

namespace ChunkPlan

open UnitList

namespace Catalog

variable {catalog : Catalog} {listed inputs after : UnitList} {input : SourceUnit}
  {names : List String}

private theorem distinct_resolveAll (ok : catalog.resolveAll input listed names = .ok after)
    (distinct : listed.Distinct) : after.Distinct := by
  induction names generalizing listed with
  | nil =>
    cases ok
    exact distinct
  | cons name names ih =>
    rw [resolveAll] at ok
    split at ok
    · cases ok
    · exact ih ok (distinct.addAll _)

private theorem distinct_listInputs (ok : catalog.listInputs listed inputs = .ok after)
    (distinct : listed.Distinct) : after.Distinct := by
  induction inputs generalizing listed with
  | nil =>
    cases ok
    exact distinct
  | cons input inputs ih =>
    rw [listInputs] at ok
    split at ok
    · cases ok
    · next middle resolved => exact ih ok ((distinct_resolveAll resolved distinct).add input)

private theorem distinct_dependencies (ok : catalog.dependencies inputs = .ok after) :
    after.Distinct :=
  distinct_listInputs ok distinct_nil

private theorem dependencies_error {error : BuildError}
    (failed : catalog.dependencies inputs = .error error) :
    (∃ path, error = .circularDependency path) ∨
      ∃ missing asker, error = .unknownNamespace missing asker := by
  obtain ⟨_, _, _, _, stopped⟩ := listInputs_error failed
  obtain ⟨_, stops⟩ := stops_of_resolve stopped
  exact stops.kind

end Catalog

/-- Whether two trees have the same places. -/
def Tree.SameShape {α β : Type} (tree : Tree α) (other : Tree β) : Prop :=
  tree.map (fun _ => ()) = other.map (fun _ => ())

namespace ModuleTree

variable {catalog : Catalog} {pool : UnitList} {tree after : ModuleTree} {trees : List ModuleTree}
  {node filled : ModuleNode} {nodes later more : List ModuleNode} {boot : SourceUnit}
  {error : BuildError}

/-! ## Where planning halts -/

/-- A module that lists, behind what it held, what its entries need and it did not hold. -/
def Fills (catalog : Catalog) (node filled : ModuleNode) : Prop :=
  ∃ units, catalog.dependencies node.entries = .ok units ∧
    filled = { node with deps := node.deps ++ units.filter fun unit => !node.deps.has unit }

/-- What modules are after an error: those before the one with the error are filled, this one and
those behind it are as before. -/
def Halts (catalog : Catalog) (error : BuildError) (nodes after : List ModuleNode) : Prop :=
  ∃ before done node rest, nodes = before ++ node :: rest ∧ after = done ++ node :: rest ∧
    List.Forall₂ (Fills catalog) before done ∧ catalog.dependencies node.entries = .error error

/-- What is left of a plan that fails, if the units of the pool make a catalog at all. -/
def Halted (pool : UnitList) (error : BuildError) (tree after : ModuleTree) : Prop :=
  tree.SameShape after ∧
    ((Catalog.ofUnits pool = .error error ∧ after = tree) ∨
      ∃ catalog, Catalog.ofUnits pool = .ok catalog ∧ Halts catalog error tree.nodes after.nodes)

/-- A module that has lost nothing and got nothing but the bootstrap unit and what its own entries
need. -/
def Retains (pool : UnitList) (node after : ModuleNode) : Prop :=
  after = { node with deps := after.deps } ∧ node.deps.Sublist after.deps ∧
    ∀ unit ∈ after.deps, unit ∈ node.deps ∨ bootstrap pool = .ok unit ∨
      ∃ catalog units, Catalog.ofUnits pool = .ok catalog ∧
        catalog.dependencies node.entries = .ok units ∧ unit ∈ units

theorem fills_filled (met : Met catalog node) :
    Fills catalog node (ModuleTree.filled catalog node) := by
  obtain ⟨units, listed⟩ := met
  refine ⟨units, listed, ?_⟩
  rw [ModuleTree.filled, listed, Except.toOption, Option.getD_some, addAll_eq_append,
    addAll_nil_of_distinct (Catalog.distinct_dependencies listed)]

private theorem forall₂_fills (done : (collect catalog tree).error = none) :
    List.Forall₂ (Fills catalog) tree.nodes (collect catalog tree).tree.nodes := by
  obtain ⟨collected, met⟩ := collect_ok done
  rw [collected, ModuleTree.nodes, ModuleTree.nodes, Tree.preorder_map, List.forall₂_map_right_iff,
    List.forall₂_same]
  exact fun node member => fills_filled (met node member)

theorem Halts.append_right (halts : Halts catalog error nodes later) (more : List ModuleNode) :
    Halts catalog error (nodes ++ more) (later ++ more) := by
  obtain ⟨before, done, node, rest, rfl, rfl, filled, failed⟩ := halts
  exact ⟨before, done, node, rest ++ more, by simp, by simp, filled, failed⟩

theorem Halts.append_left {front done : List ModuleNode}
    (filled : List.Forall₂ (Fills catalog) front done) (halts : Halts catalog error nodes later) :
    Halts catalog error (front ++ nodes) (done ++ later) := by
  obtain ⟨before, others, node, rest, rfl, rfl, alsoFilled, failed⟩ := halts
  exact ⟨front ++ before, done ++ others, node, rest, by simp, by simp,
    List.rel_append filled alsoFilled, failed⟩

private theorem halts_collectAll
    (each : ∀ tree ∈ trees, ∀ error, (collect catalog tree).error = some error →
      Halts catalog error tree.nodes (collect catalog tree).tree.nodes)
    (failed : (collectAll catalog trees).2 = some error) :
    Halts catalog error (trees.flatMap ModuleTree.nodes)
      ((collectAll catalog trees).1.flatMap ModuleTree.nodes) := by
  induction trees with
  | nil =>
    rw [collectAll] at failed
    cases failed
  | cons tree trees ih =>
    obtain ⟨first, others⟩ := List.forall_mem_cons.mp each
    rw [collectAll] at failed ⊢
    cases stopped : (collect catalog tree).error with
    | some fault =>
      simp only [stopped] at failed ⊢
      cases failed
      exact (first error stopped).append_right _
    | none =>
      -- Without an error the first tree is done as a whole, so the error is further on.
      simp only [stopped] at failed ⊢
      exact (ih others failed).append_left (forall₂_fills stopped)

/-- Collecting halts at the first module whose needs cannot be listed. -/
theorem halts_collect (failed : (collect catalog tree).error = some error) :
    Halts catalog error tree.nodes (collect catalog tree).tree.nodes := by
  induction tree using Tree.induct generalizing error with
  | node node children ih =>
    rw [collect] at failed ⊢
    cases listed : catalog.dependencies node.entries with
    | error fault =>
      simp only [listed] at failed ⊢
      cases failed
      rw [ModuleTree.nodes, Tree.preorder_node]
      exact ⟨[], [], node, _, rfl, rfl, .nil, listed⟩
    | ok units =>
      simp only [listed] at failed ⊢
      -- The module is filled before those below it, and comes before them in the order of modules.
      have below := halts_collectAll (fun child member error => ih child member) failed
      have here : Fills catalog node { node with deps := node.deps.addAll units } := by
        simpa [ModuleTree.filled, listed, Except.toOption] using fills_filled ⟨units, listed⟩
      rw [ModuleTree.nodes, ModuleTree.nodes, Tree.preorder_node, Tree.preorder_node]
      exact below.append_left (.cons here .nil)

/-! ## The shape of a tree -/

private theorem shape_collectAll
    (each : ∀ tree ∈ trees, tree.SameShape (collect catalog tree).tree) :
    trees.map (Tree.map fun _ => ()) = (collectAll catalog trees).1.map (Tree.map fun _ => ()) := by
  induction trees with
  | nil => rw [collectAll]
  | cons tree trees ih =>
    obtain ⟨first, others⟩ := List.forall_mem_cons.mp each
    rw [collectAll]
    cases (collect catalog tree).error with
    | some fault => exact congrArg (· :: _) first
    | none => exact congrArg₂ (· :: ·) first (ih others)

private theorem shape_collect : tree.SameShape (collect catalog tree).tree := by
  induction tree using Tree.induct with
  | node node children ih =>
    rw [collect]
    cases catalog.dependencies node.entries with
    | error fault => rfl
    | ok units =>
      rw [Tree.SameShape, Tree.map_node, Tree.map_node]
      exact congrArg _ (shape_collectAll ih)

private theorem shape_lead : tree.SameShape (lead boot tree) := by
  obtain ⟨node, children⟩ := tree
  rw [lead, Tree.SameShape, Tree.map_node, Tree.map_node]

theorem halted_calculate (failed : (calculate pool tree).error = some error) :
    Halted pool error tree (calculate pool tree).tree := by
  unfold calculate at failed ⊢
  cases made : Catalog.ofUnits pool with
  | error fault =>
    simp only [made] at failed ⊢
    cases failed
    exact ⟨rfl, .inl ⟨made, rfl⟩⟩
  | ok catalog =>
    simp only [made] at failed ⊢
    exact ⟨shape_collect, .inr ⟨catalog, made, halts_collect failed⟩⟩

private theorem build_error (failed : (build pool tree).error = some error) :
    (bootstrap pool = .error error ∧ (build pool tree).tree = tree) ∨
      ∃ boot, bootstrap pool = .ok boot ∧
        Halted pool error (lead boot tree) (build pool tree).tree := by
  cases selected : bootstrap pool with
  | error fault =>
    have same : build pool tree = ⟨tree, some fault⟩ := by simp only [build, selected]
    rw [same] at failed ⊢
    cases failed
    exact .inl ⟨rfl, rfl⟩
  | ok boot =>
    cases stopped : (calculate pool (lead boot tree)).error with
    | none =>
      simp only [build, selected, stopped] at failed
      cases failed
    | some fault =>
      have same : build pool tree = calculate pool (lead boot tree) := by
        simp only [build, selected, stopped]
      rw [same] at failed ⊢
      exact .inr ⟨boot, rfl, halted_calculate failed⟩

/-- Once there is a bootstrap unit no error tells of one. -/
theorem Halted.kind (halted : Halted pool error tree after) :
    error ≠ .noBootstrap ∧ ∀ paths, error ≠ .severalBootstraps paths := by
  obtain ⟨-, ⟨failed, -⟩ | ⟨catalog, -, _, _, node, _, -, -, -, failed⟩⟩ := halted
  · obtain ⟨name, earlier, later, rfl, _⟩ := Catalog.firstClash_of_ofUnits failed
    exact ⟨nofun, nofun⟩
  · rcases Catalog.dependencies_error failed with ⟨path, rfl⟩ | ⟨missing, asker, rfl⟩
    · exact ⟨nofun, nofun⟩
    · exact ⟨nofun, nofun⟩

/-! ## What modules retain -/

theorem Retains.refl (node : ModuleNode) : Retains pool node node :=
  ⟨rfl, .refl _, fun _ => .inl⟩

theorem Retains.trans {middle : ModuleNode} (first : Retains pool node middle)
    (second : Retains pool middle filled) : Retains pool node filled := by
  obtain ⟨same, kept, source⟩ := first
  obtain ⟨alsoSame, alsoKept, alsoSource⟩ := second
  rw [same] at alsoSame alsoSource
  refine ⟨alsoSame, kept.trans alsoKept, fun unit member => ?_⟩
  exact (alsoSource unit member).elim (source unit) .inr

private theorem Fills.retains (made : Catalog.ofUnits pool = .ok catalog)
    (fills : Fills catalog node filled) :
    Retains pool node filled := by
  obtain ⟨units, listed, rfl⟩ := fills
  refine ⟨rfl, List.sublist_append_left _ _, fun unit member => ?_⟩
  rcases List.mem_append.mp member with held | needed
  · exact .inl held
  · exact .inr (.inr ⟨catalog, units, made, listed, List.mem_of_mem_filter needed⟩)

private theorem retains_lead (selected : bootstrap pool = .ok boot) (node : ModuleNode) :
    Retains pool node { node with deps := node.deps.lead boot } := by
  unfold UnitList.lead
  split
  · exact .refl node
  · refine ⟨rfl, List.sublist_cons_self _ _, fun unit member => ?_⟩
    rcases List.mem_cons.mp member with rfl | held
    · exact .inr (.inl selected)
    · exact .inl held

theorem retains_same (nodes : List ModuleNode) : List.Forall₂ (Retains pool) nodes nodes :=
  List.forall₂_same.mpr fun node _ => .refl node

private theorem Halted.retains (halted : Halted pool error tree after) :
    List.Forall₂ (Retains pool) tree.nodes after.nodes := by
  obtain ⟨-, ⟨-, rfl⟩ | ⟨catalog, made, halts⟩⟩ := halted
  · exact retains_same _
  · obtain ⟨before, done, node, rest, nodes, others, fills, -⟩ := halts
    rw [nodes, others]
    exact List.rel_append (fills.imp fun _ _ => Fills.retains made) (retains_same _)

private theorem retains_of_lead (selected : bootstrap pool = .ok boot)
    (retains : List.Forall₂ (Retains pool) (lead boot tree).nodes nodes) :
    List.Forall₂ (Retains pool) tree.nodes nodes := by
  rw [nodes_lead] at retains
  rw [ModuleTree.nodes, Tree.preorder_eq]
  cases retains with
  | cons first others => exact .cons ((retains_lead selected _).trans first) others

/-- A plan that fails leaves every module as it was, or filled if it comes before the one with the
error.  A whole plan first puts the bootstrap unit in front of the root, or does nothing at all if
there is none or more than one; no unit is taken from any module, and none is moved up. -/
theorem failed_plan_retains (pool : UnitList) (tree : ModuleTree) :
    (∀ error, (calculate pool tree).error = some error →
      Halted pool error tree (calculate pool tree).tree) ∧
    ∀ error, (build pool tree).error = some error →
      ((bootstrap pool = .error error ∧ (build pool tree).tree = tree) ∨
        ∃ boot, bootstrap pool = .ok boot ∧
          Halted pool error (lead boot tree) (build pool tree).tree) ∧
      tree.SameShape (build pool tree).tree ∧
      List.Forall₂ (Retains pool) tree.nodes (build pool tree).tree.nodes ∧
      (error = .noBootstrap ∨ (∃ paths, error = .severalBootstraps paths) →
        (build pool tree).tree = tree) := by
  refine ⟨fun error failed => halted_calculate failed, fun error failed => ?_⟩
  have stopped := build_error failed
  refine ⟨stopped, ?_⟩
  rcases stopped with ⟨-, untouched⟩ | ⟨boot, selected, halted⟩
  · rw [untouched]
    exact ⟨rfl, retains_same _, fun _ => rfl⟩
  · refine ⟨shape_lead.trans halted.1, retains_of_lead selected halted.retains, ?_⟩
    rintro (missing | ⟨paths, several⟩)
    · exact absurd missing halted.kind.1
    · exact absurd several (halted.kind.2 paths)

/-- A root that holds the right file over modules for the left file, for one with a requirement that
nothing provides, and for the right file. -/
def strayTree : ModuleTree :=
  .node { name := "root", deps := (forkPool.drop 2).take 1 } [
    .node { name := "left", entries := forkPool.take 1 } [],
    .node { name := "stray", entries := [Catalog.strayUnit], deps := forkPool.take 1 } [],
    .node { name := "right", entries := (forkPool.drop 2).take 1 } []]

theorem failed_plan_retains_strayTree :
    (calculate forkPool strayTree).error =
        some (.unknownNamespace "app" (some Catalog.strayUnit)) ∧
      (build forkPool strayTree).error = some (.unknownNamespace "app" (some Catalog.strayUnit)) ∧
      Halted forkPool (.unknownNamespace "app" (some Catalog.strayUnit)) strayTree
        (calculate forkPool strayTree).tree ∧
      List.Forall₂ (Retains forkPool) strayTree.nodes (build forkPool strayTree).tree.nodes := by
  have calculated : (calculate forkPool strayTree).error =
      some (.unknownNamespace "app" (some Catalog.strayUnit)) := by cbv
  have built : (build forkPool strayTree).error =
      some (.unknownNamespace "app" (some Catalog.strayUnit)) := by cbv
  obtain ⟨halted, retains⟩ := failed_plan_retains forkPool strayTree
  exact ⟨calculated, built, halted _ calculated, (retains _ built).2.2.1⟩

end ModuleTree

end ChunkPlan
