import ChunkPlan.Dependency.Resolution
import ChunkPlan.Module.Hoisting

/-!
# Planning

Which units each module holds: the bootstrap unit comes first of all, every module takes what its
entries need, and shared units are moved up.  A plan that fails leaves the modules that were done
as they are and the others untouched.
-/

set_option autoImplicit false

namespace ChunkPlan

/-- A tree after some work on it, and the error that ended the work early. -/
structure Attempt where
  tree : ModuleTree
  error : Option BuildError
  deriving Inhabited

namespace ModuleTree

/-- The only unit of a pool that can bootstrap a build. -/
def bootstrap (pool : UnitList) : Except BuildError SourceUnit :=
  match pool.filter (·.isBootstrap) with
  | [unit] => .ok unit
  | [] => .error .noBootstrap
  | units => .error (.severalBootstraps (UnitList.paths units))

mutual

/-- Lists what the entries of each module need, parents first, up to the first error. -/
def collect (catalog : Catalog) : ModuleTree → Attempt
  | .node node children =>
    match catalog.dependencies node.entries with
    | .error error => ⟨.node node children, some error⟩
    | .ok units =>
      let (children, error) := collectAll catalog children
      ⟨.node { node with deps := node.deps.addAll units } children, error⟩

def collectAll (catalog : Catalog) : List ModuleTree → List ModuleTree × Option BuildError
  | [] => ([], none)
  | tree :: trees =>
    let attempt := collect catalog tree
    match attempt.error with
    | some error => (attempt.tree :: trees, some error)
    | none =>
      let (trees, error) := collectAll catalog trees
      (attempt.tree :: trees, error)

end

/-- Lists what each module needs, resolved against a pool of units. -/
def calculate (pool : UnitList) (tree : ModuleTree) : Attempt :=
  match Catalog.ofUnits pool with
  | .error error => ⟨tree, some error⟩
  | .ok catalog => collect catalog tree

/-- Puts a unit in front of what the root holds unless it is held there already. -/
def lead (unit : SourceUnit) : ModuleTree → ModuleTree
  | .node node children => .node { node with deps := node.deps.lead unit } children

def build (pool : UnitList) (tree : ModuleTree) : Attempt :=
  match bootstrap pool with
  | .error error => ⟨tree, some error⟩
  | .ok unit =>
    let attempt := calculate pool (lead unit tree)
    match attempt.error with
    | some _ => attempt
    | none => { attempt with tree := attempt.tree.normalize }

end ModuleTree

end ChunkPlan
