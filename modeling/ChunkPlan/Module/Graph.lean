import ChunkPlan.Module.Declaration
import ChunkPlan.Tree

/-!
# The module graph

Declared modules name their parents.  They make a tree if exactly one of them has no parent, every
other one has one declared parent, and all of them hang together.
-/

set_option autoImplicit false

namespace ChunkPlan.ModuleGraph

def root (modules : Entries ModuleDeclaration) : Except BuildError String :=
  match modules.filter (·.2.deps.isEmpty) with
  | [] => .error .noRootModule
  | [(name, _)] => .ok name
  | roots => .error (.severalRootModules (Entries.keys roots))

/-- Checks the parents of one module: at most one, and a declared one. -/
def checkParents (modules : Entries ModuleDeclaration) (name : String)
    (declaration : ModuleDeclaration) : Except BuildError Unit :=
  match declaration.deps with
  | [] => .ok ()
  | [parent] => if modules.has parent then .ok () else .error (.unknownParent name parent)
  | parents => .error (.malformedModule name (.severalParents parents))

def checkAll (modules : Entries ModuleDeclaration) :
    List (String × ModuleDeclaration) → Except BuildError Unit
  | [] => .ok ()
  | (name, declaration) :: rest =>
    match checkParents modules name declaration with
    | .error error => .error error
    | .ok () => checkAll modules rest

def isChild (parent : String) (entry : String × ModuleDeclaration) : Bool :=
  entry.2.deps.contains parent

def below (pool : Entries ModuleDeclaration) (parent : String) : Entries ModuleDeclaration :=
  pool.filter (isChild parent)

def without (pool : Entries ModuleDeclaration) (parent : String) : Entries ModuleDeclaration :=
  pool.filter fun entry => !isChild parent entry

theorem length_without_lt {pool : Entries ModuleDeclaration} {parent : String}
    {child : String × ModuleDeclaration} (h : child ∈ below pool parent) :
    (without pool parent).length < pool.length := by
  obtain ⟨hmem, hkind⟩ := List.mem_filter.1 h
  exact List.length_filter_lt_length_iff_exists.2 ⟨child, hmem, by simp [hkind]⟩

/-- For each module that has children, their names in order of declaration. -/
def childrenMap (modules : Entries ModuleDeclaration) : Except BuildError (Entries (List String)) :=
  match checkAll modules modules with
  | .error error => .error error
  | .ok () =>
    let parents := (modules.flatMap (·.2.deps)).eraseDups
    .ok (parents.map fun parent => (parent, Entries.keys (below modules parent)))

/-- The tree that grows from a module.  `pool` holds the modules that have no place yet; a module
has one parent, so its children leave the pool for good. -/
def grow (pool : Entries ModuleDeclaration) (entry : String × ModuleDeclaration) :
    Tree (String × ModuleDeclaration) :=
  .node entry ((below pool entry.1).attach.map fun child => grow (without pool entry.1) child.1)
termination_by pool.length
decreasing_by exact length_without_lt child.2

def unreachable (modules : Entries ModuleDeclaration)
    (tree : Tree (String × ModuleDeclaration)) : List String :=
  modules.keys.filter fun name => !(tree.preorder.map (·.1)).contains name

/-- The tree below the root, as far as it hangs together. -/
def grown (modules : Entries ModuleDeclaration) :
    Except BuildError (Tree (String × ModuleDeclaration)) :=
  match root modules with
  | .error error => .error error
  | .ok name =>
    match childrenMap modules with
    | .error error => .error error
    | .ok _ =>
      match modules.find? name with
      | none => .error .noRootModule
      | some declaration => .ok (grow modules (name, declaration))

end ChunkPlan.ModuleGraph
