import ChunkPlan.Compiler.Wrapper
import ChunkPlan.Proofs.BuildTree
import ChunkPlan.Proofs.TreeLinks
import Mathlib.Algebra.GroupWithZero.Nat
import Mathlib.Data.List.SplitLengths
import Mathlib.Data.String.Basic
import Std.Data.String.ToNat

/-!
# Reading module flags back

The compiler is told one flag for each module and one flat list of sources.  For a tree of declared
modules without colons in their names this is enough: the flags say how the modules hang together,
and their counts say where the list is cut.
-/

set_option autoImplicit false

namespace ChunkPlan

/-- What a flag tells of a module. -/
structure FlagParts where
  name : String
  count : Nat
  parent : Option String
  deriving DecidableEq, Repr

namespace FlagParts

def ofNode (node : ModuleNode) : FlagParts := ⟨node.name, node.units.length, node.parent⟩

/-- Reads a flag from its pieces between colons. -/
def read? (flag : String) : Option FlagParts :=
  match flag.splitToList (· == ':') with
  | [name, count] => count.toNat?.map fun count => ⟨name, count, none⟩
  | [name, count, parent] => count.toNat?.map fun count => ⟨name, count, some parent⟩
  | _ => none

end FlagParts

namespace ModuleNode

variable {node : ModuleNode}

/-- Whether no colon stands in the names that a module carries. -/
structure Plain (node : ModuleNode) : Prop where
  name : ':' ∉ node.name.toList
  parent : ∀ parent, node.parent = some parent → ':' ∉ parent.toList

private theorem colon_not_mem_toString (count : Nat) : ':' ∉ (toString count).toList := by
  intro member
  rw [Nat.toString_eq_repr, Nat.toList_repr] at member
  cases Nat.isDigit_of_mem_toDigits (by decide) (by decide) member

private theorem toList_flag (node : ModuleNode) : node.flag.toList =
    [':'].intercalate
      ((node.name :: toString node.units.length :: node.parent.toList).map String.toList) := by
  cases named : node.parent with
  | none =>
    have written : node.flag = node.name ++ ":" ++ toString node.units.length ++ "" := by
      rw [flag, named]
      rfl
    rw [written]
    simp [List.intercalate]
  | some parent =>
    have written : node.flag =
        node.name ++ ":" ++ toString node.units.length ++ (":" ++ parent) := by
      rw [flag, named]
      rfl
    rw [written]
    simp [List.intercalate]

/-- The pieces of a flag are what it was made of. -/
theorem splitToList_flag (plain : node.Plain) : node.flag.splitToList (· == ':') =
    node.name :: toString node.units.length :: node.parent.toList := by
  have pieces : ∀ piece ∈
      (node.name :: toString node.units.length :: node.parent.toList).map String.toList,
      ':' ∉ piece := by
    simp only [List.map_cons, List.forall_mem_cons]
    refine ⟨plain.name, colon_not_mem_toString _, ?_⟩
    simpa using plain.parent
  rw [String.splitToList_of_valid, toList_flag, ← List.splitOn_eq_splitOnP,
    List.splitOn_intercalate ':' pieces (by simp), List.map_map]
  exact List.map_id'' (fun _ => String.ofList_toList) _

private theorem read?_flag (plain : node.Plain) :
    FlagParts.read? node.flag = some (FlagParts.ofNode node) := by
  rw [FlagParts.read?, splitToList_flag plain, FlagParts.ofNode]
  cases node.parent <;> simp [Nat.toNat?_repr]

end ModuleNode

/-! ## Trees of declared modules -/

namespace ModuleTree

variable {tree made other : ModuleTree} {node : ModuleNode} {nodes : List ModuleNode}

/-- A module without the units that it holds. -/
def emptied (node : ModuleNode) : ModuleNode := { node with deps := [] }

/-- Whether a tree was made of declared modules without colons in their names.  What the modules
hold is left open. -/
inductive OfDeclarations (tree : ModuleTree) : Prop where
  | intro {files : FileSystem} {options : RunOptions} {modules : Entries ModuleDeclaration}
      {scanner : SourceScanner} {made : ModuleTree} :
      modules.keys.Nodup → (∀ name ∈ modules.keys, ':' ∉ name.toList) →
      (Build.buildTree files options modules scanner).1 = .ok made →
      tree.map emptied = made.map emptied → OfDeclarations tree

/-- A tree whose modules have names of their own, without colons, and carry those of their
parents. -/
structure Charted (tree : ModuleTree) : Prop where
  unique : (tree.nodes.map (·.name)).Nodup
  plain : ∀ node ∈ tree.nodes, ':' ∉ node.name.toList
  top : tree.value.parent = none
  linked : Tree.Linked (·.name) (·.parent) tree

private theorem map_name_of_emptied_eq (same : tree.map emptied = made.map emptied) :
    tree.nodes.map (·.name) = made.nodes.map (·.name) := by
  have names (tree : ModuleTree) :
      tree.nodes.map (·.name) = (nodes (tree.map emptied)).map (·.name) := by
    rw [nodes, nodes, Tree.preorder_map, List.map_map]
    rfl
  rw [names tree, same, ← names made]

private theorem OfDeclarations.charted (declared : OfDeclarations tree) : Charted tree := by
  obtain @⟨_, _, modules, _, made, unique, plain, built, same⟩ := declared
  have forms := Build.forms_of_buildTree_ok unique built
  have names := map_name_of_emptied_eq same
  have linked : Tree.Linked (·.name) (·.parent) tree := by
    have emptiedLinked : Tree.Linked (·.name) (·.parent) (made.map emptied) :=
      Tree.linked_map.mpr (Tree.linked_of_at? forms.parents)
    rw [← same] at emptiedLinked
    exact (Tree.linked_map (f := emptied)).mp emptiedLinked
  refine ⟨names ▸ forms.names.nodup_iff.mpr unique, fun node member => ?_, ?_, linked⟩
  · refine plain node.name (forms.names.subset ?_)
    exact names ▸ List.mem_map_of_mem member
  · have top := congrArg (fun tree => tree.value.parent) same
    simp only [Tree.value_map] at top
    exact top.trans forms.root

namespace Charted

variable (charted : Charted tree)

include charted

theorem named_before {before after : List ModuleNode} {parent : String}
    (split : tree.nodes = before ++ node :: after) (named : node.parent = some parent) :
    parent ∈ before.map (·.name) := by
  have inner : before ≠ [] := by
    rintro rfl
    rw [nodes, Tree.preorder_eq] at split
    obtain ⟨rfl, -⟩ := List.cons.inj split
    rw [charted.top] at named
    cases named
  obtain ⟨upper, earlier, also⟩ := charted.linked.named_before split inner
  rw [named] at also
  exact Option.some.inj also ▸ List.mem_map_of_mem earlier

private theorem plain_of_mem (member : node ∈ tree.nodes) : node.Plain := by
  refine ⟨charted.plain node member, fun parent named => ?_⟩
  obtain ⟨before, after, split⟩ := List.append_of_mem member
  obtain ⟨upper, earlier, rfl⟩ := List.mem_map.mp (charted.named_before split named)
  exact charted.plain upper (split ▸ List.mem_append_left _ earlier)

end Charted

/-! ## The flags and the list of sources -/

/-- What the compiler is told of the modules. -/
def flags (tree : ModuleTree) (config : ModuleConfig) : List String :=
  (tree.specs config).map (·.flag)

/-- What a module is called, what it is loaded after, and what it holds. -/
def outline (node : ModuleNode) : FlagParts × UnitList := (FlagParts.ofNode node, node.units)

theorem flags_eq (tree : ModuleTree) (config : ModuleConfig) :
    tree.flags config = tree.nodes.map (·.flag) := by
  simp [flags, specs]

private theorem mapM_read? (plain : ∀ node ∈ nodes, node.Plain) :
    (nodes.map (·.flag)).mapM FlagParts.read? = some (nodes.map FlagParts.ofNode) := by
  induction nodes with
  | nil => rfl
  | cons node nodes ih =>
    obtain ⟨first, plain⟩ := List.forall_mem_cons.mp plain
    rw [List.map_cons, List.mapM_cons, ModuleNode.read?_flag first, ih plain]
    rfl

/-- A flat list is cut at the numbers of units into the lists of the modules. -/
theorem splitLengths_units (nodes : List ModuleNode) :
    (nodes.map (·.units.length)).splitLengths (nodes.flatMap (·.units)) = nodes.map (·.units) := by
  induction nodes with
  | nil => rfl
  | cons node nodes ih => simp [ih]

private theorem outlines_eq (charted : Charted tree) (alsoCharted : Charted other)
    (parts : tree.nodes.map FlagParts.ofNode = other.nodes.map FlagParts.ofNode)
    (sources : tree.sources = other.sources) : tree.map outline = other.map outline := by
  have counts : tree.nodes.map (·.units.length) = other.nodes.map (·.units.length) := by
    have counts := congrArg (List.map (·.count)) parts
    rwa [List.map_map, List.map_map] at counts
  have units : tree.nodes.map (·.units) = other.nodes.map (·.units) := by
    rw [← splitLengths_units, ← splitLengths_units, counts]
    exact congrArg _ sources
  have outlines : tree.nodes.map outline = other.nodes.map outline := by
    have zipped := congrArg₂ List.zip parts units
    rwa [List.zip_map', List.zip_map'] at zipped
  have linked {tree : ModuleTree} (charted : Charted tree) :
      Tree.Linked (·.1.name) (·.1.parent) (tree.map outline) :=
    Tree.linked_map.mpr charted.linked
  refine (linked charted).eq_of_preorder (linked alsoCharted) ?_ ?_
  · rw [Tree.preorder_map, List.map_map]
    exact charted.unique
  · rwa [Tree.preorder_map, Tree.preorder_map]

/-- The flags of a tree of declared modules and the flat list of its sources tell everything about
it.  The pieces of a flag are the name, the count and the parent, which only the root lacks; the
counts cut the list into the units of the modules; a parent comes before its children; and no other
tree has the same flags and the same list. -/
theorem flags_sources_determine (declared : OfDeclarations tree) (config : ModuleConfig) :
    (tree.flags config).map (·.splitToList (· == ':')) = tree.nodes.map (fun node =>
      node.name :: toString node.units.length :: node.parent.toList) ∧
    (tree.value.parent = none ∧ ∀ place index child, tree.at? (place ++ [index]) = some child →
      ∃ above, tree.at? place = some above ∧ child.value.parent = some above.value.name) ∧
    (∃ parts, (tree.flags config).mapM FlagParts.read? = some parts ∧
      parts = tree.nodes.map FlagParts.ofNode ∧
      (parts.map (·.count)).sum = tree.sources.length ∧
      (parts.map (·.count)).splitLengths tree.sources = tree.nodes.map (·.units) ∧
      ∀ before part after parent, parts = before ++ part :: after → part.parent = some parent →
        parent ∈ before.map (·.name)) ∧
    ∀ other otherConfig, OfDeclarations other → other.flags otherConfig = tree.flags config →
      other.sources = tree.sources → other.map outline = tree.map outline := by
  have charted := declared.charted
  refine ⟨?_, ⟨charted.top, fun _ _ _ found => charted.linked.at? found⟩, ?_, ?_⟩
  · rw [flags_eq, List.map_map]
    exact List.map_congr_left fun node member =>
      ModuleNode.splitToList_flag (charted.plain_of_mem member)
  · refine ⟨_, ?_, rfl, ?_, ?_, ?_⟩
    · rw [flags_eq]
      exact mapM_read? fun node => charted.plain_of_mem
    · rw [List.map_map, sources, List.length_flatMap]
      rfl
    · rw [List.map_map]
      exact splitLengths_units tree.nodes
    · intro before part after parent split named
      obtain ⟨first, rest, whole, rfl, below⟩ := List.map_eq_append_iff.mp split
      obtain ⟨node, last, rfl, rfl, rfl⟩ := List.map_eq_cons_iff.mp below
      rw [List.map_map]
      exact charted.named_before whole named
  · intro other otherConfig alsoDeclared flags sources
    have alsoCharted := alsoDeclared.charted
    refine outlines_eq alsoCharted charted (Option.some.inj ?_) sources
    rw [← mapM_read? fun node => alsoCharted.plain_of_mem,
      ← mapM_read? fun node => charted.plain_of_mem, ← flags_eq _ otherConfig, ← flags_eq _ config,
      flags]

/-- Lets the root hold one unit, listed twice, and the other modules nothing. -/
def crowded (node : ModuleNode) : ModuleNode :=
  { node with deps := if node.parent.isNone then [{ path := "a.js" }, { path := "a.js" }] else [] }

theorem flags_sources_determine_chain : ∃ tree : ModuleTree, OfDeclarations tree ∧
    tree.flags default = ["early:1", "late:0:early"] ∧ tree.sources.map (·.path) = ["a.js"] ∧
    ∀ other otherConfig, OfDeclarations other →
      other.flags otherConfig = ["early:1", "late:0:early"] → other.sources = tree.sources →
      other.map outline = tree.map outline := by
  obtain ⟨made, built, -⟩ :=
    Build.buildTree_of_rooted (by decide) Build.rooted_chain Build.readable_chain
  have declared : OfDeclarations (made.map crowded) := by
    refine .intro (by decide) (by decide) built ?_
    rw [Tree.map_map]
    rfl
  have told : (Build.buildTree Build.chainFiles {} Build.chain {}).1.toOption.map (fun tree =>
      ((nodes (tree.map crowded)).map (·.flag), (sources (tree.map crowded)).map (·.path))) =
      some (["early:1", "late:0:early"], ["a.js"]) := by decide +kernel
  rw [built] at told
  obtain ⟨flags, paths⟩ := Prod.mk.inj (Option.some.inj told)
  obtain ⟨-, -, -, determined⟩ := flags_sources_determine declared default
  rw [flags_eq, flags] at determined
  exact ⟨_, declared, (flags_eq _ _).trans flags, paths, determined⟩

end ModuleTree

end ChunkPlan
