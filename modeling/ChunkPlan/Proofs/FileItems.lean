import ChunkPlan.FileSystem.Sources
import ChunkPlan.Proofs.Entries
import ChunkPlan.Proofs.Paths
import Mathlib.Data.List.Infix

/-!
# What stands at a place of a tree

An item is seen by its outline, that is without what stands in it.  Putting changes what is at a
place and below it, a new date and erasing what is at a place, and the laws of files and of
directories follow.  The names in a tree stay names.
-/

set_option autoImplicit false

namespace ChunkPlan

namespace FileItem

variable {item root inner : FileItem} {items : List (String × FileItem)} {moment modified : Int}
  {bytes : ByteArray} {place other names : List String} {name : String} {step : FileItem → FileItem}

/-- The bytes and the date of the file that some names lead to. -/
def fileAt? (root : FileItem) (place : List String) : Option (ByteArray × Int) :=
  match root.get? place with
  | some (.file bytes modified) => some (bytes, modified)
  | _ => none

def DirectoryAt (root : FileItem) (place : List String) : Prop :=
  ∃ items modified, root.get? place = some (.directory items modified)

theorem get?_nil (root : FileItem) : root.get? [] = some root := by cases root <;> rfl

theorem get?_directory_cons :
    (directory items modified).get? (name :: names) =
      (Entries.find? items name).bind fun item => item.get? names := by
  rw [get?]
  cases Entries.find? items name <;> rfl

/-- An item without what stands in it. -/
def outline : FileItem → FileItem
  | .directory _ modified => .directory [] modified
  | item => item

def outlineAt? (root : FileItem) (place : List String) : Option FileItem :=
  (root.get? place).map outline

theorem fileAt?_eq_bind : root.fileAt? place =
    (root.outlineAt? place).bind fun outline => outline.fileAt? [] := by
  rw [fileAt?, outlineAt?]
  cases root.get? place with
  | none => rfl
  | some item => cases item <;> rfl

theorem directoryAt_iff_outline :
    root.DirectoryAt place ↔ ∃ modified, root.outlineAt? place = some (.directory [] modified) := by
  simp only [DirectoryAt, outlineAt?, Option.map_eq_some_iff]
  constructor
  · intro ⟨_, modified, found⟩
    exact ⟨modified, _, found, rfl⟩
  · intro ⟨modified, item, found, same⟩
    cases item with
    | file => cases same
    | directory => exact ⟨_, _, found⟩
    | special => cases same

theorem outlineAt?_directory_cons : (directory items modified).outlineAt? (name :: names) =
    (Entries.find? items name).bind fun item => item.outlineAt? names := by
  rw [outlineAt?, get?_directory_cons, Option.map_bind]
  rfl

theorem fileAt?_eq_some : root.fileAt? place = some (bytes, modified) ↔
    root.get? place = some (.file bytes modified) := by
  unfold fileAt?
  split
  · next found => simp [found]
  · next other => simpa using fun found => other bytes modified found

theorem fileAt?_of_get? (missing : root.get? place = none) : root.fileAt? place = none := by
  rw [fileAt?, missing]

theorem fileAt?_file_nil : (file bytes modified).fileAt? [] = some (bytes, modified) := rfl

theorem get?_append (root : FileItem) (place below : List String) :
    root.get? (place ++ below) = (root.get? place).bind fun item => item.get? below := by
  induction place generalizing root with
  | nil => simp [get?_nil]
  | cons name names ih =>
    cases root with
    | file bytes modified => rfl
    | special modified => rfl
    | directory items modified =>
      rw [List.cons_append, get?_directory_cons, get?_directory_cons]
      cases Entries.find? items name with
      | none => rfl
      | some inner => exact ih inner

/-- Above anything there are directories. -/
theorem DirectoryAt.of_above {item : FileItem} (found : root.get? place = some item)
    (above : other <+: place) (proper : other ≠ place) : root.DirectoryAt other := by
  obtain ⟨below, rfl⟩ := above
  rw [get?_append] at found
  obtain ⟨upper, reached, inside⟩ := Option.bind_eq_some_iff.mp found
  cases below with
  | nil => simp at proper
  | cons name names =>
    cases upper with
    | directory items modified => exact ⟨items, modified, reached⟩
    | file => cases inside
    | special => cases inside

/-! ## Changing -/

/-- A change shows at its place and below it; elsewhere everything is as before. -/
theorem outlineAt?_change : (root.change step place).outlineAt? other =
    if place <+: other then
      (root.get? place).bind fun item => (step item).outlineAt? (other.drop place.length)
    else root.outlineAt? other := by
  induction place generalizing root other with
  | nil => simp [change, get?_nil]
  | cons name names ih =>
    cases root with
    | file => cases other <;> simp [change, outlineAt?, get?]
    | special => cases other <;> simp [change, outlineAt?, get?]
    | directory items modified =>
      rw [change, get?_directory_cons]
      cases other with
      | nil => cases Entries.find? items name <;> rfl
      | cons key keys =>
        simp only [outlineAt?_directory_cons, List.cons_prefix_cons]
        by_cases here : name = key
        · subst here
          cases found : Entries.find? items name with
          | none => simp [outlineAt?_directory_cons, found]
          | some inner => simp [outlineAt?_directory_cons, Entries.find?_put, ih]
        · cases Entries.find? items name with
          | none => simp [outlineAt?_directory_cons, here]
          | some inner => simp [outlineAt?_directory_cons, Entries.find?_put, here]

/-- What is changed in a directory for one name shows under that name. -/
theorem outlineAt?_change_rearrange {above : List String} {held : Option FileItem}
    {step : List (String × FileItem) → List (String × FileItem)} (around : root.DirectoryAt above)
    (found : ∀ items key,
      Entries.find? (step items) key = if name = key then held else Entries.find? items key) :
    (root.change (rearrange step) above).outlineAt? other =
      if above ++ [name] <+: other then
        held.bind fun item => item.outlineAt? (other.drop (above ++ [name]).length)
      else root.outlineAt? other := by
  obtain ⟨items, modified, around⟩ := around
  rw [outlineAt?_change, around, Option.bind_some]
  by_cases below : above <+: other
  · obtain ⟨rest, rfl⟩ := below
    have before : root.outlineAt? (above ++ rest) = (directory items modified).outlineAt? rest := by
      rw [outlineAt?, get?_append, around]
      rfl
    simp only [List.prefix_append, if_true, List.drop_left, List.prefix_append_right_inj, before]
    cases rest with
    | nil => rfl
    | cons key keys =>
      simp only [rearrange, outlineAt?_directory_cons, List.cons_prefix_cons, found]
      by_cases here : name = key
      · subst here
        simp
      · simp [here]
  · have apart : ¬above ++ [name] <+: other := fun further =>
      below ((List.prefix_append above [name]).trans further)
    rw [if_neg below, if_neg apart]

/-! ## Putting -/

/-- Whether an item can be put at a place: there is a directory around it. -/
def Within (root : FileItem) (place : List String) : Prop :=
  place ≠ [] ∧ root.DirectoryAt place.dropLast

theorem Within.split (within : root.Within place) :
    ∃ above name, place = above ++ [name] ∧ root.DirectoryAt above := by
  obtain ⟨nonempty, around⟩ := within
  obtain ⟨above, name, rfl⟩ := (List.eq_nil_or_concat' place).resolve_left nonempty
  rw [List.dropLast_concat] at around
  exact ⟨above, name, rfl, around⟩

theorem put_concat {above : List String} : root.put (above ++ [name]) item =
    root.change (rearrange fun items => Entries.put items name item) above := by
  rw [put, List.getLast?_concat, List.dropLast_concat]

/-- What is put at a place stands there with all below it; elsewhere everything is as before. -/
theorem outlineAt?_put (within : root.Within place) :
    (root.put place item).outlineAt? other =
      if place <+: other then item.outlineAt? (other.drop place.length) else root.outlineAt? other := by
  obtain ⟨above, name, rfl, around⟩ := within.split
  rw [put_concat,
    outlineAt?_change_rearrange around fun items key => Entries.find?_put items name key item]
  rfl

theorem fileAt?_put (within : root.Within place) :
    (root.put place item).fileAt? other =
      if place <+: other then item.fileAt? (other.drop place.length) else root.fileAt? other := by
  rw [fileAt?_eq_bind, outlineAt?_put within]
  split
  · rw [fileAt?_eq_bind]
  · rw [fileAt?_eq_bind]

theorem directoryAt_put (within : root.Within place) (apart : ¬place <+: other)
    (directory : root.DirectoryAt other) : (root.put place item).DirectoryAt other := by
  rw [directoryAt_iff_outline] at directory ⊢
  rwa [outlineAt?_put within, if_neg apart]

/-! ## Dates -/

theorem outlineAt?_redate : (root.redate moment place).outlineAt? other =
    if place = other then (root.outlineAt? other).map (dated moment) else root.outlineAt? other := by
  rw [redate, outlineAt?_change]
  by_cases below : place <+: other
  · obtain ⟨rest, rfl⟩ := below
    rw [if_pos (List.prefix_append place rest), List.drop_left, outlineAt?, get?_append]
    cases root.get? place with
    | none => simp
    | some item =>
      cases rest with
      | nil => cases item <;> simp [outlineAt?, get?, outline, dated]
      | cons key keys => cases item <;> simp [outlineAt?, get?, dated]
  · have apart : place ≠ other := fun same => below (same ▸ List.prefix_rfl)
    rw [if_neg below, if_neg apart]

/-- A new date for a directory changes no file. -/
theorem fileAt?_redate (directory : root.DirectoryAt place) :
    (root.redate moment place).fileAt? other = root.fileAt? other := by
  rw [fileAt?_eq_bind, fileAt?_eq_bind, outlineAt?_redate]
  split
  · next same =>
    subst same
    obtain ⟨modified, found⟩ := directoryAt_iff_outline.mp directory
    rw [found]
    rfl
  · rfl

theorem directoryAt_redate (directory : root.DirectoryAt other) :
    (root.redate moment place).DirectoryAt other := by
  rw [directoryAt_iff_outline] at directory ⊢
  obtain ⟨modified, found⟩ := directory
  rw [outlineAt?_redate]
  split
  · exact ⟨moment, by rw [found]; rfl⟩
  · exact ⟨modified, found⟩

/-! ## Erasing -/

theorem erase_concat {above : List String} : root.erase (above ++ [name]) =
    root.change (rearrange fun items => Entries.remove items name) above := by
  rw [erase, List.getLast?_concat, List.dropLast_concat]

/-- What is erased is gone with all below it, and everything else is as before. -/
theorem outlineAt?_erase (within : root.Within place) :
    (root.erase place).outlineAt? other = if place <+: other then none else root.outlineAt? other := by
  obtain ⟨above, name, rfl, around⟩ := within.split
  rw [erase_concat, outlineAt?_change_rearrange around fun _ _ => Entries.find?_remove]
  rfl

theorem fileAt?_erase (within : root.Within place) (isFile : root.get? place = some (.file bytes modified)) :
    (root.erase place).fileAt? other = if place = other then none else root.fileAt? other := by
  rw [fileAt?_eq_bind, outlineAt?_erase within]
  by_cases below : place <+: other
  · obtain ⟨rest, rfl⟩ := below
    rw [if_pos (List.prefix_append place rest), fileAt?, get?_append, isFile]
    cases rest <;> simp [get?]
  · have apart : place ≠ other := fun same => below (same ▸ List.prefix_rfl)
    rw [if_neg below, if_neg apart, fileAt?_eq_bind]

theorem directoryAt_erase (within : root.Within place)
    (isFile : root.get? place = some (.file bytes modified)) (directory : root.DirectoryAt other) :
    (root.erase place).DirectoryAt other := by
  have apart : ¬place <+: other := by
    rintro ⟨rest, rfl⟩
    obtain ⟨_, _, found⟩ := directory
    rw [get?_append, isFile] at found
    cases rest <;> cases found
  rw [directoryAt_iff_outline] at directory ⊢
  rwa [outlineAt?_erase within, if_neg apart]

/-! ## Names -/

/-- Whether all directories of a tree, and the tree itself if it is one, have items of some kind. -/
inductive Throughout (holds : List (String × FileItem) → Prop) : FileItem → Prop
  | leaf (bytes : ByteArray) (modified : Int) : Throughout holds (.file bytes modified)
  | special (modified : Int) : Throughout holds (.special modified)
  | node {items : List (String × FileItem)} {modified : Int} (here : holds items)
      (inner : ∀ entry ∈ items, Throughout holds entry.2) : Throughout holds (.directory items modified)

theorem Throughout.imp {holds others : List (String × FileItem) → Prop}
    (throughout : root.Throughout holds) (each : ∀ items, holds items → others items) :
    root.Throughout others := by
  induction throughout with
  | leaf bytes modified => exact .leaf bytes modified
  | special modified => exact .special modified
  | node here _ ih => exact .node (each _ here) ih

/-- Whether all names in a tree lead down. -/
def WellNamed (tree : FileItem) : Prop :=
  tree.Throughout fun items => ∀ entry ∈ items, Path.IsName entry.1.toList

namespace WellNamed

theorem of_find? (named : (directory items modified).WellNamed)
    (found : Entries.find? items name = some inner) :
    Path.IsName name.toList ∧ inner.WellNamed := by
  cases named with
  | node names all =>
    have member := Entries.mem_of_find? found
    exact ⟨names _ member, all _ member⟩

theorem get? (named : root.WellNamed) (found : root.get? place = some item) : item.WellNamed := by
  induction place generalizing root with
  | nil =>
    rw [get?_nil] at found
    cases found
    exact named
  | cons name names ih =>
    cases root with
    | file => cases found
    | special => cases found
    | directory items modified =>
      rw [get?_directory_cons] at found
      obtain ⟨inner, entered, found⟩ := Option.bind_eq_some_iff.mp found
      exact ih (named.of_find? entered).2 found

theorem put_entry (named : (directory items modified).WellNamed) (isName : Path.IsName name.toList)
    (inside : inner.WellNamed) : (directory (Entries.put items name inner) modified).WellNamed := by
  cases named with
  | node names all =>
    refine .node (fun entry member => ?_) fun entry member => ?_
    · rcases Entries.mem_put member with member | rfl
      · exact names entry member
      · exact isName
    · rcases Entries.mem_put member with member | rfl
      · exact all entry member
      · exact inside

theorem change (named : root.WellNamed) (keeps : ∀ item, item.WellNamed → (step item).WellNamed) :
    (root.change step place).WellNamed := by
  induction place generalizing root with
  | nil =>
    rw [FileItem.change]
    exact keeps root named
  | cons name names ih =>
    cases root with
    | file => exact named
    | special => exact named
    | directory items modified =>
      rw [FileItem.change]
      split
      · exact named
      · next inner found =>
        obtain ⟨isName, inside⟩ := named.of_find? found
        exact named.put_entry isName (ih inside)

theorem redated (named : root.WellNamed) : (root.redate moment place).WellNamed :=
  named.change fun _ inside => by
    cases inside with
    | leaf bytes modified => exact .leaf bytes moment
    | special modified => exact .special moment
    | node names all => exact .node names all

theorem put (named : root.WellNamed) (inside : item.WellNamed)
    (last : ∀ above name, place = above ++ [name] → Path.IsName name.toList) :
    (root.put place item).WellNamed := by
  rcases List.eq_nil_or_concat' place with rfl | ⟨above, name, rfl⟩
  · exact inside
  · rw [put_concat]
    refine named.change fun around aroundNamed => ?_
    cases around with
    | file => exact aroundNamed
    | special => exact aroundNamed
    | directory items modified => exact aroundNamed.put_entry (last above name rfl) inside

theorem erased (named : root.WellNamed) : (root.erase place).WellNamed := by
  rcases List.eq_nil_or_concat' place with rfl | ⟨above, name, rfl⟩
  · exact named
  · rw [erase_concat]
    refine named.change fun around aroundNamed => ?_
    cases aroundNamed with
    | leaf bytes modified => exact .leaf bytes modified
    | special modified => exact .special modified
    | node names all =>
      exact .node (fun entry member => names entry (List.mem_of_mem_filter member))
        fun entry member => all entry (List.mem_of_mem_filter member)

end WellNamed

/-! ## Scripts -/

theorem mem_scriptNames {keep : String → Bool} : name ∈ scriptNames keep items ↔
    keep name = true ∧ isScriptName name = true ∧
      ∃ item, (name, item) ∈ items ∧ item.isDirectory = false := by
  induction items with
  | nil => simp [scriptNames]
  | cons entry items ih =>
    obtain ⟨first, item⟩ := entry
    rw [scriptNames]
    by_cases same : name = first
    · subst same
      by_cases taken : (keep name && isScriptName name && !item.isDirectory) = true
      · simp only [Bool.and_eq_true, Bool.not_eq_true'] at taken
        obtain ⟨⟨kept, script⟩, single⟩ := taken
        simp [kept, script, single]
      · rw [if_neg taken, ih]
        simp only [Bool.and_eq_true, Bool.not_eq_true', not_and] at taken
        refine and_congr_right fun kept => and_congr_right fun script => ?_
        simp [taken ⟨kept, script⟩]
    · split <;> simp [same, ih]

theorem mem_innerScripts {keep : String → Bool} {paths : List (List String)} :
    (name, paths) ∈ innerScripts keep place items ↔
      keep name = true ∧ ∃ item, (name, item) ∈ items ∧
        paths = item.scripts keep (place ++ [name]) := by
  induction items with
  | nil => simp [innerScripts]
  | cons entry items ih =>
    obtain ⟨first, item⟩ := entry
    rw [innerScripts]
    split
    · next kept =>
      by_cases same : name = first
      · subst same
        simp [kept, ih]
      · simp [same, ih]
    · next left =>
      by_cases same : name = first
      · subst same
        simp [left, ih]
      · simp [same, ih]

/-- The names that lead to a script are names of the tree. -/
theorem WellNamed.scripts {keep : String → Bool} (named : root.WellNamed)
    (member : names ∈ root.scripts keep place) : ∀ name ∈ names, Path.IsName name.toList := by
  induction named generalizing place names with
  | leaf bytes modified => cases member
  | special modified => cases member
  | @node items modified isName inner ih =>
    rw [FileItem.scripts] at member
    split at member
    · rcases List.mem_append.mp member with direct | deeper
      · obtain ⟨name, sorted, rfl⟩ := List.mem_map.mp direct
        obtain ⟨-, -, item, listed, -⟩ := mem_scriptNames.mp (List.mem_mergeSort.mp sorted)
        intro other same
        rw [List.mem_singleton.mp same]
        exact isName _ listed
      · obtain ⟨⟨name, paths⟩, sorted, member⟩ := List.mem_flatMap.mp deeper
        obtain ⟨-, item, listed, rfl⟩ := mem_innerScripts.mp (List.mem_mergeSort.mp sorted)
        obtain ⟨rest, found, rfl⟩ := List.mem_map.mp member
        intro other joined
        rcases List.mem_cons.mp joined with rfl | later
        · exact isName _ listed
        · exact ih _ listed found other later
    · cases member

end FileItem

end ChunkPlan
