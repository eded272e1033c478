import ChunkPlan.FileSystem.Basic

/-!
# Changes of files

What a run did to the files it was given, as steps that do the same to another place that holds
them.
-/

set_option autoImplicit false

namespace ChunkPlan

/-- A step that changes files. -/
inductive FileChange where
  /-- Makes a directory; the one above it is there. -/
  | directory (path : String)
  /-- Writes a file; the directory above it is there. -/
  | file (path : String) (bytes : ByteArray)

namespace FileItem

def isUnchanged (bytes : ByteArray) (modified : Int) : FileItem → Bool
  | .file oldBytes oldModified => oldModified = modified && oldBytes == bytes
  | .directory .. => false
  | .special _ => false

def itemsOf : Option FileItem → List (String × FileItem)
  | some (.directory items _) => items
  | _ => []

mutual

/-- The steps that make or change the item at a place, where `before` stood there.  A directory
comes before what stands in it. -/
def changes (place : List String) (before : Option FileItem) : FileItem → List FileChange
  | .file bytes modified =>
    if before.any (isUnchanged bytes modified) then []
    else [.file (Path.ofNames place) bytes]
  | .directory items _ =>
    (if before.any isDirectory then [] else [.directory (Path.ofNames place)])
      ++ changesIn place (itemsOf before) items
  -- No run makes or changes such an item.
  | .special _ => []

def changesIn (place : List String) (before : List (String × FileItem)) :
    List (String × FileItem) → List FileChange
  | [] => []
  | (name, item) :: items =>
    changes (place ++ [name]) (Entries.find? before name) item ++ changesIn place before items

end

end FileItem

namespace FileSystem

/-- The steps that lead from some files to the files after a run.  No run removes anything. -/
def changes (before after : FileSystem) : List FileChange :=
  FileItem.changes [] (some before.root) after.root

end FileSystem

end ChunkPlan
