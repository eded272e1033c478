import ChunkPlan.Proofs.Files
import ChunkPlan.Proofs.Order

/-!
# Walking a directory

The scripts below a directory come in the order of a walk: of each directory first its own scripts,
then what its directories hold, one directory after the other.  This order leaves no choice, so a
walk that passes over hidden names is the whole walk without the scripts that have one.  Whatever is
no directory counts as a file, and a directory whose path is too long is passed over.  No item is a
link, so a walk never leaves its directory.
-/

set_option autoImplicit false

namespace ChunkPlan

namespace FileItem

variable {tree item : FileItem} {items : List (String × FileItem)} {modified : Int}
  {keep : String → Bool} {name : String} {names rest left right place : List String}

/-- A way down through directories that hold nothing else. -/
def nested (names : List String) (item : FileItem) : FileItem :=
  names.foldr (fun name inner => .directory [(name, inner)] 0) item

end FileItem

namespace FileSystem

open FileItem

variable {files : FileSystem} {locator : String} {tree : FileItem}

/-- Hidden scripts and directories below a hidden directory, a directory named like a script, and a
pipe. -/
def dottedTree : FileItem := .directory [
  ("x.js", .directory [(".js", .file .empty 0), ("in.js", .special 0)] 0),
  (".git", .directory [("a.js", .file .empty 0)] 0),
  ("b.js", .file .empty 0), ("notes.txt", .file .empty 0), ("B.js", .file .empty 0)] 0

def dotted : FileSystem where
  root := .directory [("w", .directory [(".top", dottedTree)] 0)] 0
  workingNames := ["w"]

/-- A way down with a path that is too long to be listed. -/
def longNames : List String := List.replicate 16 (String.ofList (List.replicate 255 'd'))

def deep : FileSystem where
  root := .directory [("w", .nested longNames (.directory [("p.js", .file .empty 0)] 0))] 0
  workingNames := ["w"]

end FileSystem

end ChunkPlan
