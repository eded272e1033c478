import ChunkPlan.Entries
import ChunkPlan.FileSystem.Fault
import ChunkPlan.Number.Binary64
import ChunkPlan.Path
import ChunkPlan.Text.Order
import ChunkPlan.Text.Utf8

/-!
# File systems

The files that a run sees, as one value: a tree of directories, the working directory, and a clock
that dates what is written.  There are no links, so a path leads to one place at most, and nothing
is refused for want of a permission.
-/

set_option autoImplicit false

namespace ChunkPlan

/-- What can stand under a name in a directory.  Dates are in nanoseconds. -/
inductive FileItem where
  | file (bytes : ByteArray) (modified : Int)
  /-- The items of a directory and when one was last added or removed. -/
  | directory (items : List (String × FileItem)) (modified : Int)
  /-- What is neither, such as a socket.  It stands in its directory like a file, but cannot be
  opened; what a pipe or a device would give or take is left out. -/
  | special (modified : Int)
  deriving Inhabited

namespace FileItem

def modified : FileItem → Int
  | .file _ modified => modified
  | .directory _ modified => modified
  | .special modified => modified

def get? : FileItem → List String → Option FileItem
  | item, [] => some item
  | .file .., _ :: _ => none
  | .special _, _ :: _ => none
  | .directory items _, name :: names =>
    match Entries.find? items name with
    | none => none
    | some item => get? item names

/-- Changes the item that some names lead to, if there is one.  The directories on the way keep
their dates. -/
def change (step : FileItem → FileItem) : FileItem → List String → FileItem
  | item, [] => step item
  | .directory items modified, name :: names =>
    match Entries.find? items name with
    | none => .directory items modified
    | some inner => .directory (Entries.put items name (change step inner names)) modified
  | item, _ :: _ => item

def rearrange (step : List (String × FileItem) → List (String × FileItem)) : FileItem → FileItem
  | .directory items modified => .directory (step items) modified
  | item => item

/-- Puts an item where some names lead; the directory around it has to be there. -/
def put (root : FileItem) (place : List String) (item : FileItem) : FileItem :=
  match place.getLast? with
  | none => item
  | some name => root.change (rearrange fun items => Entries.put items name item) place.dropLast

def dated (moment : Int) : FileItem → FileItem
  | .file bytes _ => .file bytes moment
  | .directory items _ => .directory items moment
  | .special _ => .special moment

def redate (moment : Int) (root : FileItem) (place : List String) : FileItem :=
  root.change (dated moment) place

def erase (root : FileItem) (place : List String) : FileItem :=
  match place.getLast? with
  | none => root
  | some name => root.change (rearrange fun items => Entries.remove items name) place.dropLast

def isDirectory : FileItem → Bool
  | .directory .. => true
  | .file .. => false
  | .special _ => false

mutual

/-- The paths of all files below a directory, each as the names that lead to it. -/
def filePaths : FileItem → List (List String)
  | .file .. => [[]]
  | .directory items _ => filePathsOf items
  | .special _ => []

def filePathsOf : List (String × FileItem) → List (List String)
  | [] => []
  | (name, item) :: items => (filePaths item).map (name :: ·) ++ filePathsOf items

end

end FileItem

structure FileSystem where
  root : FileItem := .directory [] 0
  workingNames : List String := []
  /-- The date of the next change. -/
  clock : Int := 2000000000000000000
  deriving Inhabited

/-- Files after some work on them, and the error that ended the work early.  What was done before
the error stays. -/
structure FileAttempt where
  files : FileSystem
  error : Option FileError := none
  deriving Inhabited

namespace FileSystem

def workingDirectory (files : FileSystem) : String := Path.ofNames files.workingNames

def at? (files : FileSystem) (place : List String) : Option FileItem :=
  files.root.get? place

def maxNameBytes : Nat := 255

def maxPathBytes : Nat := 4095

/-- Follows the names of a path from a place.  Every place that is left has to be a directory; the
place that is reached need not exist. -/
def follow (files : FileSystem) : (place : List String) → List Path.Segment →
    Except FileFault (List String)
  | place, [] => .ok place
  | place, segment :: segments =>
    match files.at? place with
    | none => .error .missing
    | some (.file ..) => .error .notDirectory
    | some (.special _) => .error .notDirectory
    | some (.directory ..) =>
      let name := String.ofList segment
      let next :=
        if segment = [] || segment = Path.here then place
        else if segment = Path.up then place.dropLast
        else place ++ [name]
      if maxNameBytes < name.utf8ByteSize then .error .nameTooLong
      else follow files next segments

def locate (files : FileSystem) (path : String) : Except FileFault (List String) :=
  if path.isEmpty then .error .missing
  else if maxPathBytes < path.utf8ByteSize then .error .nameTooLong
  else
    let start := if Path.isAbsolute path then [] else files.workingNames
    files.follow start (Text.fields '/' path.toList)

def item (files : FileSystem) (path : String) : Except FileFault FileItem :=
  match files.locate path with
  | .error fault => .error fault
  | .ok place =>
    match files.at? place with
    | none => .error .missing
    | some item => .ok item

def isDirectory (files : FileSystem) (path : String) : Bool :=
  match files.item path with
  | .ok item => item.isDirectory
  | .error _ => false

def has (files : FileSystem) (path : String) : Bool := (files.item path).isOk

/-- The date in whole milliseconds of a moment in nanoseconds.  The seconds are first added to the
fraction of a second as double precision numbers. -/
def milliseconds (moment : Int) : Int :=
  let seconds := Binary64.ofSigned (moment.fdiv 1000000000) 1
  let fraction :=
    Binary64.mul (.ofSigned 1 1000000000) (.ofSigned (moment.fmod 1000000000) 1)
  (Binary64.mul (.add seconds fraction) (.ofSigned 1000 1)).truncate

/-- When the item at a path was last changed, in milliseconds. -/
def modified? (files : FileSystem) (path : String) : Option Int :=
  match files.item path with
  | .ok item => some (milliseconds item.modified)
  | .error _ => none

/-- Why a file cannot be read as text. -/
inductive ReadFault where
  | file (fault : FileFault)
  | notUtf8 (fault : Utf8.Fault)
  deriving DecidableEq, Repr, Inhabited

/-- The text of a file, with plain line feeds. -/
def readText (files : FileSystem) (path : String) : Except ReadFault String :=
  match files.item path with
  | .error fault => .error (.file fault)
  | .ok (.directory ..) => .error (.file .isDirectory)
  | .ok (.special _) => .error (.file .noDevice)
  | .ok (.file bytes _) =>
    match Utf8.decode bytes with
    | .error fault => .error (.notUtf8 fault)
    | .ok text => .ok (String.ofList (Text.unifyLineBreaks text.toList))

/-- The files after a change at one place.  If an item came to that place or went from it, the
directory around it is dated now. -/
def changed (before : FileSystem) (place : List String) (root : FileItem) : FileSystem :=
  let isKept := (before.at? place).isSome == (root.get? place).isSome
  { before with
    root := if isKept then root else root.redate before.clock place.dropLast
    clock := before.clock + 1000000000 }

def putItem (files : FileSystem) (place : List String) (item : FileItem) : FileSystem :=
  files.changed place (files.root.put place item)

def makeDirectory (files : FileSystem) (path : String) : Except FileFault FileSystem :=
  match files.locate path with
  | .error fault => .error fault
  | .ok place =>
    match files.at? place with
    | some _ => .error .exists
    | none => .ok (files.putItem place (.directory [] files.clock))

/-- Leaves a directory as it is that could not be made, if it is there. -/
def settle (files : FileSystem) (path : String) (fault : FileFault) : FileAttempt :=
  if files.isDirectory path then { files } else { files, error := some ⟨fault, path⟩ }

/-- Makes a directory and, where they are missing, the directories above it.  The names are given
from the last one up. -/
def makeDirectories (root : List Char) (files : FileSystem) : List Path.Segment → FileAttempt
  | [] => files.settle (Path.assemble root []) .missing
  | name :: names =>
    let path := Path.assemble root (name :: names).reverse
    match files.makeDirectory path with
    | .ok files => { files }
    | .error .missing =>
      let above := makeDirectories root files names
      match above.error with
      | some _ => above
      | none =>
        match above.files.makeDirectory path with
        | .ok files => { files }
        | .error fault => above.files.settle path fault
    | .error fault => files.settle path fault

def ensureDirectory (files : FileSystem) (path : String) : FileAttempt :=
  let chars := path.toList
  makeDirectories (Path.root chars) files (Path.names chars).reverse

def ensureParent (files : FileSystem) (path : String) : FileAttempt :=
  let chars := path.toList
  makeDirectories (Path.root chars) files (Path.names chars).reverse.tail

def writeBytes (files : FileSystem) (path : String) (bytes : ByteArray) (modified : Int) :
    Except FileFault FileSystem :=
  match files.locate path with
  | .error fault => .error fault
  | .ok place =>
    match files.at? place with
    | some (.directory ..) => .error .isDirectory
    | some (.special _) => .error .noDevice
    | _ => .ok (files.putItem place (.file bytes modified))

def writeText (files : FileSystem) (path text : String) : FileAttempt :=
  let path := Path.tidy path
  match files.writeBytes path (Utf8.encode text) files.clock with
  | .error fault => { files, error := some ⟨fault, path⟩ }
  | .ok files => { files }

/-- Writes a text to a file and makes the directories on the way. -/
def writeOutput (files : FileSystem) (path text : String) : FileAttempt :=
  let above := files.ensureParent path
  match above.error with
  | some _ => above
  | none => above.files.writeText path text

def touch (files : FileSystem) (path : String) (modified : Int) : FileSystem :=
  match files.locate path with
  | .error _ => files
  | .ok place => { files with root := files.root.redate modified place }

def delete (files : FileSystem) (path : String) : FileSystem :=
  match files.locate path with
  | .error _ => files
  | .ok place => files.changed place (files.root.erase place)

/-- The paths of all files below the working directory, seen from there, in ascending order. -/
def list (files : FileSystem) : List String :=
  match files.at? files.workingNames with
  | some item => Text.sorted (item.filePaths.map fun names => "/".intercalate names)
  | none => []

def empty (workingNames : List String) : FileSystem :=
  let files : FileSystem := { workingNames }
  let directory (items : List (String × FileItem)) : FileItem := .directory items files.clock
  { files with
    root := workingNames.foldr (fun name inner => directory [(name, inner)]) (directory []) }

end FileSystem

end ChunkPlan
