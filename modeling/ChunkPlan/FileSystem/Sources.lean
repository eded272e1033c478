import ChunkPlan.BuildError
import ChunkPlan.FileSystem.Basic
import ChunkPlan.Source.Declaration

/-!
# Source files

Which files a locator stands for, and what is read from a source file.
-/

set_option autoImplicit false

namespace ChunkPlan

/-- Whether a name is hidden: it begins with a dot. -/
def isHiddenName (name : String) : Bool := name.toList.head? = some '.'

def isScriptName (name : String) : Bool := ".js".toList.isSuffixOf name.toList

namespace FileItem

/-- Whether the system lists the directory at a place: it opens no path that is too long. -/
def isListable (place : List String) : Bool :=
  (Path.ofNames place).utf8ByteSize ≤ FileSystem.maxPathBytes

/-- The names of scripts in a directory: of all items but directories. -/
def scriptNames (keep : String → Bool) : List (String × FileItem) → List String
  | [] => []
  | (name, item) :: items =>
    if keep name && isScriptName name && !item.isDirectory then name :: scriptNames keep items
    else scriptNames keep items

def namedPrecedes (a b : String × List (List String)) : Bool := Text.precedes a.1 b.1

mutual

/-- The scripts below the item at a place, each as the names that lead to it: of a directory first
its own in ascending order, then directory by directory in ascending order.  Names that `keep`
rejects are left out, and directories that cannot be listed are passed over. -/
def scripts (keep : String → Bool) (place : List String) : FileItem → List (List String)
  | .file .. => []
  | .special _ => []
  | .directory items _ =>
    if isListable place then
      (Text.sorted (scriptNames keep items)).map ([·])
        ++ ((innerScripts keep place items).mergeSort namedPrecedes).flatMap fun (name, paths) =>
          paths.map (name :: ·)
    else []

def innerScripts (keep : String → Bool) (place : List String) : List (String × FileItem) →
    List (String × List (List String))
  | [] => []
  | (name, item) :: items =>
    if keep name then (name, scripts keep (place ++ [name]) item) :: innerScripts keep place items
    else innerScripts keep place items

end

end FileItem

namespace FileSystem

/-- The path that a locator stands for, without links and steps up. -/
def resolve (files : FileSystem) (locator : String) : String :=
  Path.ofNames (Path.locate files.workingDirectory locator)

/-- The scripts at a place: of a file the file itself, whatever its name, and of a directory all
below it. -/
def scriptsAt (place : List String) (ignoreHidden : Bool) :
    Except FileFault FileItem → Except BuildError (List String)
  | .ok (.file ..) => .ok [Path.ofNames place]
  | .ok (.directory items modified) =>
    let keep (name : String) : Bool := !(ignoreHidden && isHiddenName name)
    let found := FileItem.scripts keep place (.directory items modified)
    .ok (found.map fun names => Path.ofNames (place ++ names))
  | .error .nameTooLong => .error (.source (.unreadable .nameTooLong) (some (Path.ofNames place)) {})
  | _ => .error (.source .notFound (some (Path.ofNames place)) {})

/-- The scripts that a locator stands for. -/
def find (files : FileSystem) (locator : String) (ignoreHidden : Bool) :
    Except BuildError (List String) :=
  let place := Path.locate files.workingDirectory locator
  scriptsAt place ignoreHidden (files.item (Path.ofNames place))

/-- Reads a source file; its path is given resolved. -/
def readSource (files : FileSystem) (path : String) : Except BuildError (String × String) :=
  let path := files.resolve path
  match files.readText path with
  | .ok text => .ok (path, text)
  | .error (.file fault) => .error (.source (.unreadable fault) (some path) {})
  | .error (.notUtf8 fault) => .error (.source (.notUtf8 fault) (some path) {})

end FileSystem

namespace Script

/-- Reads the script of a path, for an error message about it. -/
def readAs (path text : String) : Except BuildError Script :=
  match Script.read text with
  | .ok script => .ok script
  | .error failure => .error (.ofFailure path failure)

end Script

namespace SourceUnit

def ofText (path text : String) : Except BuildError SourceUnit :=
  (Script.readAs path text).map (Script.toUnit path)

def ofFile (files : FileSystem) (path : String) : Except BuildError SourceUnit :=
  match files.readSource path with
  | .error error => .error error
  | .ok (path, text) => ofText path text

end SourceUnit

end ChunkPlan
