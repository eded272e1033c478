import ChunkPlan.FileSystem.Basic
import ChunkPlan.Json.Parser
import ChunkPlan.Json.Printer
import ChunkPlan.Log
import ChunkPlan.Source.Unit

/-!
# The source cache

Units of earlier runs, each with the date of its file when it was scanned.  A unit counts as long
as its file keeps that date.
-/

set_option autoImplicit false

namespace ChunkPlan

structure CacheEntry where
  unit : SourceUnit
  /-- The recorded date: a number of milliseconds, or whatever the cache file holds; `null` if none
  is recorded. -/
  date : Json := .null
  deriving Inhabited

structure SourceCache where
  file : String
  entries : Entries CacheEntry := []
  deriving Inhabited

namespace SourceCache

/-! ## Entries -/

def has (cache : SourceCache) (path : String) : Bool := cache.entries.has path

def remove (cache : SourceCache) (path : String) : SourceCache :=
  { cache with entries := cache.entries.remove path }

/-- Records the unit of a path with the date of its file.  Without a file the date recorded before
is kept. -/
def set (files : FileSystem) (cache : SourceCache) (path : String) (unit : SourceUnit) :
    SourceCache :=
  let date := match files.modified? path with
    | some date => .integer date
    | none => match cache.entries.find? path with
      | some entry => entry.date
      | none => .null
  { cache with entries := cache.entries.put path ⟨unit, date⟩ }

/-- The unit of a path if its file has kept its date.  A unit whose file has changed is removed. -/
def get (files : FileSystem) (cache : SourceCache) (path : String) :
    Option SourceUnit × SourceCache × Log :=
  match cache.entries.find? path with
  | none => (none, cache, [])
  | some entry =>
    if entry.date.isDate (files.modified? path) then (some entry.unit, cache, [])
    else (none, cache.remove path, [.message .debug s!"Cache entry for {path} is stale"])

/-! ## The cache file -/

def toJson (unit : SourceUnit) (date : Int) : Json :=
  .object [("isModule", .bool unit.isModule), ("modifiedDates", .integer date),
    ("provides", .ofStrings unit.provides), ("requires", .ofStrings unit.requires)]

/-- What a member of the cache file holds. -/
inductive Stored where
  | entry (entry : CacheEntry)
  | malformed
  | foreign

/-- Reads a member of the cache file.  The bootstrap flag is not stored; it follows from the path
and the provides. -/
def ofJson (path : String) : Json → Stored
  | .object members =>
    match Entries.find? members "provides", Entries.find? members "requires",
        Entries.find? members "modifiedDates" with
    | some provides, some requires, some date =>
      match provides.strings?, requires.strings? with
      | some provides, some requires =>
        let isModule := !(Json.member members "isModule").isEmpty
        .entry ⟨.create path provides requires isModule, date⟩
      | _, _ => .malformed
    | _, _, _ => .foreign
  | _ => .foreign

def readMembers (entries : Entries CacheEntry) : List (String × Json) → Entries CacheEntry × Log
  | [] => (entries, [])
  | (path, value) :: members =>
    match ofJson path value with
    | .entry entry => readMembers (entries.put path entry) members
    | .malformed =>
      let (entries, log) := readMembers entries members
      (entries, .message .debug s!"Skipping malformed cache entry for {path}" :: log)
    | .foreign => readMembers entries members

/-- Reads the cache file at a path.  A missing or unreadable one is an empty cache. -/
def load (files : FileSystem) (path : String) : SourceCache × Log :=
  let file := Path.tidy path
  let empty : SourceCache := { file }
  if !files.has file then (empty, [])
  else
    match (files.readText file).toOption.bind Json.parse? with
    | none => (empty, [.message .warning s!"Ignoring unreadable cache file {file}"])
    | some (.object members) =>
      let (entries, log) := readMembers [] members
      let loaded := s!"Loaded {entries.length} cached source(s) from {file}"
      ({ file, entries }, log ++ [.message .debug loaded])
    | some _ => (empty, [.message .warning s!"Ignoring cache file {file}: not a JSON object"])

/-- The members to save: those whose file is still there, with its date of now. -/
def members (files : FileSystem) (cache : SourceCache) : List (String × Json) :=
  cache.entries.filterMap fun (path, entry) =>
    (files.modified? path).map fun date => (path, toJson entry.unit date)

/-- Saves a cache to its file.  A failure is only a warning. -/
def save (files : FileSystem) (cache : SourceCache) : FileSystem × Log :=
  let members := cache.members files
  let attempt := files.writeOutput cache.file (Json.render (.object members))
  match attempt.error with
  | none =>
    let report := s!"Saved {members.length} source(s) to cache {cache.file}"
    (attempt.files, [.message .debug report])
  | some error =>
    let report := s!"Cannot save cache file {cache.file}: {error.message}"
    (attempt.files, [.message .warning report])

def saveIfAny (files : FileSystem) : Option SourceCache → FileSystem × Log
  | none => (files, [])
  | some cache => cache.save files

end SourceCache

end ChunkPlan
