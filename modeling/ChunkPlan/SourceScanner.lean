import ChunkPlan.FileSystem.Sources
import ChunkPlan.SourceCache

/-!
# The source scanner

Turns locators into units.  A unit is looked up in what this run has scanned, then in the cache, and
only then is its file read.
-/

set_option autoImplicit false

namespace ChunkPlan

/-- What a scanner remembers, and the log of the work so far. -/
structure SourceScanner where
  cache : Option SourceCache := none
  scanned : Entries SourceUnit := []
  log : Log := []
  deriving Inhabited

/-- Work that scans: it can fail, and what it has done before is kept. -/
abbrev Scan (α : Type) := ExceptT BuildError (StateM SourceScanner) α

namespace Scan

def note (entry : LogEntry) : Scan Unit := fun scanner =>
  (.ok (), { scanner with log := scanner.log ++ [entry] })

def ofExcept {α : Type} (result : Except BuildError α) : Scan α := fun scanner => (result, scanner)

end Scan

namespace SourceScanner

def note (scanner : SourceScanner) (entry : LogEntry) : SourceScanner :=
  { scanner with log := scanner.log ++ [entry] }

def lookUp (files : FileSystem) (path : String) (scanner : SourceScanner) :
    Option SourceUnit × SourceScanner :=
  match scanner.cache with
  | none => (none, scanner)
  | some cache =>
    let (unit, cache, log) := cache.get files path
    let scanner := { scanner with cache := some cache, log := scanner.log ++ log }
    match unit with
    | some unit => (some unit, scanner.note (.message .debug s!"Cache hit for {path}"))
    | none => (none, scanner)

def keep (scanner : SourceScanner) (path : String) (unit : SourceUnit) : SourceScanner :=
  { scanner with scanned := scanner.scanned.put path unit }

def store (files : FileSystem) (scanner : SourceScanner) (path : String) (unit : SourceUnit) :
    SourceScanner :=
  { scanner with cache := scanner.cache.map fun cache => cache.set files path unit }

def scanFile (files : FileSystem) (path : String) : Scan SourceUnit := fun scanner =>
  match scanner.scanned.find? path with
  | some unit => (.ok unit, scanner)
  | none =>
    match scanner.lookUp files path with
    | (some unit, scanner) => (.ok unit, scanner.keep path unit)
    | (none, scanner) =>
      let scanner := scanner.note (.message .debug s!"Scanning {path}")
      match SourceUnit.ofFile files path with
      | .error error => (.error error, scanner)
      | .ok unit => (.ok unit, (scanner.store files path unit).keep path unit)

/-- The units of some files after those listed already; `seen` holds the paths of the latter. -/
def scanFiles (files : FileSystem) (seen : List String) (units : UnitList) :
    List String → Scan (List String × UnitList)
  | [] => return (seen, units)
  | path :: paths => do
    if seen.contains path then scanFiles files seen units paths
    else
      let unit ← scanFile files path
      scanFiles files (seen ++ [path]) (units ++ [unit]) paths

def scanLocators (files : FileSystem) (options : RunOptions) (seen : List String)
    (units : UnitList) : List String → Scan UnitList
  | [] => return units
  | locator :: locators => do
    let paths ← Scan.ofExcept (files.find locator !options.scanHidden)
    let (seen, units) ← scanFiles files seen units paths
    scanLocators files options seen units locators

/-- The units of some locators, each file once, in the order in which they are met. -/
def scan (files : FileSystem) (options : RunOptions) (locators : List String) : Scan UnitList :=
  scanLocators files options [] [] locators

end SourceScanner

end ChunkPlan
