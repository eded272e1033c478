import ChunkPlan.RequireCheck.DocType
import ChunkPlan.RequireCheck.Identifier
import ChunkPlan.SourceScanner

/-!
# Checking requires

A file should require exactly the namespaces that it uses and does not provide itself.  Namespaces
are those that the checked files and the extern files provide.
-/

set_option autoImplicit false

namespace ChunkPlan

/-- A source file with the parts of its syntax that are checked. -/
structure CheckedSource where
  unit : SourceUnit
  script : Script
  deriving Inhabited

namespace CheckedSource

def ofText (path text : String) : Except BuildError CheckedSource :=
  (Script.readAs path text).map fun script => ⟨script.toUnit path, script⟩

def ofFile (files : FileSystem) (path : String) : Except BuildError CheckedSource :=
  match files.readSource path with
  | .error error => .error error
  | .ok (path, text) => ofText path text

/-- The namespaces that some sources provide, without excluded ones, in descending order.  So a
longer name comes before the names that it begins with. -/
def knownProvides (sources : List CheckedSource) (excluded : List String) : List String :=
  let provides := (sources.flatMap (·.unit.provides)).eraseDups
  (Text.sorted (provides.filter (!excluded.contains ·))).reverse

def usedInCode (source : CheckedSource) (provides : List String) : List String :=
  (IdentifierChain.used source.script.tokens).filterMap fun name =>
    IdentifierChain.namespace? name provides

def usedInDocs (source : CheckedSource) (provides : List String) : List String :=
  ((source.script.comments.filter DocType.isDocumentation).flatMap
    (DocType.ofBody ·.text)).filterMap fun expression => DocType.namespace? expression provides

/-- The namespaces that the code of a source uses without providing or requiring them. -/
def missing (source : CheckedSource) (provides : List String) : List String :=
  let declared := source.unit.provides ++ source.unit.requires
  Text.sorted ((source.usedInCode provides).eraseDups.filter (!declared.contains ·))

/-- The namespaces that a source requires and uses neither in code nor in documentation. -/
def unnecessary (source : CheckedSource) (provides : List String) : List String :=
  let used := source.usedInCode provides ++ source.usedInDocs provides
  Text.sorted (source.unit.requires.filter (!used.contains ·))

end CheckedSource

/-- What is wrong with the requires of some files, by path. -/
structure RequireReport where
  missing : Entries (List String) := []
  unnecessary : Entries (List String) := []
  deriving DecidableEq, Repr, Inhabited

namespace RequireReport

def ok (report : RequireReport) : Bool := report.missing.isEmpty && report.unnecessary.isEmpty

def add (provides : List String) (report : RequireReport) (source : CheckedSource) :
    RequireReport :=
  let path := source.unit.path
  let missing := source.missing provides
  let unnecessary := source.unnecessary provides
  { missing := if missing.isEmpty then report.missing else report.missing.put path missing
    unnecessary :=
      if unnecessary.isEmpty then report.unnecessary
      else report.unnecessary.put path unnecessary }

def ofSources (sources : List CheckedSource) (provides : List String) : RequireReport :=
  sources.foldl (add provides) {}

def precedes (a b : String × List String) : Bool := Text.precedes a.1 b.1

def lines (found : Entries (List String)) : List String :=
  (found.mergeSort precedes).flatMap fun (path, names) => path :: names.map ("\t" ++ ·)

def format (report : RequireReport) : String :=
  "\n".intercalate <|
    s!"Missing requires: {report.missing.length}" :: lines report.missing
      ++ (if report.missing.isEmpty then [] else [""])
      ++ s!"Unnecessary requires: {report.unnecessary.length}" :: lines report.unnecessary

end RequireReport

structure RequireCheck where
  locators : List String
  externs : List String := []
  excluded : List String := []
  deriving Inhabited

namespace RequireCheck

/-- Reads the files of some paths after those read already; `seen` holds the paths of the
latter. -/
def readFiles (files : FileSystem) (seen : List String) (sources : List CheckedSource) :
    List String → Except BuildError (List String × List CheckedSource)
  | [] => .ok (seen, sources)
  | path :: paths =>
    if seen.contains path then readFiles files seen sources paths
    else
      match CheckedSource.ofFile files path with
      | .error error => .error error
      | .ok source => readFiles files (seen ++ [path]) (sources ++ [source]) paths

def readLocators (files : FileSystem) (options : RunOptions) (seen : List String)
    (sources : List CheckedSource) : List String → Except BuildError (List CheckedSource)
  | [] => .ok sources
  | locator :: locators =>
    match files.find locator !options.scanHidden with
    | .error error => .error error
    | .ok paths =>
      match readFiles files seen sources paths with
      | .error error => .error error
      | .ok (seen, sources) => readLocators files options seen sources locators

/-- Checks files; the log tells how long it took. -/
def run (files : FileSystem) (options : RunOptions) (check : RequireCheck) :
    Except BuildError RequireReport × Log :=
  match readLocators files options [] [] check.locators,
      readLocators files options [] [] check.externs with
  | .error error, _ => (.error error, [])
  | .ok _, .error error => (.error error, [])
  | .ok sources, .ok externs =>
    let provides := CheckedSource.knownProvides (sources ++ externs) check.excluded
    (.ok (RequireReport.ofSources sources provides),
      [.elapsed "Search sources by JS files", .elapsed "Wrong requires found.",
        .elapsed "Total time. Requires checked."])

end RequireCheck

end ChunkPlan
