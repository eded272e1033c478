import ChunkPlan.SourceScanner

/-!
# Dependency files

A dependency file tells an uncompiled page, for each source, which namespaces it provides and
requires.  Each source is listed under a path of its own.
-/

set_option autoImplicit false

namespace ChunkPlan

namespace DepsFile

def header : String :=
  "// This file was autogenerated by closurebuild.\n// Please do not edit.\n"

def quotedNames (names : List String) : String :=
  ", ".intercalate ((Text.sorted names).map fun name => s!"'{name}'")

def line (path : String) (unit : SourceUnit) : String :=
  s!"goog.addDependency('{Path.withSlashes path}', [{quotedNames unit.provides}], "
    ++ s!"[{quotedNames unit.requires}], " ++ (if unit.isModule then "true" else "false") ++ ");\n"

def precedes (a b : String × SourceUnit) : Bool := Text.precedes a.1 b.1

/-- The lines of all sources in order of their paths.  A source that provides nothing is left
out. -/
def body (sources : Entries SourceUnit) : String :=
  String.join <| ((sources.mergeSort precedes).filter (!·.2.provides.isEmpty)).map
    fun (path, unit) => line path unit

end DepsFile

/-- Which sources are listed, and under which paths. -/
inductive DepsEntry where
  /-- Every source of some locators, under its path relative to a directory. -/
  | files (locators : List String) (baseDirectory : String) (lead : String)
  | file (locator : String) (path : String)
  deriving DecidableEq, Repr, Inhabited

namespace DepsEntry

def locators : DepsEntry → List String
  | .files locators .. => locators
  | .file locator _ => [locator]

def listedPath (workingDirectory : String) (entry : DepsEntry) (unit : SourceUnit) : String :=
  let relative (base lead : String) : String :=
    let base := if base.isEmpty then workingDirectory else Path.absolute workingDirectory base
    lead ++ Path.withSlashes (Path.relative workingDirectory unit.path base)
  match entry with
  | .files _ base lead => relative base lead
  | .file _ path => if path.isEmpty then relative "" "" else path

def collect (files : FileSystem) (options : RunOptions) (sources : Entries SourceUnit) :
    List DepsEntry → Scan (Entries SourceUnit)
  | [] => return sources
  | entry :: entries => do
    let units ← SourceScanner.scan files options entry.locators
    let listed := units.map fun unit => (entry.listedPath files.workingDirectory unit, unit)
    collect files options (sources.putAll listed) entries

end DepsEntry

namespace DepsFile

def generate (files : FileSystem) (options : RunOptions) (entries : List DepsEntry) :
    Scan String := do
  let sources ← DepsEntry.collect files options [] entries
  Scan.note (.message .debug s!"Writing deps for {sources.length} source(s)")
  return header ++ body sources

end DepsFile

end ChunkPlan
