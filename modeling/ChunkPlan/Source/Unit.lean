import ChunkPlan.Path

/-!
# Source units

A source unit is one scanned file with the namespaces it provides and requires.  The path is its
identity: two units are the same file exactly when their paths are equal, whatever else they say.
-/

set_option autoImplicit false

namespace ChunkPlan

structure SourceUnit where
  path : String
  provides : List String := []
  requires : List String := []
  isModule : Bool := false
  /-- Whether the file is the one that everything else is loaded after. -/
  isBootstrap : Bool := false
  deriving Repr, Inhabited

namespace SourceUnit

/-- The name of the file that can bootstrap a build. -/
def bootstrapFile : String := "base.js"

def bootstrapNamespace : String := "goog"

def bootstraps (path : String) (provides : List String) : Bool :=
  Path.fileName path = bootstrapFile && provides.head? = some bootstrapNamespace

def create (path : String) (provides requires : List String) (isModule : Bool) : SourceUnit :=
  { path, provides, requires, isModule, isBootstrap := bootstraps path provides }

def sameFile (a b : SourceUnit) : Bool := a.path = b.path

def title (unit : SourceUnit) : String := "Source " ++ unit.path

end SourceUnit

/-- Units in load order. -/
abbrev UnitList := List SourceUnit

namespace UnitList

def has (units : UnitList) (unit : SourceUnit) : Bool := units.any (·.sameFile unit)

/-- Lists a unit at the end unless its file is listed already. -/
def add (units : UnitList) (unit : SourceUnit) : UnitList :=
  if units.has unit then units else units ++ [unit]

/-- Lists a unit in front unless its file is listed already. -/
def lead (units : UnitList) (unit : SourceUnit) : UnitList :=
  if units.has unit then units else unit :: units

def addAll (units more : UnitList) : UnitList := more.foldl add units

/-- Strikes the first listing of a file. -/
def remove (units : UnitList) (unit : SourceUnit) : UnitList := units.eraseP (·.sameFile unit)

def removeAll (units gone : UnitList) : UnitList := gone.foldl remove units

def paths (units : UnitList) : List String := units.map (·.path)

end UnitList

end ChunkPlan
