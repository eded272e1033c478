import ChunkPlan.BuildError
import ChunkPlan.Entries
import ChunkPlan.Text.Order

/-!
# Catalogs

A catalog tells which unit provides a namespace.  No namespace may be provided by two different
files.
-/

set_option autoImplicit false

namespace ChunkPlan

structure Catalog where
  /-- For each provided namespace the unit that provides it. -/
  providers : Entries SourceUnit
  deriving Inhabited

namespace Catalog

/-- Records that a unit provides a namespace, if no other file does. -/
def record (providers : Entries SourceUnit) (unit : SourceUnit) (name : String) :
    Except BuildError (Entries SourceUnit) :=
  match providers.find? name with
  | some known =>
    if known.sameFile unit then .ok (providers.put name unit)
    else .error (.duplicateProvide name known unit)
  | none => .ok (providers.put name unit)

def recordUnit (providers : Entries SourceUnit) (unit : SourceUnit) :
    Except BuildError (Entries SourceUnit) :=
  unit.provides.foldlM (fun providers name => record providers unit name) providers

/-- The catalog of some units.  Of a unit that is given twice, the later one counts. -/
def ofUnits (units : UnitList) : Except BuildError Catalog :=
  (units.foldlM recordUnit []).map Catalog.mk

def provider? (catalog : Catalog) (name : String) : Option SourceUnit := catalog.providers.find? name

def provides (catalog : Catalog) (name : String) : Bool := catalog.providers.has name

def namespaces (catalog : Catalog) : List String := Text.sorted catalog.providers.keys

end Catalog

end ChunkPlan
