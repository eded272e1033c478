import ChunkPlan.Proofs.StoppedSearches
import Mathlib.Data.List.Chain

/-!
# What a search leaves in its lists

A search may start from lists that no other search has made: with units whose requirements are not
listed, and with namespaces on the trail that nothing provides.  However it ends, it has only appended
units, each one new and behind what it requires.  That a unit is not listed a second time on the way to
itself needs no order of the list: whatever a search lists requires neither the namespace searched for
nor one on the trail, or the search would have closed a cycle.
-/

set_option autoImplicit false

namespace ChunkPlan.Catalog

open UnitList

variable {catalog : Catalog} {pool listed added more : UnitList} {unit : SourceUnit}
  {search left : Search} {task : Search.Task} {ending : Option BuildError} {name missing : String}
  {trail rest : List String} {requiredBy asker : Option SourceUnit} {error : BuildError}

/-- Units of a pool behind a list: no file of them is in the list or comes twice, and each one is
behind providers of all that it requires. -/
structure Appended (pool listed added : UnitList) : Prop where
  within : ∀ unit ∈ added, unit ∈ pool
  fresh : ∀ unit ∈ added, listed.has unit = false
  distinct : added.Distinct
  arranged : Arranged pool (fun _ => False) (fun unit => listed.has unit = true) added

namespace Appended

theorem nil : Appended pool listed [] := ⟨by simp, by simp, distinct_nil, arranged_nil⟩

theorem has_append_iff (distinct : pool.Distinct) (first : Appended pool listed added)
    (member : unit ∈ pool) :
    UnitList.has (listed ++ added) unit = true ↔ listed.has unit = true ∨ unit ∈ added := by
  rw [has_append, Bool.or_eq_true]
  exact or_congr_right ⟨distinct.mem_of_has first.within member, has_of_mem⟩

theorem append (distinct : pool.Distinct) (first : Appended pool listed added)
    (second : Appended pool (listed ++ added) more) : Appended pool listed (added ++ more) := by
  have apart : ∀ unit ∈ more, listed.has unit = false ∧ added.has unit = false := fun unit member => by
    simpa using second.fresh unit member
  refine ⟨?_, ?_, first.distinct.append second.distinct fun unit member => (apart unit member).2,
    first.arranged.append ?_⟩
  · exact fun unit member => (List.mem_append.mp member).elim (first.within unit) (second.within unit)
  · exact fun unit member => (List.mem_append.mp member).elim (first.fresh unit)
      fun new => (apart unit new).1
  · intro before unit after split required name member
    obtain ⟨provider, provides, available⟩ := second.arranged before unit after split required name member
    exact ⟨provider, provides, available.imp_left (first.has_append_iff distinct provides.1).mp⟩

/-- A new unit can follow where everything that it requires is listed. -/
theorem concat (distinct : pool.Distinct) (first : Appended pool listed added) (member : unit ∈ pool)
    (fresh : UnitList.has (listed ++ added) unit = false)
    (met : ∀ name ∈ unit.requires, ∃ provider, Provider pool name provider ∧
      UnitList.has (listed ++ added) provider = true) :
    Appended pool listed (added ++ [unit]) := by
  refine first.append distinct ⟨by simpa using member, by simpa using fresh, ?_, ?_⟩
  · exact distinct_append_singleton.mpr ⟨rfl, distinct_nil⟩
  · refine arranged_concat.mpr ⟨arranged_nil, fun _ name required => ?_⟩
    obtain ⟨provider, provides, available⟩ := met name required
    exact ⟨provider, provides, .inl available⟩

end Appended

namespace Search

/-- The namespaces that a task searches for. -/
def Task.names : Task → List String
  | .one _ name => [name]
  | .all names => names

namespace Runs

private theorem prefix_found (run : Runs catalog task search ending left) :
    search.found <+: left.found := by
  induction run with
  | unknown => exact List.prefix_rfl
  | cycle => exact List.prefix_rfl
  | listed => exact List.prefix_rfl
  | failed _ _ _ _ ih => exact ih
  | met _ _ _ _ ih => exact ih.trans (List.prefix_append _ _)
  | done => exact List.prefix_rfl
  | stopped _ ih => exact ih
  | next _ _ ih rest => exact ih.trans rest

/-- A search that succeeds has met no namespace of the trail. -/
theorem not_mem_trail (run : Runs catalog task search ending left) (ended : ending = none) :
    ∀ name ∈ task.names, name ∉ search.trail := by
  induction run with
  | unknown => cases ended
  | cycle => cases ended
  | listed _ fresh _ => exact List.forall_mem_singleton.mpr fresh
  | failed => cases ended
  | met _ fresh _ _ _ => exact List.forall_mem_singleton.mpr fresh
  | done => simp [Task.names]
  | stopped => cases ended
  | next first _ ih rest =>
    refine List.forall_mem_cons.mpr ⟨ih rfl _ List.mem_cons_self, ?_⟩
    rw [← first.trail_eq]
    exact rest ended

/-- A search that succeeds has listed the providers of all that it searched for. -/
theorem provider_listed (run : Runs catalog task search ending left) (ended : ending = none) :
    ∀ name ∈ task.names, ∃ unit, catalog.provider? name = some unit ∧ left.found.has unit = true := by
  induction run with
  | unknown => cases ended
  | cycle => cases ended
  | listed provided _ listed => exact List.forall_mem_singleton.mpr ⟨_, provided, listed⟩
  | failed => cases ended
  | met provided _ _ _ _ =>
    exact List.forall_mem_singleton.mpr ⟨_, provided, has_of_mem (by simp [list, pop])⟩
  | done => simp [Task.names]
  | stopped => cases ended
  | next _ others ih rest =>
    refine List.forall_mem_cons.mpr ⟨?_, rest ended⟩
    obtain ⟨unit, provided, listed⟩ := ih rfl _ List.mem_cons_self
    obtain ⟨added, grown⟩ := others.prefix_found
    exact ⟨unit, provided, by rw [← grown, has_append, listed]; rfl⟩

/-- What a search that succeeds has listed does not require all that was searched for, and it requires
nothing on the trail. -/
theorem not_requires (run : Runs catalog task search ending left) (ended : ending = none) :
    ∀ unit ∈ left.found, unit ∈ search.found ∨
      (∃ name ∈ task.names, name ∉ unit.requires) ∧ ∀ passed ∈ search.trail, passed ∉ unit.requires := by
  induction run with
  | unknown => cases ended
  | cycle => cases ended
  | listed => exact fun unit member => .inl member
  | failed => cases ended
  | @met requiredBy name search left unit provided fresh absent below ih =>
    have avoids : ∀ other ∈ left.found, other ∈ search.found ∨
        ∀ passed ∈ search.trail ++ [name], passed ∉ other.requires := by
      intro other member
      exact (ih rfl other member).imp_right fun new => new.2
    have here : ∀ passed ∈ search.trail ++ [name], passed ∉ unit.requires := by
      intro passed onTrail required
      exact below.not_mem_trail rfl passed required onTrail
    intro other member
    rcases List.mem_append.mp member with member | last
    · refine (avoids other member).imp_right fun new => ⟨⟨name, List.mem_singleton_self name, ?_⟩, ?_⟩
      · exact new name (by simp)
      · exact fun passed onTrail => new passed (List.mem_append_left _ onTrail)
    · obtain rfl := List.mem_singleton.mp last
      refine .inr ⟨⟨name, List.mem_singleton_self name, here name (by simp)⟩, ?_⟩
      exact fun passed onTrail => here passed (List.mem_append_left _ onTrail)
  | done => exact fun unit member => .inl member
  | stopped => cases ended
  | next first _ ih rest =>
    intro unit member
    rcases rest ended unit member with earlier | ⟨⟨name, among, free⟩, clear⟩
    · refine (ih rfl unit earlier).imp_right fun new => ?_
      obtain ⟨⟨name, among, free⟩, clear⟩ := new
      obtain rfl := List.mem_singleton.mp among
      exact ⟨⟨name, List.mem_cons_self, free⟩, clear⟩
    · rw [first.trail_eq] at clear
      exact .inr ⟨⟨name, List.mem_cons_of_mem _ among, free⟩, clear⟩

/-- However a search ends, what it has listed is appended in order. -/
theorem appended (describes : catalog.Describes pool) (run : Runs catalog task search ending left) :
    ∃ added, left.found = search.found ++ added ∧ Appended pool search.found added := by
  induction run with
  | unknown => exact ⟨[], (List.append_nil _).symm, .nil⟩
  | cycle => exact ⟨[], (List.append_nil _).symm, .nil⟩
  | listed => exact ⟨[], (List.append_nil _).symm, .nil⟩
  | failed _ _ _ _ ih => exact ih
  | @met requiredBy name search left unit provided fresh absent below ih =>
    obtain ⟨added, grown, appended⟩ := ih
    have provides := (describes.provider name unit).mp provided
    have unlisted : left.found.has unit = false := by
      by_contra listed
      rw [grown, Bool.not_eq_false, appended.has_append_iff describes.distinct provides.1] at listed
      have new := listed.resolve_left (by simp [push, absent])
      have member : unit ∈ left.found := grown ▸ List.mem_append_right _ new
      -- A unit listed below itself would not require all that it requires.
      rcases below.not_requires rfl unit member with old | ⟨⟨other, required, free⟩, _⟩
      · exact Bool.false_ne_true (absent ▸ has_of_mem old)
      · exact free required
    refine ⟨added ++ [unit], by simp [list, pop, grown, push], ?_⟩
    refine appended.concat describes.distinct provides.1 (grown ▸ unlisted) fun required member => ?_
    obtain ⟨provider, available, listed⟩ := below.provider_listed rfl required member
    exact ⟨provider, (describes.provider required provider).mp available, grown ▸ listed⟩
  | done => exact ⟨[], (List.append_nil _).symm, .nil⟩
  | stopped _ ih => exact ih
  | next _ _ ih rest =>
    obtain ⟨first, grown, appended⟩ := ih
    obtain ⟨second, grownAgain, appendedAgain⟩ := rest
    rw [grown] at grownAgain appendedAgain
    exact ⟨first ++ second, by rw [grownAgain, List.append_assoc],
      appended.append describes.distinct appendedAgain⟩

end Runs

end Search

/-- Where a namespace is unknown, the trail is left as it was when that was met, without the last
namespace.  Until then the search has gone from the namespace searched for along requires. -/
theorem Stops.way (describes : catalog.Describes pool)
    (stops : catalog.Stops requiredBy trail name error rest)
    (unknown : error = .unknownNamespace missing asker) :
    ∃ way, rest = (trail ++ way).dropLast ∧ (way ++ [missing]).head? = some name ∧
      (way ++ [missing]).IsChain (Follows pool) := by
  induction stops with
  | unknown _ =>
    cases unknown
    exact ⟨[], by rw [List.append_nil], rfl, .singleton _⟩
  | cycle => cases unknown
  | @deeper requiredBy trail rest name required unit error provided _ member _ ih =>
    obtain ⟨way, left, begins, linked⟩ := ih unknown
    have follows : Follows pool name required :=
      ⟨unit, (describes.provider name unit).mp provided, member⟩
    refine ⟨name :: way, by rw [left, List.append_assoc]; rfl, rfl, linked.cons fun next first => ?_⟩
    rw [begins] at first
    cases first
    exact follows

/-- What a search leaves on the trail: what was there, if it succeeds; the path of a cycle; or, where
nothing provides a namespace, the way to the one that requires it, without the last namespace. -/
def Leaves (pool : UnitList) (search : Search) (name : String) (left : Search) :
    Option BuildError → Prop
  | none => left.trail = search.trail ∧ ∃ unit, Provider pool name unit ∧ left.found.has unit = true
  | some (.circularDependency path) =>
    left.trail = path ∧ ∃ way, path = search.trail ++ name :: way ∧
      (name :: way).IsChain (Follows pool) ∧ ∃ last ∈ path.getLast?, last ∈ path.dropLast
  | some (.unknownNamespace missing _) =>
    (∀ unit, ¬Provider pool missing unit) ∧ ∃ way, left.trail = (search.trail ++ way).dropLast ∧
      (way ++ [missing]).head? = some name ∧ (way ++ [missing]).IsChain (Follows pool) ∧
      ((∀ unit, ¬Provider pool name unit) → way = [])
  | some _ => False

private theorem Stops.leaves (describes : catalog.Describes pool)
    (stops : catalog.Stops requiredBy search.trail name error left.trail) :
    Leaves pool search name left (some error) := by
  rcases stops.kind with ⟨path, rfl⟩ | ⟨missing, asker, rfl⟩
  · obtain ⟨way, whole, rest, linked, _, back⟩ := stops.cyclic describes rfl
    exact ⟨rest, way, whole, linked, back⟩
  · obtain ⟨absent, _⟩ := stops.lacking describes rfl
    obtain ⟨way, rest, begins, linked⟩ := stops.way describes rfl
    refine ⟨absent, way, rest, begins, linked, fun unprovided => ?_⟩
    cases way with
    | nil => rfl
    | cons first way =>
      cases begins
      obtain ⟨next, behind⟩ : ∃ next, next ∈ (way ++ [missing]).head? := by cases way <;> simp
      obtain ⟨unit, provides, _⟩ := linked.rel_head? behind
      exact absurd provides (unprovided unit)

/-- Whatever the two lists hold at the start and however the search ends, units are appended that are
new, come once and follow what they require, and the trail is left as the end tells. -/
theorem resolveInto_leaves (distinct : pool.Distinct) (built : ofUnits pool = .ok catalog)
    (requiredBy : Option SourceUnit) (search : Search) (name : String) (ending : Option BuildError)
    (left : Search) (ended : catalog.resolveInto requiredBy search name = (ending, left)) :
    (∃ added, left.found = search.found ++ added ∧ Appended pool search.found added) ∧
      Leaves pool search name left ending := by
  have describes := describes_of_ofUnits distinct built
  have run := runs_iff_resolveInto.mpr ended
  refine ⟨run.appended describes, ?_⟩
  cases ending with
  | none =>
    obtain ⟨unit, provided, listed⟩ := run.provider_listed rfl name (List.mem_singleton_self name)
    exact ⟨run.trail_eq, unit, (describes.provider name unit).mp provided, listed⟩
  | some error => exact (run.stops rfl).leaves describes

/-- A kit with two namespaces, an application over it, and a file over both that lacks something. -/
def gapPool : UnitList :=
  [.create "/kit.js" ["kit.a", "kit.b"] [] false, .create "/app.js" ["app"] ["kit.b", "kit.a"] false,
    .create "/gap.js" ["gap"] ["app", "kit.c"] false]

def gapCatalog : Catalog where
  providers := gapPool.flatMap fun unit => unit.provides.map fun name => (name, unit)

/-- Three ways to end, from lists that no search leaves: the application listed without the kit, and
a namespace of the kit on the trail. -/
theorem resolveInto_leaves_gapPool :
    gapPool.Distinct ∧ ofUnits gapPool = .ok gapCatalog ∧
      (gapCatalog.resolveInto none ⟨gapPool.drop 2, ["far", "far"]⟩ "app" =
          (none, ⟨gapPool.drop 2 ++ gapPool.take 2, ["far", "far"]⟩) ∧
        Leaves gapPool ⟨gapPool.drop 2, ["far", "far"]⟩ "app"
          ⟨gapPool.drop 2 ++ gapPool.take 2, ["far", "far"]⟩ none) ∧
      (gapCatalog.resolveInto none ⟨[], ["kit.a"]⟩ "gap" =
          (some (.circularDependency ["kit.a", "gap", "app", "kit.a"]),
            ⟨gapPool.take 1, ["kit.a", "gap", "app", "kit.a"]⟩) ∧
        ∃ added, gapPool.take 1 = [] ++ added ∧ Appended gapPool [] added) ∧
      gapCatalog.resolveInto none ⟨(gapPool.drop 1).take 1, []⟩ "gap" =
          (some (.unknownNamespace "kit.c" gapPool.getLast?), ⟨(gapPool.drop 1).take 1, []⟩) ∧
        Leaves gapPool ⟨(gapPool.drop 1).take 1, []⟩ "gap" ⟨(gapPool.drop 1).take 1, []⟩
          (some (.unknownNamespace "kit.c" gapPool.getLast?)) := by
  have distinct : gapPool.Distinct := by decide
  have built : ofUnits gapPool = .ok gapCatalog := rfl
  have met : gapCatalog.resolveInto none ⟨gapPool.drop 2, ["far", "far"]⟩ "app" =
      (none, ⟨gapPool.drop 2 ++ gapPool.take 2, ["far", "far"]⟩) := by cbv
  have closed : gapCatalog.resolveInto none ⟨[], ["kit.a"]⟩ "gap" =
      (some (.circularDependency ["kit.a", "gap", "app", "kit.a"]),
        ⟨gapPool.take 1, ["kit.a", "gap", "app", "kit.a"]⟩) := by cbv
  have lacking : gapCatalog.resolveInto none ⟨(gapPool.drop 1).take 1, []⟩ "gap" =
      (some (.unknownNamespace "kit.c" gapPool.getLast?), ⟨(gapPool.drop 1).take 1, []⟩) := by cbv
  exact ⟨distinct, built, ⟨met, (resolveInto_leaves distinct built _ _ _ _ _ met).2⟩,
    ⟨closed, (resolveInto_leaves distinct built _ _ _ _ _ closed).1⟩, lacking,
    (resolveInto_leaves distinct built _ _ _ _ _ lacking).2⟩

end ChunkPlan.Catalog
