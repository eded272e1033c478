import ChunkPlan.Proofs.Clashes
import ChunkPlan.Proofs.Planning

/-!
# Pools with more units

A plan that succeeds looks up the namespaces that its modules lead to and the bootstrap unit, nothing
else.  So further units in the pool, and another order of its units, leave the plan as it is, as long
as every namespace keeps its one provider and the bootstrap unit stays the only one.
-/

set_option autoImplicit false

namespace ChunkPlan

open UnitList

/-! ## Catalogs -/

namespace Catalog

variable {catalog larger : Catalog} {pool wider units found after listed inputs : UnitList}
  {unit input : SourceUnit} {name : String}
  {names trail : List String} {requiredBy : Option SourceUnit}

/-- Whether a catalog knows every provider that another one knows. -/
def Widens (larger catalog : Catalog) : Prop :=
  ∀ name unit, catalog.provider? name = some unit → larger.provider? name = some unit

/-- A search that succeeds looks up nothing but providers that it finds. -/
theorem visit_widens (widens : larger.Widens catalog)
    (ok : catalog.visit requiredBy trail found name = .ok after) :
    larger.visit requiredBy trail found name = .ok after := by
  revert after
  refine visit.induct catalog
    (fun requiredBy trail found name => ∀ {after},
      catalog.visit requiredBy trail found name = .ok after →
      larger.visit requiredBy trail found name = .ok after)
    (fun trail found names => ∀ {after}, catalog.visitAll trail found names = .ok after →
      larger.visitAll trail found names = .ok after)
    ?unknown ?cycle ?listed ?stopped ?appended ?nil ?failed ?cons requiredBy trail found name
  case unknown =>
    intro requiredBy trail found name unknown after ok
    rw [visit_unknown unknown] at ok
    cases ok
  case cycle =>
    intro requiredBy trail found name unit provided cycle after ok
    rw [visit_provided provided, if_pos cycle] at ok
    cases ok
  case listed =>
    intro requiredBy trail found name unit provided fresh known after ok
    rw [visit_provided provided, if_neg fresh, if_pos known] at ok
    rw [visit_provided (widens name unit provided), if_neg fresh, if_pos known, ok]
  case stopped =>
    intro requiredBy trail found name unit provided fresh absent stop stopped _ after ok
    rw [visit_provided provided, if_neg fresh, if_neg absent, stopped] at ok
    cases ok
  case appended =>
    intro requiredBy trail found name unit provided fresh absent middle visited ih after ok
    rw [visit_provided provided, if_neg fresh, if_neg absent, visited] at ok
    rw [visit_provided (widens name unit provided), if_neg fresh, if_neg absent, ih visited, ok]
  case nil =>
    intro trail found after ok
    rw [visitAll_nil] at ok
    rw [visitAll_nil, ok]
  case failed =>
    intro trail found name names stop stopped _ after ok
    rw [visitAll_cons, stopped] at ok
    cases ok
  case cons =>
    intro trail found name names middle visited first rest after ok
    rw [visitAll_cons, visited] at ok
    rw [visitAll_cons, first visited]
    exact rest ok

private theorem resolve_widens (widens : larger.Widens catalog)
    (ok : catalog.resolve name requiredBy = .ok found) :
    larger.resolve name requiredBy = .ok found :=
  resolve_eq_ok.mpr (visit_widens widens (resolve_eq_ok.mp ok))

private theorem resolveAll_widens (widens : larger.Widens catalog)
    (ok : catalog.resolveAll input listed names = .ok after) :
    larger.resolveAll input listed names = .ok after := by
  induction names generalizing listed with
  | nil => exact ok
  | cons name names ih =>
    rw [resolveAll] at ok ⊢
    cases resolved : catalog.resolve name (some input) with
    | error error =>
      rw [resolved] at ok
      cases ok
    | ok found =>
      rw [resolved] at ok
      rw [resolve_widens widens resolved]
      exact ih ok

private theorem dependencies_widens (widens : larger.Widens catalog)
    (ok : catalog.dependencies inputs = .ok after) : larger.dependencies inputs = .ok after := by
  unfold dependencies at ok ⊢
  generalize ([] : UnitList) = listed at ok ⊢
  induction inputs generalizing listed with
  | nil => exact ok
  | cons input inputs ih =>
    rw [listInputs] at ok ⊢
    cases resolved : catalog.resolveAll input listed input.requires with
    | error error =>
      rw [resolved] at ok
      cases ok
    | ok middle =>
      rw [resolved] at ok
      rw [resolveAll_widens widens resolved]
      exact ih _ ok

/-! ## Catalogs of pools -/

/-- Units of which no two provide one namespace have a catalog. -/
theorem ofUnits_succeeds (consistent : pool.Consistent) :
    ∃ catalog, ofUnits pool = .ok catalog := by
  have agreeing : pool.Agreeing := fun name left right first second =>
    congrArg SourceUnit.path (consistent.single name left right first second)
  cases built : ofUnits pool with
  | ok catalog => exact ⟨catalog, rfl⟩
  | error error => exact absurd agreeing (ofUnits_fails_iff.mp ⟨error, built⟩)

/-- The catalog of a pool widens those of its parts. -/
theorem widens_of_subset (described : catalog.Describes pool) (wide : larger.Describes wider)
    (within : ∀ unit ∈ pool, unit ∈ wider) : larger.Widens catalog := by
  intro name unit selected
  obtain ⟨member, provided⟩ := (described.provider name unit).mp selected
  exact (wide.provider name unit).mpr ⟨within unit member, provided⟩

end Catalog

/-! ## Plans -/

namespace ModuleTree

variable {catalog larger : Catalog} {pool wider : UnitList} {tree planned : ModuleTree}
  {trees : List ModuleTree} {boot : SourceUnit}

theorem collectAll_congr (same : ∀ tree ∈ trees, collect larger tree = collect catalog tree)  :
    collectAll larger trees = collectAll catalog trees := by
  induction trees with
  | nil => rw [collectAll, collectAll]
  | cons tree trees ih =>
    obtain ⟨first, rest⟩ := List.forall_mem_cons.mp same
    rw [collectAll, collectAll, first, ih rest]

private theorem collect_widens (widens : larger.Widens catalog)
    (done : (collect catalog tree).error = none) :
    collect larger tree = collect catalog tree := by
  induction tree using Tree.induct with
  | node node children ih =>
    rw [collect] at done ⊢
    rw [collect]
    cases listed : catalog.dependencies node.entries with
    | error error => simp [listed] at done
    | ok units =>
      simp only [listed] at done
      obtain ⟨_, complete⟩ := collectAll_ok done
      have below : collectAll larger children = collectAll catalog children :=
        collectAll_congr fun child member => ih child member (complete child member)
      rw [Catalog.dependencies_widens widens listed, below]

private theorem bootstrap_eq_ok :
    bootstrap pool = .ok boot ↔ pool.filter (·.isBootstrap) = [boot] := by
  unfold bootstrap
  generalize pool.filter (·.isBootstrap) = units
  match units with
  | [] => simp
  | [unit] => simp
  | first :: second :: rest => simp

private theorem bootstrap_widens (distinct : wider.Distinct) (within : ∀ unit ∈ pool, unit ∈ wider)
    (plain : ∀ unit ∈ wider, unit ∉ pool → unit.isBootstrap = false)
    (selected : bootstrap pool = .ok boot) : bootstrap wider = .ok boot := by
  rw [bootstrap_eq_ok] at selected ⊢
  have among {unit : SourceUnit} : unit ∈ pool.filter (·.isBootstrap) ↔ unit = boot := by
    rw [selected, List.mem_singleton]
  have unique : (wider.filter (·.isBootstrap)).Nodup := (distinct.filter _).of_map _
  refine List.perm_singleton.mp ((List.perm_ext_iff_of_nodup unique (List.nodup_singleton boot)).mpr ?_)
  intro unit
  rw [List.mem_singleton, ← among, List.mem_filter, List.mem_filter]
  refine and_congr_left fun bootstraps => ⟨fun member => ?_, within unit⟩
  by_contra absent
  rw [plain unit member absent] at bootstraps
  cases bootstraps

private theorem calculate_widens (widens : larger.Widens catalog)
    (made : Catalog.ofUnits pool = .ok catalog)
    (wideMade : Catalog.ofUnits wider = .ok larger) (done : (calculate pool tree).error = none) :
    calculate wider tree = calculate pool tree := by
  rw [calculate, made] at done
  rw [calculate, calculate, made, wideMade]
  exact collect_widens widens done

/-- A plan that succeeds is the same for a pool with more units, in whatever order they come, if
none of the others bootstraps and no namespace has two providers. -/
theorem build_of_wider_pool (distinct : pool.Distinct) (consistent : wider.Consistent)
    (within : ∀ unit ∈ pool, unit ∈ wider)
    (plain : ∀ unit ∈ wider, unit ∉ pool → unit.isBootstrap = false)
    (built : build pool tree = ⟨planned, none⟩) : build wider tree = ⟨planned, none⟩ := by
  obtain ⟨boot, catalog, selected, made, -, -⟩ := build_ok built
  obtain ⟨larger, wideMade⟩ := Catalog.ofUnits_succeeds consistent
  have widens : larger.Widens catalog := Catalog.widens_of_subset
    (Catalog.describes_of_ofUnits distinct made)
    (Catalog.describes_of_ofUnits consistent.distinct wideMade) within
  have calculated : calculate wider (lead boot tree) = calculate pool (lead boot tree) :=
    calculate_widens widens made wideMade (calculate_of_build selected built)
  rw [← built, build, build, selected, bootstrap_widens consistent.distinct within plain selected]
  simp only [calculated]

/-- The files of the fork in another order, with one that no module needs. -/
def widerForkPool : UnitList :=
  .create "/spare.js" ["spare"] ["absent"] false :: forkPool.reverse

theorem build_of_wider_pool_forkTree :
    forkPool.Distinct ∧ widerForkPool.Consistent ∧ (∀ unit ∈ forkPool, unit ∈ widerForkPool) ∧
      (∀ unit ∈ widerForkPool, unit ∉ forkPool → unit.isBootstrap = false) ∧
      build forkPool forkTree = ⟨(build forkPool forkTree).tree, none⟩ ∧
      build widerForkPool forkTree = ⟨(build forkPool forkTree).tree, none⟩ := by
  have distinct : forkPool.Distinct := by decide
  have consistent : widerForkPool.Consistent :=
    (Catalog.describes_of_ofUnits (by decide) (rfl : Catalog.ofUnits widerForkPool = .ok _)).toConsistent
  have within : ∀ unit ∈ forkPool, unit ∈ widerForkPool := by
    intro unit member
    exact List.mem_cons_of_mem _ (List.mem_reverse.mpr member)
  have plain : ∀ unit ∈ widerForkPool, unit ∉ forkPool → unit.isBootstrap = false := by
    intro unit member other
    rcases List.mem_cons.mp member with rfl | member
    · rfl
    · exact absurd (List.mem_reverse.mp member) other
  have succeeds : (build forkPool forkTree).error = none := by cbv
  have built : build forkPool forkTree = ⟨(build forkPool forkTree).tree, none⟩ :=
    congrArg (Attempt.mk _) succeeds
  exact ⟨distinct, consistent, within, plain, built,
    build_of_wider_pool distinct consistent within plain built⟩

end ModuleTree

end ChunkPlan
