import ChunkPlan.Proofs.Order
import ChunkPlan.RequireCheck.Report

/-!
# Known namespaces

The namespaces that are reported of a source, each described without the order of the search.  A
name or a type is matched with known namespaces only, so one that is excluded counts as used
nowhere.
-/

set_option autoImplicit false

namespace ChunkPlan

namespace CheckedSource

variable {source : CheckedSource} {sources : List CheckedSource} {excluded provides : List String}
  {name : String}

private theorem mem_knownProvides : name ∈ knownProvides sources excluded ↔
    (∃ source ∈ sources, name ∈ source.unit.provides) ∧ name ∉ excluded := by
  simp [knownProvides, Text.mem_sorted]

theorem descending_knownProvides (sources : List CheckedSource) (excluded : List String) :
    (knownProvides sources excluded).Pairwise fun a b => b ≤ a :=
  List.pairwise_reverse.mpr (Text.ascending_sorted _)

private theorem mem_of_mem_usedInCode (used : name ∈ source.usedInCode provides) :
    name ∈ provides := by
  obtain ⟨chain, -, found⟩ := List.mem_filterMap.mp used
  exact List.mem_of_find?_eq_some found

private theorem mem_of_mem_usedInDocs (used : name ∈ source.usedInDocs provides) :
    name ∈ provides := by
  obtain ⟨expression, -, found⟩ := List.mem_filterMap.mp used
  exact List.mem_of_find?_eq_some found

theorem mem_missing : name ∈ source.missing provides ↔
    name ∈ source.usedInCode provides ∧ name ∉ source.unit.provides ∧
      name ∉ source.unit.requires := by
  simp [missing, Text.mem_sorted]

theorem mem_unnecessary : name ∈ source.unnecessary provides ↔
    name ∈ source.unit.requires ∧ name ∉ source.usedInCode provides ∧
      name ∉ source.usedInDocs provides := by
  simp [unnecessary, Text.mem_sorted]

/-! ## Excluded namespaces -/

/-- An excluded namespace is missing nowhere.  Since it is not matched with what a source uses, it is
unnecessary in every source that requires it, be it used there or not. -/
theorem excluded_reported_iff (sources : List CheckedSource) (excluded : List String)
    (source : CheckedSource) (name : String) (out : name ∈ excluded) :
    name ∉ source.missing (knownProvides sources excluded) ∧
      (name ∈ source.unnecessary (knownProvides sources excluded) ↔
        name ∈ source.unit.requires) := by
  have unknown : name ∉ knownProvides sources excluded := fun known =>
    (mem_knownProvides.mp known).2 out
  have code : name ∉ source.usedInCode (knownProvides sources excluded) :=
    fun used => unknown (mem_of_mem_usedInCode used)
  have docs : name ∉ source.usedInDocs (knownProvides sources excluded) :=
    fun used => unknown (mem_of_mem_usedInDocs used)
  refine ⟨fun missing => code (mem_missing.mp missing).1, ?_⟩
  rw [mem_unnecessary]
  exact ⟨fun reported => reported.1, fun required => ⟨required, code, docs⟩⟩

/-- A source that requires a namespace and calls a function of it. -/
def callerText : String := "goog.require('a.b');\na.b.run();"

theorem excluded_reported_iff_caller : ∃ caller, ofText "/u.js" callerText = .ok caller ∧
    "a.b" ∈ ["a.b"] ∧ "a.b" ∉ caller.missing (knownProvides [caller] ["a.b"]) ∧
    ("a.b" ∈ caller.unnecessary (knownProvides [caller] ["a.b"]) ↔
      "a.b" ∈ caller.unit.requires) := by
  obtain ⟨caller, read⟩ : ∃ caller, ofText "/u.js" callerText = .ok caller :=
    exists_of_isOk (by decide +kernel)
  exact ⟨caller, read, by decide, excluded_reported_iff [caller] ["a.b"] caller "a.b" (by decide)⟩

/-- The namespace is excluded and used, and still it is reported. -/
theorem unnecessary_although_excluded : ∃ caller, ofText "/u.js" callerText = .ok caller ∧
    "a.b" ∈ ["a.b"] ∧ "a.b" ∈ caller.usedInCode ["a.b"] ∧
    "a.b" ∈ caller.unnecessary (knownProvides [caller] ["a.b"]) := by
  have reported : (ofText "/u.js" callerText).toOption.map (fun caller =>
      (caller.usedInCode ["a.b"], caller.unnecessary (knownProvides [caller] ["a.b"]))) =
        some (["a.b"], ["a.b"]) := by decide +kernel
  obtain ⟨caller, read, both⟩ := Option.map_eq_some_iff.mp reported
  obtain ⟨used, unnecessary⟩ := Prod.mk.inj both
  refine ⟨caller, eq_ok_of_toOption read, by decide, ?_, ?_⟩
  · rw [used]
    decide
  · rw [unnecessary]
    decide

end CheckedSource

end ChunkPlan
