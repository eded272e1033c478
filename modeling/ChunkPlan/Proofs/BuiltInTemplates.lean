import ChunkPlan.LoaderFile
import ChunkPlan.Proofs.Entries
import ChunkPlan.Proofs.JsonChars
import ChunkPlan.Proofs.Templates

/-!
# Built-in templates

The built-in wrappers and loader templates come out as if all their placeholders were replaced at
once, as long as no inserted text has a percent sign.  Names may be those of placeholders.
-/

set_option autoImplicit false

namespace ChunkPlan

namespace Text

/-- Whether no placeholder can begin or end in a text. -/
def PercentFree (text : String) : Prop := '%' ∉ text.toList

instance (text : String) : Decidable (PercentFree text) := inferInstanceAs (Decidable (_ ∉ _))

def charPairs (pairs : List (String × String)) : List (List Char × List Char) :=
  pairs.map fun pair => (pair.1.toList, pair.2.toList)

end Text

namespace TemplatePart

open Text

variable {pairs more : List (String × String)} {template : String} {part : TemplatePart}
  {parts : List TemplatePart}

/-- Whether a part is no placeholder but one of those given. -/
def Known (keys : List String) : TemplatePart → Prop
  | plain _ => True
  | slot name => slotText name ∈ keys.map String.toList

instance (keys : List String) : (part : TemplatePart) → Decidable (part.Known keys)
  | plain _ => inferInstanceAs (Decidable True)
  | slot _ => inferInstanceAs (Decidable (_ ∈ _))

theorem find?_charPairs_eq_none {name : List Char}
    (missing : slotText name ∉ (pairs.map Prod.fst).map String.toList) :
    (charPairs pairs).find? (fun pair => pair.1 = slotText name) = none := by
  refine List.find?_eq_none.mpr (List.forall_mem_map.mpr fun pair member same => missing ?_)
  rw [← of_decide_eq_true same]
  exact List.mem_map_of_mem (List.mem_map_of_mem member)

/-- Whether a part is none of the placeholders given. -/
def Untouched (keys : List String) : TemplatePart → Prop
  | plain _ => True
  | slot name => slotText name ∉ keys.map String.toList

instance (keys : List String) : (part : TemplatePart) → Decidable (part.Untouched keys)
  | plain _ => inferInstanceAs (Decidable True)
  | slot _ => inferInstanceAs (Decidable (_ ∉ _))

private theorem fill_of_untouched (untouched : part.Untouched (pairs.map Prod.fst)) :
    part.fill (charPairs pairs) = part := by
  cases part with
  | plain text => rfl
  | slot name => rw [fill, find?_charPairs_eq_none untouched]

theorem toList_fill (whole : parts.flatMap source = template.toList) (clear : isClear parts = true)
    (free : ∀ part ∈ parts, part.IsFree) (slots : ∀ key ∈ pairs.map Prod.fst, IsSlot key.toList) :
    (Text.fill pairs template).toList =
      (parts.map (fill (charPairs pairs))).flatMap source := by
  rw [Text.fill, String.toList_ofList, ← whole]
  refine (fillFrom_source ?_ clear free).1
  exact List.forall_mem_map.mpr fun pair member => slots _ (List.mem_map_of_mem member)

theorem toList_substitute (whole : parts.flatMap source = template.toList)
    (clear : isClear parts = true) (free : ∀ part ∈ parts, part.IsFree)
    (slots : ∀ key ∈ pairs.map Prod.fst, IsSlot key.toList)
    (inserted : ∀ pair ∈ pairs.dropLast, PercentFree pair.2) :
    (substitute pairs template).toList =
      (parts.map (fill (charPairs pairs))).flatMap source := by
  have slots : ∀ pair ∈ charPairs pairs, IsSlot pair.1 :=
    List.forall_mem_map.mpr fun pair member => slots _ (List.mem_map_of_mem member)
  have inserted : ∀ pair ∈ (charPairs pairs).dropLast, '%' ∉ pair.2 := by
    rw [charPairs, ← List.map_dropLast]
    exact List.forall_mem_map.mpr inserted
  rw [← foldl_replace_source slots inserted clear free, whole, charPairs, List.foldl_map,
    substitute, String.toList_ofList]

/-- A later part of a template can be filled before the whole is, as long as the parts in front of
it have none of the placeholders. -/
theorem substitute_append_substitute {opening : String} {others : List TemplatePart}
    (front : others.flatMap source = opening.toList)
    (whole : parts.flatMap source = template.toList) (clear : isClear (others ++ parts) = true)
    (free : ∀ part ∈ others ++ parts, part.IsFree)
    (slots : ∀ key ∈ (pairs ++ more).map Prod.fst, IsSlot key.toList)
    (untouched : ∀ part ∈ others, part.Untouched (pairs.map Prod.fst))
    (inserted : ∀ pair ∈ pairs ++ more, PercentFree pair.2) :
    substitute more (opening ++ substitute pairs template) =
      Text.fill (pairs ++ more) (opening ++ template) := by
  obtain ⟨inserted, insertedMore⟩ := List.forall_mem_append.mp inserted
  have allSlots := slots
  rw [List.map_append, List.forall_mem_append] at slots
  have stay : others.map (fill (charPairs pairs)) = others :=
    (List.map_congr_left fun part member => fill_of_untouched (untouched part member)).trans
      (List.map_id _)
  have inner := toList_substitute whole (isClear_of_append clear).2
    (List.forall_mem_append.mp free).2 slots.1 fun pair member =>
      inserted pair (List.dropLast_subset _ member)
  have between : ((others ++ parts).map (fill (charPairs pairs))).flatMap source =
      (opening ++ substitute pairs template).toList := by
    rw [List.map_append, List.flatMap_append, stay, front, String.toList_append, inner]
  have freed : ∀ part ∈ (others ++ parts).map (fill (charPairs pairs)), part.IsFree :=
    List.forall_mem_map.mpr fun part member =>
      isFree_fill (List.forall_mem_map.mpr inserted) (free part member)
  have outer := toList_substitute between (isClear_fill clear) freed slots.2 fun pair member =>
    insertedMore pair (List.dropLast_subset _ member)
  have together : (others ++ parts).flatMap source = (opening ++ template).toList := by
    rw [List.flatMap_append, front, whole, String.toList_append]
  have joined : charPairs (pairs ++ more) = charPairs pairs ++ charPairs more := List.map_append
  refine String.toList_injective (outer.trans ?_)
  rw [toList_fill together clear free allSlots, joined, List.map_map]
  simp only [Function.comp_def, fill_fill]

/-- Filling leaves no percent sign if the first pairs are all that is needed. -/
theorem not_mem_source_fill {first : List (String × String)} (begins : first <+: pairs)
    (known : ∀ part ∈ parts, part.Known (first.map Prod.fst)) (free : ∀ part ∈ parts, part.IsFree)
    (inserted : ∀ pair ∈ first, PercentFree pair.2) :
    '%' ∉ (parts.map (fill (charPairs pairs))).flatMap source := by
  rw [List.mem_flatMap]
  rintro ⟨filled, listed, sign⟩
  obtain ⟨part, member, rfl⟩ := List.mem_map.mp listed
  have known := known part member
  have free := free part member
  cases part with
  | plain text => exact free sign
  | slot name =>
    obtain ⟨rest, rfl⟩ := begins
    have joined : charPairs (first ++ rest) = charPairs first ++ charPairs rest := List.map_append
    cases found : (charPairs first).find? fun pair => pair.1 = slotText name with
    | none =>
      obtain ⟨key, listed, same⟩ := List.mem_map.mp known
      obtain ⟨pair, taken, rfl⟩ := List.mem_map.mp listed
      exact List.find?_eq_none.mp found _ (List.mem_map_of_mem taken) (decide_eq_true same)
    | some pair =>
      obtain ⟨given, taken, rfl⟩ := List.mem_map.mp (List.mem_of_find?_eq_some found)
      rw [joined, fill, List.find?_append, found, Option.some_or] at sign
      exact inserted given taken sign

end TemplatePart

open Text

/-! ## Inserted texts -/

namespace Json

theorem percentFree_render {value : Json} {separators : Separators} (lacks : value.Lacks '%')
    (item : '%' ∉ separators.item.toList) (key : '%' ∉ separators.key.toList) :
    PercentFree (value.render separators) := by
  rw [PercentFree, render, String.toList_ofList]
  exact lacks.not_mem_chars (by decide) item key

theorem percentFree_literal {text : String} (free : PercentFree text) : '%' ∉ literal text :=
  Foreign.not_mem_literal (by decide) (.inr free)

theorem lacks_ofStrings {texts : List String} (free : ∀ text ∈ texts, PercentFree text) :
    (ofStrings texts).Lacks '%' :=
  .array (List.forall_mem_map.mpr fun text member => .string (percentFree_literal (free text member)))

private theorem lacks_ofInfo {info : Entries (List String)}
    (free : ∀ entry ∈ info, PercentFree entry.1 ∧ ∀ dep ∈ entry.2, PercentFree dep) :
    (ofInfo info).Lacks '%' :=
  .object (List.forall_mem_map.mpr fun entry member => percentFree_literal (free entry member).1)
    (List.forall_mem_map.mpr fun entry member => lacks_ofStrings (free entry member).2)

private theorem lacks_ofUris {uris : Entries String}
    (free : ∀ entry ∈ uris, PercentFree entry.1 ∧ PercentFree entry.2) :
    (ofUris uris).Lacks '%' :=
  .object (List.forall_mem_map.mpr fun entry member => percentFree_literal (free entry member).1)
    (List.forall_mem_map.mpr fun entry member => .string (percentFree_literal (free entry member).2))

end Json

private theorem Defines.lacks_toJson {defines : Defines}
    (free : ∀ entry ∈ defines, PercentFree entry.1 ∧ ∀ text, entry.2 = .text text → PercentFree text) :
    defines.toJson.Lacks '%' := by
  refine .object (List.forall_mem_map.mpr fun entry member =>
    Json.percentFree_literal (free entry member).1) (List.forall_mem_map.mpr fun entry member => ?_)
  obtain ⟨name, value⟩ := entry
  cases value with
  | flag value => exact .bool value
  | integer value => exact .integer value
  | number value => exact .number value
  | text value => exact .string (Json.percentFree_literal ((free _ member).2 value rfl))

private theorem LoaderPlan.lacks_loaderDeps {uris : List String} {units : UnitList}
    (free : ∀ uri ∈ uris, PercentFree uri) : (loaderDeps uris units).Lacks '%' := by
  refine .array (List.forall_mem_map.mpr fun pair member => .array ?_)
  have uri := free pair.1 (List.of_mem_zip member).1
  simpa using ⟨.string (Json.percentFree_literal uri), .bool _⟩

namespace ModuleTree

variable {tree : ModuleTree} {productionUri : String}

/-- Whether no module, and no parent that one names, has a percent sign in its name. -/
def NamesPercentFree (tree : ModuleTree) : Prop :=
  ∀ node ∈ tree.nodes, PercentFree node.name ∧ ∀ parent ∈ node.parent, PercentFree parent

theorem lacks_info (named : tree.NamesPercentFree) : (Json.ofInfo tree.info).Lacks '%' := by
  refine Json.lacks_ofInfo fun entry member => ?_
  obtain ⟨node, listed, rfl⟩ := List.mem_map.mp (Entries.mem_ofPairs member)
  obtain ⟨name, parent⟩ := named node listed
  exact ⟨name, fun dep given => parent dep (Option.mem_toList.mp given)⟩

theorem lacks_uris (named : tree.NamesPercentFree) (uri : PercentFree productionUri) :
    (Json.ofUris (tree.uris productionUri)).Lacks '%' := by
  refine Json.lacks_ofUris fun entry member => ?_
  obtain ⟨node, listed, rfl⟩ := List.mem_map.mp (Entries.mem_ofPairs member)
  have name := (named node listed).1
  refine ⟨name, ?_⟩
  simp only [PercentFree, String.toList_append, List.mem_append, not_or] at uri name ⊢
  exact ⟨⟨uri, name⟩, by decide⟩

end ModuleTree

/-! ## Wrappers -/

namespace Wrapper

variable {config : ModuleConfig} {info : Entries (List String)} {uris : Entries String}
  {name before after : String}

/-- The placeholders that the compiler leaves alone. -/
def insertionKeys : List String := ["%globalScopeName%", "%moduleInfo%", "%moduleUris%", "%name%",
  "%productionUri%", "%renamePrefixNamespace%"]

theorem map_fst_placeholders : (placeholders config info uris name).map Prod.fst =
    insertionKeys ++ ["%source%"] := rfl

private theorem isSlot_placeholders :
    ∀ key ∈ (placeholders config info uris name).map Prod.fst, IsSlot key.toList := by
  rw [map_fst_placeholders]
  simp only [insertionKeys, List.cons_append, List.nil_append, List.forall_mem_cons]
  -- A literal stands for its characters, so no text has to be decoded.
  repeat rw [String.toList_ofList]
  decide

/-- The place that is left to the compiler. -/
def sourceSlot : TemplatePart := .slot "source".toList

private theorem fill_sourceSlot : sourceSlot.fill (charPairs (placeholders config info uris name)) =
    .plain "%s".toList := by
  have joined : charPairs (placeholders config info uris name) =
      charPairs (placeholders config info uris name).dropLast ++
        [("%source%".toList, "%s".toList)] := rfl
  have missing : (charPairs (placeholders config info uris name).dropLast).find?
      (fun pair => pair.1 = slotText "source".toList) = none := by
    refine TemplatePart.find?_charPairs_eq_none ?_
    rw [List.map_dropLast, map_fst_placeholders, insertionKeys]
    simp only [List.cons_append, List.nil_append, List.dropLast_cons_cons, List.dropLast_singleton,
      List.map_cons]
    repeat rw [String.toList_ofList]
    decide
  have here : "%source%".toList = slotText "source".toList := by
    repeat rw [String.toList_ofList]
    rfl
  rw [sourceSlot, TemplatePart.fill, joined, List.find?_append, missing, Option.none_or, here,
    List.find?_singleton, if_pos (decide_eq_true rfl)]

/-- What is known of the two halves of a built-in wrapper. -/
def HalvesFill (before after : String) : Prop :=
  let parts := TemplatePart.ofText before ++ TemplatePart.ofText after
  TemplatePart.isClear
      (TemplatePart.ofText before ++ sourceSlot :: TemplatePart.ofText after) = true ∧
    (∀ part ∈ parts, part.IsFree) ∧ ∀ part ∈ parts, part.Known insertionKeys

instance (before after : String) : Decidable (HalvesFill before after) :=
  inferInstanceAs (Decidable (_ ∧ _ ∧ _))

/-- The built-in wrappers consist of two halves that can be filled. -/
theorem halvesFill {template : String} (member : template ∈ [child, childWithScope, root,
    rootWithScope]) : ∃ before after, template = before ++ "%source%" ++ after ∧
      HalvesFill before after := by
  simp only [List.mem_cons, List.not_mem_nil, or_false] at member
  rcases member with rfl | rfl | rfl | rfl
  · refine ⟨"", "\n//# sourceURL=%productionUri%%name%.js", ?_, ?_⟩
    · rw [← String.ofList_append, ← String.ofList_append]
      rfl
    · unfold HalvesFill TemplatePart.ofText
      repeat rw [String.toList_ofList]
      decide +kernel
  · refine ⟨"(function(%renamePrefixNamespace%)\x7b",
      "\x7d)(%globalScopeName%);\n//# sourceURL=%productionUri%%name%.js", ?_, ?_⟩
    · unfold childWithScope
      rw [← String.ofList_append, ← String.ofList_append, ← String.ofList_append]
      rfl
    · unfold HalvesFill TemplatePart.ofText
      repeat rw [String.toList_ofList]
      decide +kernel
  · refine ⟨rootDefinitions, "", String.append_empty.symm, ?_⟩
    unfold HalvesFill TemplatePart.ofText rootDefinitions
    repeat rw [String.toList_ofList]
    decide +kernel
  · refine ⟨rootDefinitions ++
        "%globalScopeName%=\x7b\x7d;\n(function(%renamePrefixNamespace%)\x7b",
      "\x7d)(%globalScopeName%);", ?_, ?_⟩
    · unfold rootWithScope
      rw [String.append_assoc, String.append_assoc, String.append_assoc]
      refine congrArg (rootDefinitions ++ ·) ?_
      rw [← String.ofList_append, ← String.ofList_append, ← String.ofList_append]
      rfl
    · unfold HalvesFill TemplatePart.ofText rootDefinitions
      rw [String.toList_append]
      repeat rw [String.toList_ofList]
      decide +kernel

/-- A wrapper is filled at once, and so is what stands before and after the source. -/
theorem expand_fills (halves : HalvesFill before after)
    (inserted : ∀ pair ∈ (placeholders config info uris name).dropLast, PercentFree pair.2) :
    let filled := Text.fill (placeholders config info uris name)
    let text := expand config info uris name (before ++ "%source%" ++ after)
    text = filled (before ++ "%source%" ++ after) ∧ text = filled before ++ "%s" ++ filled after ∧
      PercentFree (filled before) ∧ PercentFree (filled after) := by
  obtain ⟨clear, free, known⟩ := halves
  rw [List.forall_mem_append] at free known
  obtain ⟨first, rest⟩ := TemplatePart.isClear_of_append clear
  have second : TemplatePart.isClear (TemplatePart.ofText after) = true :=
    (Bool.and_eq_true_iff.mp rest).2
  have whole : (TemplatePart.ofText before ++ sourceSlot :: TemplatePart.ofText after).flatMap
      TemplatePart.source = (before ++ "%source%" ++ after).toList := by
    simp [TemplatePart.source_ofText, sourceSlot, TemplatePart.source, slotText]
  have wholeFree : ∀ part ∈ TemplatePart.ofText before ++ sourceSlot :: TemplatePart.ofText after,
      part.IsFree := by
    rw [List.forall_mem_append, List.forall_mem_cons]
    exact ⟨free.1, by decide +kernel, free.2⟩
  have slots : ∀ key ∈ (placeholders config info uris name).map Prod.fst, IsSlot key.toList :=
    isSlot_placeholders
  have text_fill := TemplatePart.toList_substitute whole clear wholeFree slots inserted
  have whole_fill := TemplatePart.toList_fill whole clear wholeFree slots
  have before_fill := TemplatePart.toList_fill (TemplatePart.source_ofText before) first free.1 slots
  have after_fill := TemplatePart.toList_fill (TemplatePart.source_ofText after) second free.2 slots
  refine ⟨String.toList_injective (text_fill.trans whole_fill.symm),
    String.toList_injective ?_, ?_, ?_⟩
  · rw [expand, text_fill, String.toList_append, String.toList_append, before_fill, after_fill,
      List.map_append, List.flatMap_append, List.map_cons, List.flatMap_cons, fill_sourceSlot,
      List.append_assoc, TemplatePart.source]
  · rw [PercentFree, before_fill]
    exact TemplatePart.not_mem_source_fill (List.dropLast_prefix _) known.1 free.1 inserted
  · rw [PercentFree, after_fill]
    exact TemplatePart.not_mem_source_fill (List.dropLast_prefix _) known.2 free.2 inserted

end Wrapper

/-! ## Loader files -/

namespace LoaderPlan

variable {plan : LoaderPlan} {uris : List String} {node : ModuleNode} {name : String}

/-- Whether no text that goes into the templates of a plan has a percent sign. -/
structure TextsPercentFree (plan : LoaderPlan) : Prop where
  names : plan.tree.NamesPercentFree
  productionUri : PercentFree plan.config.productionUri
  scopeName : PercentFree plan.config.scopeName
  renameNamespace : PercentFree plan.config.renameNamespace
  defines : ∀ entry ∈ plan.defines,
    PercentFree entry.1 ∧ ∀ text, entry.2 = .text text → PercentFree text

private theorem TextsPercentFree.wrapper (free : plan.TextsPercentFree) (named : PercentFree name) :
    ∀ pair ∈ (Wrapper.placeholders plan.config plan.tree.info
      (plan.tree.uris plan.config.productionUri) name).dropLast, PercentFree pair.2 := by
  have rendered {value : Json} (lacks : value.Lacks '%') : PercentFree (value.render .compact) :=
    Json.percentFree_render lacks (by decide) (by decide)
  simpa [Wrapper.placeholders] using ⟨free.scopeName, rendered (plan.tree.lacks_info free.names),
    rendered (plan.tree.lacks_uris free.names free.productionUri), named, free.productionUri,
    free.renameNamespace⟩

/-- The texts that go into the loader itself. -/
def loaderPairs (plan : LoaderPlan) (uris : List String) (node : ModuleNode) :
    List (String × String) :=
  [("%deps%", (loaderDeps uris node.units).render),
    ("%loadAsync%", if plan.loadAsync then "true" else "false")]

def loaderKeys : List String := ["%deps%", "%loadAsync%"]

def commonKeys : List String := ["%defines%", "%moduleInfo%", "%moduleUris%", "%name%",
  "%productionUri%", "%files%"]

/-- What stands in front of the loader. -/
def opening (plan : LoaderPlan) (node : ModuleNode) : String :=
  if node.parent.isNone && plan.infoFile.isEmpty then rootTemplate else ""

theorem map_fst_pairs : (plan.loaderPairs uris node ++ plan.placeholders uris node).map Prod.fst =
    loaderKeys ++ commonKeys := rfl

private theorem isSlot_pairs :
    ∀ key ∈ (plan.loaderPairs uris node ++ plan.placeholders uris node).map
    Prod.fst, IsSlot key.toList := by
  rw [map_fst_pairs]
  simp only [loaderKeys, commonKeys, List.cons_append, List.nil_append, List.forall_mem_cons]
  repeat rw [String.toList_ofList]
  decide

private theorem builtInTemplate_eq : plan.builtInTemplate uris node =
    plan.opening node ++ Text.substitute (plan.loaderPairs uris node) loaderTemplate := by
  rw [builtInTemplate, opening]
  split
  · rfl
  · rw [String.empty_append]
    rfl

private theorem TextsPercentFree.loader (free : plan.TextsPercentFree)
    (named : PercentFree node.name)
    (addressed : ∀ uri ∈ uris, PercentFree uri) :
    ∀ pair ∈ plan.loaderPairs uris node ++ plan.placeholders uris node, PercentFree pair.2 := by
  have rendered {value : Json} (lacks : value.Lacks '%') : PercentFree value.render :=
    Json.percentFree_render lacks (by decide) (by decide)
  have flag : PercentFree (if plan.loadAsync then "true" else "false") := by
    split <;> decide
  simpa [loaderPairs, placeholders] using ⟨rendered (lacks_loaderDeps addressed), flag,
    rendered (Defines.lacks_toJson free.defines), rendered (plan.tree.lacks_info free.names),
    rendered (plan.tree.lacks_uris free.names free.productionUri), named, free.productionUri,
    rendered (Json.lacks_ofStrings addressed)⟩

/-- What is known of the loader with a text in front of it. -/
def LoaderFills (opening : String) : Prop :=
  let front := TemplatePart.ofText opening
  let parts := front ++ TemplatePart.ofText loaderTemplate
  TemplatePart.isClear parts = true ∧ (∀ part ∈ parts, part.IsFree) ∧
    (∀ part ∈ parts, part.Known (loaderKeys ++ commonKeys)) ∧
    ∀ part ∈ front, part.Untouched loaderKeys

instance (opening : String) : Decidable (LoaderFills opening) :=
  inferInstanceAs (Decidable (_ ∧ _ ∧ _ ∧ _))

private theorem toList_lines (lines : List String) : (String.join (lines.map (· ++ "\n"))).toList =
    lines.flatMap fun line => line.toList ++ ['\n'] := by
  induction lines with
  | nil => rfl
  | cons line lines ih =>
    rw [List.map_cons, String.join_cons, String.toList_append, String.toList_append, ih,
      List.flatMap_cons]
    rfl

private theorem loaderFills_opening : LoaderFills (plan.opening node) := by
  rw [opening]
  unfold LoaderFills TemplatePart.ofText loaderTemplate
  rw [toList_lines]
  simp only [List.flatMap_cons, String.toList_append]
  split
  · rw [rootTemplate, toList_lines]
    simp only [List.flatMap_cons]
    repeat rw [String.toList_ofList]
    decide +kernel
  · repeat rw [String.toList_ofList]
    decide +kernel

/-- A loader file without a wrapper of its own is filled at once, although the loader is filled
before what stands in front of it. -/
theorem content_fills {workingDirectory : String} (bare : node.wrapper = none)
    (inserted : ∀ pair ∈ plan.loaderPairs (fileUris workingDirectory plan.config node) node ++
      plan.placeholders (fileUris workingDirectory plan.config node) node, PercentFree pair.2) :
    let uris := fileUris workingDirectory plan.config node
    plan.content workingDirectory node = Text.fill
      (plan.loaderPairs uris node ++ plan.placeholders uris node)
      (plan.opening node ++ loaderTemplate) ∧
      PercentFree (plan.content workingDirectory node) := by
  intro uris
  obtain ⟨clear, free, known, untouched⟩ : LoaderFills (plan.opening node) := loaderFills_opening
  have slots : ∀ key ∈ (plan.loaderPairs uris node ++ plan.placeholders uris node).map Prod.fst,
      IsSlot key.toList := isSlot_pairs
  have whole : (TemplatePart.ofText (plan.opening node) ++
      TemplatePart.ofText loaderTemplate).flatMap TemplatePart.source =
        (plan.opening node ++ loaderTemplate).toList := by
    rw [List.flatMap_append, TemplatePart.source_ofText, TemplatePart.source_ofText,
      String.toList_append]
  have filled : plan.content workingDirectory node = Text.fill
      (plan.loaderPairs uris node ++ plan.placeholders uris node)
      (plan.opening node ++ loaderTemplate) := by
    rw [content, ModuleNode.template, bare, builtInTemplate_eq]
    exact TemplatePart.substitute_append_substitute (TemplatePart.source_ofText _)
      (TemplatePart.source_ofText _) clear free slots untouched inserted
  refine ⟨filled, ?_⟩
  rw [filled, PercentFree, TemplatePart.toList_fill whole clear free slots]
  rw [← map_fst_pairs] at known
  exact TemplatePart.not_mem_source_fill List.prefix_rfl known free inserted

/-! ## All built-in templates -/

/-- The built-in templates are filled at once, each placeholder by the text that belongs to it, and
nothing in them but the place of the source is left to be filled. -/
theorem builtIn_templates_fill (free : plan.TextsPercentFree) :
    (∀ name, PercentFree name →
      ∀ template ∈ [Wrapper.child, Wrapper.childWithScope, Wrapper.root, Wrapper.rootWithScope],
        let uris := plan.tree.uris plan.config.productionUri
        let filled := Text.fill
          [("%globalScopeName%", plan.config.scopeName),
            ("%moduleInfo%", (Json.ofInfo plan.tree.info).render .compact),
            ("%moduleUris%", (Json.ofUris uris).render .compact),
            ("%name%", name),
            ("%productionUri%", plan.config.productionUri),
            ("%renamePrefixNamespace%", plan.config.renameNamespace),
            ("%source%", "%s")]
        let text := Wrapper.expand plan.config plan.tree.info uris name template
        text = filled template ∧ ∃ before after, template = before ++ "%source%" ++ after ∧
          text = filled before ++ "%s" ++ filled after ∧
          PercentFree (filled before) ∧ PercentFree (filled after)) ∧
    ∀ (workingDirectory : String) (node : ModuleNode), node.wrapper = none →
      PercentFree node.name →
      let uris := fileUris workingDirectory plan.config node
      (∀ uri ∈ uris, PercentFree uri) →
        plan.content workingDirectory node = Text.fill
          [("%deps%", (loaderDeps uris node.units).render),
            ("%loadAsync%", if plan.loadAsync then "true" else "false"),
            ("%defines%", plan.defines.toJson.render),
            ("%moduleInfo%", (Json.ofInfo plan.tree.info).render),
            ("%moduleUris%", (Json.ofUris (plan.tree.uris plan.config.productionUri)).render),
            ("%name%", node.name),
            ("%productionUri%", plan.config.productionUri),
            ("%files%", (Json.ofStrings uris).render)]
          (plan.opening node ++ loaderTemplate) ∧
        PercentFree (plan.content workingDirectory node) := by
  refine ⟨fun name named template member => ?_, fun workingDirectory node bare named addressed =>
    content_fills bare (free.loader named addressed)⟩
  obtain ⟨before, after, rfl, halves⟩ := Wrapper.halvesFill member
  obtain ⟨whole, split, first, second⟩ := Wrapper.expand_fills halves (free.wrapper named)
  exact ⟨whole, before, after, rfl, split, first, second⟩

/-- A module whose name is that of a placeholder. -/
def placeholderNode : ModuleNode where
  name := "name"
  parent := some "source"
  deps := [{ path := "/src/deps.js", provides := ["deps"] }]

/-- A plan whose names are those of placeholders. -/
def placeholderPlan : LoaderPlan where
  config := {
    outputPrefix := "/out/", productionUri := "/js/", scopeName := "name",
    renameNamespace := "productionUri" }
  tree := .node { name := "source" } [.node placeholderNode []]
  defines := [("files", .text "defines")]

theorem builtIn_templates_fill_placeholderPlan :
    let config := placeholderPlan.config
    let info := placeholderPlan.tree.info
    let uris := placeholderPlan.tree.uris "/js/"
    let text := Wrapper.expand config info uris "name" Wrapper.childWithScope
    text = Text.fill (Wrapper.placeholders config info uris "name") Wrapper.childWithScope ∧
    (∃ before after, text = before ++ "%s" ++ after ∧ PercentFree before ∧ PercentFree after) ∧
    PercentFree (placeholderPlan.content "/" placeholderNode) := by
  have defines : ∀ text, (DefineValue.text "defines") = .text text → PercentFree text := by
    rintro _ ⟨⟩
    decide
  have free : placeholderPlan.TextsPercentFree :=
    ⟨by unfold ModuleTree.NamesPercentFree; decide +kernel, by decide, by decide, by decide,
      List.forall_mem_singleton.mpr ⟨by decide, defines⟩⟩
  obtain ⟨wrappers, loaders⟩ := builtIn_templates_fill free
  obtain ⟨whole, before, after, -, split, first, second⟩ :=
    wrappers "name" (by decide) Wrapper.childWithScope (by simp)
  exact ⟨whole, ⟨_, _, split, first, second⟩,
    (loaders "/" placeholderNode rfl (by decide) (by decide +kernel)).2⟩

end LoaderPlan

end ChunkPlan
