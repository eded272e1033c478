import ChunkPlan.Json.Parser
import ChunkPlan.Proofs.Entries

/-!
# Keys of objects that are read

A text can write a key of an object twice, but what is read from it has the key once.
-/

set_option autoImplicit false

namespace ChunkPlan.Json

variable {text rest : List Char} {token : Token} {tokens : List Token} {reading later : Reading}
  {value item : Json} {name : String} {items : List Json} {members : List (String × Json)}
  {outer : List Frame}

/-- Whether a value holds no other values. -/
def isFlat : Json → Bool
  | .array _ => false
  | .object _ => false
  | _ => true

/-- Values in which no object has a key twice. -/
inductive Keyed : Json → Prop
  | flat {value : Json} (flat : value.isFlat = true) : Keyed value
  | array {items : List Json} (each : ∀ item ∈ items, Keyed item) : Keyed (.array items)
  | object {members : List (String × Json)} (keys : (Entries.keys members).Nodup)
      (each : ∀ member ∈ members, Keyed member.2) : Keyed (.object members)

theorem keyed_array : Keyed (.array items) ↔ ∀ item ∈ items, Keyed item := by
  refine ⟨fun keyed => ?_, .array⟩
  cases keyed with
  | flat flat => cases flat
  | array each => exact each

theorem keyed_object : Keyed (.object members) ↔
    (Entries.keys members).Nodup ∧ ∀ member ∈ members, Keyed member.2 := by
  refine ⟨fun keyed => ?_, fun ⟨keys, each⟩ => .object keys each⟩
  cases keyed with
  | flat flat => cases flat
  | object keys each => exact ⟨keys, each⟩

theorem Keyed.put (keyed : Keyed (.object members)) (item : Keyed value) :
    Keyed (.object (Entries.put members name value)) := by
  obtain ⟨keys, each⟩ := keyed_object.mp keyed
  refine .object (Entries.nodup_keys_put keys) fun member written => ?_
  rcases Entries.mem_put written with old | rfl
  · exact each member old
  · exact item

theorem Keyed.member (keyed : Keyed (.object members)) (key : String) :
    Keyed (Json.member members key) := by
  rw [Json.member]
  cases found : Entries.find? members key with
  | none => exact .flat rfl
  | some value => exact (keyed_object.mp keyed).2 _ (Entries.mem_of_find? found)

/-! ## Tokens -/

def Token.isFlat : Token → Bool
  | .scalar value => value.isFlat
  | _ => true

private theorem isFlat_of_word? (found : Token.word? text = some (value, rest)) :
    value.isFlat = true := by
  have all : ∀ entry ∈ Token.words, entry.2.isFlat = true := by decide
  obtain ⟨⟨word, stored⟩, listed, found⟩ := List.exists_of_findSome?_eq_some found
  obtain ⟨-, same⟩ := Option.ite_none_right_eq_some.mp found
  cases same
  exact all _ listed

private theorem isFlat_of_numeral? {negative : Bool} {whole fraction : List Char}
    {exponent : Option Int}
    (found : Token.numeral? negative whole fraction exponent = some value) :
    value.isFlat = true := by
  rw [Token.numeral?] at found
  split at found
  · obtain ⟨number, -, rfl⟩ := Option.map_eq_some_iff.mp found
    rfl
  · cases found
    rfl

private theorem isFlat_of_number? {negative : Bool}
    (found : Token.number? negative text = some (value, rest)) : value.isFlat = true := by
  cases text with
  | nil => cases found
  | cons c text =>
    rw [Token.number?] at found
    obtain ⟨-, found⟩ := Option.ite_none_right_eq_some.mp found
    obtain ⟨number, numeral, same⟩ := Option.map_eq_some_iff.mp found
    exact (Prod.mk.inj same).1 ▸ isFlat_of_numeral? numeral

private theorem isFlat_of_plainScalar? (found : Token.plainScalar? text = some (value, rest)) :
    value.isFlat = true := by
  unfold Token.plainScalar? at found
  split at found
  · next word =>
    cases found
    exact isFlat_of_word? word
  · split at found
    · exact isFlat_of_number? found
    · exact isFlat_of_number? found

private theorem isFlat_of_next? (read : Token.next? text = some (token, rest)) :
    token.isFlat = true := by
  unfold Token.next? at read
  split at read
  case h_1 => cases read
  case h_8 =>
    obtain ⟨body, -, read⟩ := Option.bind_eq_some_iff.mp read
    obtain ⟨codes, -, read⟩ := Option.bind_eq_some_iff.mp read
    cases read
    rfl
  case h_9 =>
    obtain ⟨scalar, found, same⟩ := Option.map_eq_some_iff.mp read
    cases same
    exact isFlat_of_plainScalar? found
  all_goals
    cases read
    rfl

private theorem isFlat_of_listWithin? {budget : Nat}
    (read : Token.listWithin? budget text = some tokens) : ∀ token ∈ tokens, token.isFlat = true := by
  induction budget generalizing text tokens with
  | zero =>
    unfold Token.listWithin? at read
    split at read
    · cases read
      exact List.forall_mem_nil _
    · cases read
    · next same => cases same
  | succ budget ih =>
    unfold Token.listWithin? at read
    split at read
    · cases read
      exact List.forall_mem_nil _
    · cases read
    · next same =>
      cases same
      obtain ⟨⟨first, text⟩, next, read⟩ := Option.bind_eq_some_iff.mp read
      obtain ⟨others, later, read⟩ := Option.bind_eq_some_iff.mp read
      cases read
      exact List.forall_mem_cons.mpr ⟨isFlat_of_next? next, ih later⟩

/-! ## Readings -/

def Frame.held : Frame → Json
  | .array items => .array items
  | .object members _ => .object members

/-- The values that a reading holds, those that are not closed yet included. -/
def Reading.held : Reading → List Json
  | .value outer => outer.map Frame.held
  | .firstItem outer => outer.map Frame.held
  | .firstKey outer => outer.map Frame.held
  | .key members outer => .object members :: outer.map Frame.held
  | .colon members _ outer => .object members :: outer.map Frame.held
  | .arrayGap items outer => .array items :: outer.map Frame.held
  | .objectGap members outer => .object members :: outer.map Frame.held
  | .done value => [value]

namespace Reading

def Keyed (reading : Reading) : Prop := ∀ value ∈ reading.held, value.Keyed

theorem keyed_accept (keyed : item.Keyed) (all : ∀ value ∈ outer.map Frame.held, value.Keyed) :
    (accept item outer).Keyed := by
  cases outer with
  | nil => exact List.forall_mem_singleton.mpr keyed
  | cons frame outer =>
    obtain ⟨first, others⟩ := List.forall_mem_cons.mp all
    cases frame with
    | array items =>
      refine List.forall_mem_cons.mpr ⟨.array ?_, others⟩
      exact List.forall_mem_cons.mpr ⟨keyed, keyed_array.mp first⟩
    | object members name => exact List.forall_mem_cons.mpr ⟨first.put keyed, others⟩

private theorem keyed_begin? (all : ∀ value ∈ outer.map Frame.held, value.Keyed)
    (flat : token.isFlat = true) (begun : begin? outer token = some later) : later.Keyed := by
  cases token with
  | scalar value =>
    cases begun
    exact keyed_accept (.flat flat) all
  | openArray =>
    cases begun
    exact all
  | openObject =>
    cases begun
    exact all
  | _ => cases begun

private theorem keyed_step? (keyed : reading.Keyed) (flat : token.isFlat = true)
    (stepped : step? reading token = some later) : later.Keyed := by
  have empty : (Json.array []).Keyed := .array (List.forall_mem_nil _)
  have blank : (Json.object []).Keyed := .object List.nodup_nil (List.forall_mem_nil _)
  unfold step? at stepped
  split at stepped
  · exact keyed_begin? keyed flat stepped
  · cases stepped
    exact keyed_accept empty keyed
  · refine keyed_begin? ?_ flat stepped
    exact List.forall_mem_cons.mpr ⟨empty, keyed⟩
  · cases stepped
    exact keyed_accept blank keyed
  · cases stepped
    exact List.forall_mem_cons.mpr ⟨blank, keyed⟩
  · cases stepped
    exact keyed
  · cases stepped
    exact keyed
  · cases stepped
    exact keyed
  · cases stepped
    obtain ⟨items, others⟩ := List.forall_mem_cons.mp keyed
    refine keyed_accept (.array fun item among => ?_) others
    exact keyed_array.mp items item (List.mem_reverse.mp among)
  · cases stepped
    exact keyed
  · cases stepped
    obtain ⟨members, others⟩ := List.forall_mem_cons.mp keyed
    exact keyed_accept members others
  · cases stepped

private theorem keyed_run? (keyed : reading.Keyed) (flat : ∀ token ∈ tokens, token.isFlat = true)
    (done : run? reading tokens = some later) : later.Keyed := by
  induction tokens generalizing reading with
  | nil =>
    cases done
    exact keyed
  | cons token tokens ih =>
    obtain ⟨first, others⟩ := List.forall_mem_cons.mp flat
    obtain ⟨middle, stepped, done⟩ := Option.bind_eq_some_iff.mp done
    exact ih (keyed_step? keyed first stepped) others done

end Reading

/-- What is read from a text has no object with a key twice. -/
theorem keyed_of_parse? {text : String} (read : parse? text = some value) : value.Keyed := by
  obtain ⟨tokens, listed, read⟩ := Option.bind_eq_some_iff.mp read
  rw [ofTokens?] at read
  split at read
  · next final done =>
    cases read
    have start : (Reading.value []).Keyed := List.forall_mem_nil _
    have keyed := Reading.keyed_run? start (isFlat_of_listWithin? listed) done
    exact List.forall_mem_singleton.mp keyed
  · cases read

end ChunkPlan.Json
