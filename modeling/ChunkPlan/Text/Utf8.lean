/-!
# UTF-8

Reading bytes as a text, with the reason why bytes are not UTF-8: the first sequence that cannot
be read decides.
-/

set_option autoImplicit false

namespace ChunkPlan.Utf8

/-- Why bytes are not UTF-8. -/
inductive Fault where
  | startByte
  | continuationByte
  | endOfData
  deriving DecidableEq, Repr, Inhabited

def Fault.message : Fault → String
  | .startByte => "invalid start byte"
  | .continuationByte => "invalid continuation byte"
  | .endOfData => "unexpected end of data"

/-- The inclusive bounds for each byte after a start byte, or `none` for a byte that starts no
sequence.  Only the second byte has narrower bounds than `80` to `BF`: they keep out longer forms
than needed, surrogates and code points above `10FFFF`. -/
def continuationBounds? (start : Nat) : Option (List (Nat × Nat)) :=
  let any := (0x80, 0xBF)
  if start < 0x80 then some []
  else if start < 0xC2 then none
  else if start < 0xE0 then some [any]
  else if start < 0xF0 then
    let second :=
      if start = 0xE0 then (0xA0, 0xBF) else if start = 0xED then (0x80, 0x9F) else any
    some [second, any]
  else if start < 0xF5 then
    let second :=
      if start = 0xF0 then (0x90, 0xBF) else if start = 0xF4 then (0x80, 0x8F) else any
    some [second, any, any]
  else none

/-- The first fault in bytes, where `pending` bounds the bytes that the current sequence still
needs. -/
def fault? : (pending : List (Nat × Nat)) → List UInt8 → Option Fault
  | [], [] => none
  | _ :: _, [] => some .endOfData
  | [], byte :: rest =>
    match continuationBounds? byte.toNat with
    | none => some .startByte
    | some bounds => fault? bounds rest
  | (low, high) :: bounds, byte :: rest =>
    if low ≤ byte.toNat && byte.toNat ≤ high then fault? bounds rest
    else some .continuationByte

/-- The text that bytes stand for, or the reason why there is none. -/
def decode (bytes : ByteArray) : Except Fault String :=
  match String.fromUTF8? bytes with
  | some text => .ok text
  | none => .error ((fault? [] bytes.toList).getD .startByte)

def encode (text : String) : ByteArray := text.toUTF8

end ChunkPlan.Utf8
