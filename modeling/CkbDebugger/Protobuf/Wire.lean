import Mathlib.Data.List.Find
import CkbDebugger.Protobuf.Varint

/-!
# Tags and values

A message is a sequence of values, each after a tag with the number of its field and the
way in which it is written. A reader that does not know a field finds the end of its value
from the tag alone. Readers and writers are those of the `protobuf` 2.28 runtime.
-/
namespace Protobuf

inductive WireType where
  | varint
  | fixed64
  | lengthDelimited
  | startGroup
  | endGroup
  | fixed32
  deriving Repr, DecidableEq

def WireType.code : WireType → Nat
  | .varint => 0
  | .fixed64 => 1
  | .lengthDelimited => 2
  | .startGroup => 3
  | .endGroup => 4
  | .fixed32 => 5

def WireType.ofCode : Nat → Option WireType
  | 0 => some .varint
  | 1 => some .fixed64
  | 2 => some .lengthDelimited
  | 3 => some .startGroup
  | 4 => some .endGroup
  | 5 => some .fixed32
  | _ => none

/-! ### Tags -/

/-- A number that a field may have. -/
def IsFieldNumber (number : Nat) : Prop := 0 < number ∧ number < 2 ^ 29

instance (number : Nat) : Decidable (IsFieldNumber number) := inferInstanceAs (Decidable (_ ∧ _))

/-- `write_tag`. -/
def writeTag (number : Nat) (wire : WireType) : Bytes := encodeVarint (UInt64.ofNat (8 * number + wire.code))

/-- `tag_size`. -/
def tagSize (number : Nat) : Nat := varintSize (UInt64.ofNat (8 * number))

/-- `read_tag_unpack`: a field number and a wire type, of 32 bits together. -/
def readTag (bytes : Bytes) : Option (Nat × WireType × Bytes) :=
  match decodeVarint bytes with
  | none => none
  | some (tag, rest) =>
    let tag := tag.toNat % 2 ^ 32
    match WireType.ofCode (tag % 8) with
    | some wire => if tag / 8 = 0 then none else some (tag / 8, wire, rest)
    | none => none

theorem WireType.code_lt (wire : WireType) : wire.code < 8 := by cases wire <;> decide

theorem WireType.ofCode_code (wire : WireType) : WireType.ofCode wire.code = some wire := by cases wire <;> rfl

theorem toNat_tag {number : Nat} (valid : IsFieldNumber number) (wire : WireType) :
    (UInt64.ofNat (8 * number + wire.code)).toNat = 8 * number + wire.code := by
  have small := wire.code_lt
  have bound := valid.2
  exact UInt64.toNat_ofNat_of_lt' (show 8 * number + wire.code < 2 ^ 64 by omega)

/-- A tag is read back, whatever follows it. -/
theorem readTag_writeTag {number : Nat} (valid : IsFieldNumber number) (wire : WireType) (rest : Bytes) :
    readTag (writeTag number wire ++ rest) = some (number, wire, rest) := by
  have small := wire.code_lt
  have bound := valid.2
  have positive := valid.1
  have short : (8 * number + wire.code) % 2 ^ 32 = 8 * number + wire.code := Nat.mod_eq_of_lt (by omega)
  have low : (8 * number + wire.code) % 8 = wire.code := by omega
  have high : (8 * number + wire.code) / 8 = number := by omega
  have nonzero : number ≠ 0 := by omega
  simp only [readTag, writeTag, decodeVarint_encodeVarint, toNat_tag valid, short, low, high, nonzero,
    WireType.ofCode_code, if_false]

theorem writeTag_ne_nil (number : Nat) (wire : WireType) : writeTag number wire ≠ [] :=
  encodeVarint_ne_nil _

/-- The wire type, in the three low bits, does not count for the size of a tag. -/
theorem length_writeTag {number : Nat} (valid : IsFieldNumber number) (wire : WireType) :
    (writeTag number wire).length = tagSize number := by
  have small := wire.code_lt
  have plain : (UInt64.ofNat (8 * number)).toNat = 8 * number := toNat_tag valid .varint
  rw [writeTag, length_encodeVarint, tagSize, varintSize, varintSize, toNat_tag valid, plain]
  congr 1
  apply List.find?_congr
  intro i member
  have positive := (List.mem_range'_1.mp member).1
  -- every power that a size is compared with is a multiple of 8
  have eight : 2 ^ (7 * i) = 8 * 2 ^ (7 * i - 3) := by
    rw [← Nat.pow_add 2 3, show 3 + (7 * i - 3) = 7 * i by omega]
  simp only [eight, decide_eq_decide]
  omega

/-! ### Values -/

/-- The next bytes of a known number, where there are so many. -/
def readRaw (count : Nat) (bytes : Bytes) : Option (Bytes × Bytes) :=
  if count ≤ bytes.length then some (bytes.take count, bytes.drop count) else none

/-- A part with its length in front; `read_raw_varint64` and a limit. -/
def readDelimited (bytes : Bytes) : Option (Bytes × Bytes) :=
  (decodeVarint bytes).bind fun (length, rest) => readRaw length.toNat rest

/-- The bytes of a text, which have a length of 32 bits. -/
def readShort (bytes : Bytes) : Option (Bytes × Bytes) :=
  (decodeVarint bytes).bind fun (length, rest) => readRaw (length.toNat % 2 ^ 32) rest

/-- A part with its length in front, as far as 32 bits count it. -/
def writeDelimited (part : Bytes) : Bytes := encodeVarint (UInt32.ofNat part.length).toUInt64 ++ part

theorem readRaw_append (part rest : Bytes) : readRaw part.length (part ++ rest) = some (part, rest) := by
  rw [readRaw, if_pos (by simp), List.take_left, List.drop_left]

theorem toNat_length {part : Bytes} (fits : part.length < 2 ^ 32) :
    (UInt32.ofNat part.length).toUInt64.toNat = part.length := by
  rw [UInt32.toNat_toUInt64, UInt32.toNat_ofNat_of_lt' fits]

theorem readDelimited_writeDelimited {part : Bytes} (fits : part.length < 2 ^ 32) (rest : Bytes) :
    readDelimited (writeDelimited part ++ rest) = some (part, rest) := by
  simp only [readDelimited, writeDelimited, List.append_assoc, decodeVarint_encodeVarint, Option.bind_some,
    toNat_length fits, readRaw_append]

theorem readShort_writeDelimited {part : Bytes} (fits : part.length < 2 ^ 32) (rest : Bytes) :
    readShort (writeDelimited part ++ rest) = some (part, rest) := by
  simp only [readShort, writeDelimited, List.append_assoc, decodeVarint_encodeVarint, Option.bind_some,
    toNat_length fits, Nat.mod_eq_of_lt fits, readRaw_append]

/-! ### Values of unknown fields -/

/-- A value that is not a group. -/
def skipValue (wire : WireType) (bytes : Bytes) : Option Bytes :=
  match wire with
  | .varint => (decodeVarint bytes).map Prod.snd
  | .fixed64 => (readRaw 8 bytes).map Prod.snd
  | .fixed32 => (readRaw 4 bytes).map Prod.snd
  | .lengthDelimited => (readShort bytes).map Prod.snd
  | .startGroup | .endGroup => none

/-- `skip_group`: a group ends at the first end tag that is not of a group inside it. -/
def skipGroup : Nat → Bytes → Option Bytes
  | 0, _ => none
  | rounds + 1, bytes =>
    match readTag bytes with
    | none => none
    | some (_, .endGroup, rest) => some rest
    | some (_, .startGroup, rest) => (skipGroup rounds rest).bind (skipGroup rounds)
    | some (_, wire, rest) => (skipValue wire rest).bind (skipGroup rounds)

/-- `read_unknown_or_skip_group`. -/
def skipUnknown (wire : WireType) (bytes : Bytes) : Option Bytes :=
  match wire with
  | .startGroup => skipGroup bytes.length bytes
  | wire => skipValue wire bytes

end Protobuf
