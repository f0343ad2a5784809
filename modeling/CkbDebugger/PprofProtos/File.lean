import CkbDebugger.PprofProtos.Meaning
import CkbDebugger.PprofProtos.Messages

/-!
# The file of a profile

Both builders end with `write_to_bytes`. The numbers of a profile are small where the file
can be written, so that a reader of the file finds the whole profile in it.
-/
namespace PprofProtos

open Protobuf (Bytes Field)

/-! ### The message of a profile -/

def ValueType.toMessage (value : ValueType) : Protos.ValueType :=
  ⟨Int64.ofNat value.fieldType, Int64.ofNat value.unit⟩

def Sample.toMessage (sample : Sample) : Protos.Sample :=
  ⟨sample.locationId.map UInt64.ofNat, sample.value, []⟩

def Line.toMessage (line : Line) : Protos.Line := ⟨UInt64.ofNat line.functionId, line.line⟩

def Location.toMessage (location : Location) : Protos.Location :=
  ⟨UInt64.ofNat location.id, 0, 0, location.line.map Line.toMessage, false⟩

def Function.toMessage (function : Function) : Protos.Function :=
  ⟨UInt64.ofNat function.id, Int64.ofNat function.name, Int64.ofNat function.systemName,
    Int64.ofNat function.filename, 0⟩

/-- The message that the builders fill; the other fields keep their defaults. -/
def Profile.toMessage (profile : Profile) : Protos.Profile :=
  { Protos.Profile.message.empty with
    sampleType := profile.sampleType.map ValueType.toMessage
    sample := profile.sample.map Sample.toMessage
    location := profile.location.map Location.toMessage
    function := profile.function.map Function.toMessage
    stringTable := profile.stringTable
    timeNanos := profile.timeNanos
    durationNanos := profile.durationNanos
    periodType := profile.periodType.map ValueType.toMessage
    period := profile.period }

/-- `write_to_bytes` on a profile. -/
def Profile.writeToBytes (profile : Profile) : Option Bytes := Protos.Profile.message.writeToBytes profile.toMessage

/-! ### The profile of a message -/

def ValueType.ofMessage (value : Protos.ValueType) : ValueType := ⟨value.fieldType.toInt.toNat, value.unit.toInt.toNat⟩

def Sample.ofMessage (sample : Protos.Sample) : Sample := ⟨sample.locationId.map UInt64.toNat, sample.value⟩

def Line.ofMessage (line : Protos.Line) : Line := ⟨line.functionId.toNat, line.line⟩

def Location.ofMessage (location : Protos.Location) : Location :=
  ⟨location.id.toNat, location.line.map Line.ofMessage⟩

def Function.ofMessage (function : Protos.Function) : Function :=
  ⟨function.id.toNat, function.name.toInt.toNat, function.systemName.toInt.toNat, function.filename.toInt.toNat⟩

/-- What the message of a file says. -/
def Profile.ofMessage (message : Protos.Profile) : Profile where
  sampleType := message.sampleType.map ValueType.ofMessage
  sample := message.sample.map Sample.ofMessage
  location := message.location.map Location.ofMessage
  function := message.function.map Function.ofMessage
  stringTable := message.stringTable
  timeNanos := message.timeNanos
  durationNanos := message.durationNanos
  periodType := message.periodType.map ValueType.ofMessage
  period := message.period

/-- What a reader of a file finds in it. -/
def readProfile (bytes : Bytes) : Option Profile := (Protos.Profile.message.parse bytes).map Profile.ofMessage

/-! ### Small numbers -/

theorem toNat_ofNat_int64 {n : Nat} (small : n < 2 ^ 63) : (Int64.ofNat n).toInt.toNat = n := by
  rw [Int64.toInt_ofNat_of_lt small, Int.toNat_natCast]

theorem toNat_ofNat_uint64 {n : Nat} (small : n < 2 ^ 63) : (UInt64.ofNat n).toNat = n :=
  UInt64.toNat_ofNat_of_lt' (Nat.lt_trans small (by decide))

theorem map_eq_self {α : Type} {f : α → α} {l : List α} (same : ∀ a ∈ l, f a = a) : l.map f = l := by
  rw [List.map_congr_left same, List.map_id']

/-- No index and no id of a profile is out of the range of its type. -/
structure Small (profile : Profile) : Prop where
  valueTypes : ∀ value, value ∈ profile.sampleType ∨ profile.periodType = some value →
    value.fieldType < 2 ^ 63 ∧ value.unit < 2 ^ 63
  samples : ∀ sample ∈ profile.sample, ∀ loc ∈ sample.locationId, loc < 2 ^ 63
  locations : ∀ location ∈ profile.location, location.id < 2 ^ 63 ∧
    ∀ line ∈ location.line, line.functionId < 2 ^ 63
  functions : ∀ function ∈ profile.function, function.id < 2 ^ 63 ∧ function.name < 2 ^ 63 ∧
    function.systemName < 2 ^ 63 ∧ function.filename < 2 ^ 63

/-- A profile with small numbers is what its message says. -/
theorem ofMessage_toMessage {profile : Profile} (small : Small profile) :
    Profile.ofMessage profile.toMessage = profile := by
  have valueType (value : ValueType) (inside : value ∈ profile.sampleType ∨ profile.periodType = some value) :
      ValueType.ofMessage value.toMessage = value := by
    obtain ⟨fieldType, unit⟩ := small.valueTypes value inside
    simp only [ValueType.ofMessage, ValueType.toMessage, toNat_ofNat_int64 fieldType, toNat_ofNat_int64 unit]
  have sample (sample : Sample) (member : sample ∈ profile.sample) : Sample.ofMessage sample.toMessage = sample := by
    have locs := map_eq_self (f := UInt64.toNat ∘ UInt64.ofNat) fun loc inside =>
      toNat_ofNat_uint64 (small.samples sample member loc inside)
    simp only [Sample.ofMessage, Sample.toMessage, List.map_map, locs]
  have location (location : Location) (member : location ∈ profile.location) :
      Location.ofMessage location.toMessage = location := by
    obtain ⟨id, functionIds⟩ := small.locations location member
    have lines := map_eq_self (f := Line.ofMessage ∘ Line.toMessage) (l := location.line) fun line inside => by
      simp only [Function.comp, Line.ofMessage, Line.toMessage, toNat_ofNat_uint64 (functionIds line inside)]
    simp only [Location.ofMessage, Location.toMessage, List.map_map, lines, toNat_ofNat_uint64 id]
  have function (function : Function) (member : function ∈ profile.function) :
      Function.ofMessage function.toMessage = function := by
    obtain ⟨id, name, systemName, filename⟩ := small.functions function member
    simp only [Function.ofMessage, Function.toMessage, toNat_ofNat_uint64 id, toNat_ofNat_int64 name,
      toNat_ofNat_int64 systemName, toNat_ofNat_int64 filename]
  have periodType : (profile.periodType.map ValueType.toMessage).map ValueType.ofMessage = profile.periodType := by
    cases known : profile.periodType with
    | none => rfl
    | some value => rw [Option.map_some, Option.map_some, valueType value (.inr known)]
  simp only [Profile.ofMessage, Profile.toMessage, List.map_map, periodType,
    map_eq_self (f := ValueType.ofMessage ∘ ValueType.toMessage) fun value member => valueType value (.inl member),
    map_eq_self (f := Sample.ofMessage ∘ Sample.toMessage) sample,
    map_eq_self (f := Location.ofMessage ∘ Location.toMessage) location,
    map_eq_self (f := Function.ofMessage ∘ Function.toMessage) function]

/-! ### Profiles that can be written -/

/-- Every part of a field takes a byte or more. -/
theorem length_le_length_parts {α : Type} (write : α → Bytes) (items : List α)
    (filled : ∀ item, write item ≠ []) : items.length ≤ (items.flatMap write).length := by
  induction items with
  | nil => exact Nat.le_refl 0
  | cons item items ih =>
    have one := List.length_pos_iff.mpr (filled item)
    rw [List.flatMap_cons, List.length_append, List.length_cons]
    omega

/-- The tables of a profile have less entries than the file has bytes. -/
theorem tables_lt_of_write {profile : Profile} {size : Nat}
    (fits : (Protos.Profile.message.write profile.toMessage).length < size) :
    profile.stringTable.length < size ∧ profile.function.length < size := by
  have part (i : Nat) (inside : i < Protos.Profile.message.fields.length) :
      ((Protos.Profile.message.fields[i]).write profile.toMessage).length < size :=
    Nat.lt_of_le_of_lt (Protobuf.length_part_le (fun field => Field.write field profile.toMessage)
      (List.getElem_mem inside)) fits
  have tagged (number : Nat) (bytes : Bytes) : Protobuf.writeTag number .lengthDelimited ++ bytes ≠ [] := by
    simp [Protobuf.writeTag_ne_nil]
  constructor
  · exact Nat.lt_of_le_of_lt (length_le_length_parts _ profile.stringTable fun text => tagged _ _) (part 5 (by decide))
  · have parts := length_le_length_parts (Protos.Function.message.writeNested 5)
      (profile.function.map Function.toMessage) fun function => tagged _ _
    rw [List.length_map] at parts
    exact Nat.lt_of_le_of_lt parts (part 4 (by decide))

theorem text_lt {profile : Profile} {index : Nat} {text : String} (known : profile.text index = some text) :
    index < profile.stringTable.length := (List.getElem?_eq_some_iff.mp known).1

/-- A valid profile refers to nothing that is not there, so that its numbers are as small as its
tables. -/
theorem small_of_valid {σ : Type} {source : Source σ} {frames : List (List σ × UInt64)} {profile : Profile}
    (valid : Valid source frames profile) (texts : profile.stringTable.length < 2 ^ 32)
    (functions : profile.function.length < 2 ^ 32) : Small profile := by
  have large : (2 : Nat) ^ 32 < 2 ^ 63 := by decide
  have text {index : Nat} {s : String} (known : profile.text index = some s) : index < 2 ^ 63 :=
    Nat.lt_trans (Nat.lt_trans (text_lt known) texts) large
  have id {n : Nat} (member : n ∈ List.range' 1 profile.function.length) : n < 2 ^ 63 := by
    have bound := (List.mem_range'_1.mp member).2
    omega
  have locationId (location : Location) (member : location ∈ profile.location) : location.id < 2 ^ 63 :=
    id (valid.locationIds ▸ List.mem_map_of_mem member)
  refine ⟨?_, ?_, ?_, ?_⟩
  · obtain ⟨samples, time, types, period, samplesType, samplesUnit, timeType, timeUnit⟩ := valid.valueTypes
    rw [types, period]
    intro value member
    have either : value = samples ∨ value = time := by
      simp only [List.mem_cons, List.not_mem_nil, or_false, Option.some.injEq] at member
      rcases member with member | same
      · exact member
      · exact .inr same.symm
    rcases either with rfl | rfl
    · exact ⟨text samplesType, text samplesUnit⟩
    · exact ⟨text timeType, text timeUnit⟩
  · intro sample member loc inside
    obtain ⟨frame, -, ⟨resolved, -⟩⟩ := exists_of_forall₂ valid.samples.flip member
    obtain ⟨symbol, -, location, present, rfl, -⟩ := exists_of_forall₂ resolved.flip inside
    exact locationId location present
  · intro location member
    obtain ⟨line, lines, same⟩ := valid.lines location member
    refine ⟨locationId location member, fun other inside => ?_⟩
    rw [lines, List.mem_singleton] at inside
    rw [inside, same]
    exact locationId location member
  · intro function member
    obtain ⟨symbol, -, name, systemName, filename⟩ := valid.functionTexts function member
    exact ⟨id (valid.functionIds ▸ List.mem_map_of_mem member), text name, text systemName, text filename⟩

/-- A reader of the file of a valid profile finds the profile. -/
theorem readProfile_of_writeToBytes {σ : Type} {source : Source σ} {frames : List (List σ × UInt64)}
    {profile : Profile} {bytes : Bytes} (valid : Valid source frames profile)
    (written : profile.writeToBytes = some bytes) : readProfile bytes = some profile := by
  have fits := ((Protos.Profile.lawful.writeToBytes_eq_some_iff _ _).mp written).2
  have tables := tables_lt_of_write fits
  rw [readProfile, Protos.Profile.lawful.parse_of_writeToBytes written, Option.map_some,
    ofMessage_toMessage (small_of_valid valid tables.1 tables.2)]

end PprofProtos
