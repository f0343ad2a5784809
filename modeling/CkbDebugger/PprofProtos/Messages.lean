import CkbDebugger.Protobuf.Message

/-!
# The messages of profile.proto

The message types that are generated from `profile.proto`, with all of their fields in the
order in which they are written. Fields that a reader does not know are not kept, which the
generated code does in `unknown_fields`.
-/
namespace Protos

open Protobuf (Field Message Scalar Part Bytes)

structure ValueType where
  fieldType : Int64
  unit : Int64
  deriving Repr, DecidableEq

structure Label where
  key : Int64
  str : Int64
  num : Int64
  numUnit : Int64
  deriving Repr, DecidableEq

structure Sample where
  locationId : List UInt64
  value : List Int64
  label : List Label
  deriving Repr, DecidableEq

structure Mapping where
  id : UInt64
  memoryStart : UInt64
  memoryLimit : UInt64
  fileOffset : UInt64
  filename : Int64
  buildId : Int64
  hasFunctions : Bool
  hasFilenames : Bool
  hasLineNumbers : Bool
  hasInlineFrames : Bool
  deriving Repr, DecidableEq

structure Line where
  functionId : UInt64
  line : Int64
  deriving Repr, DecidableEq

structure Location where
  id : UInt64
  mappingId : UInt64
  address : UInt64
  line : List Line
  isFolded : Bool
  deriving Repr, DecidableEq

structure Function where
  id : UInt64
  name : Int64
  systemName : Int64
  filename : Int64
  startLine : Int64
  deriving Repr, DecidableEq

structure Profile where
  sampleType : List ValueType
  sample : List Sample
  mapping : List Mapping
  location : List Location
  function : List Function
  stringTable : List String
  dropFrames : Int64
  keepFrames : Int64
  timeNanos : Int64
  durationNanos : Int64
  periodType : Option ValueType
  period : Int64
  comment : List Int64
  defaultSampleType : Int64
  deriving Repr, DecidableEq

/-! ### Their fields -/

def ValueType.message : Message ValueType where
  empty := ⟨0, 0⟩
  fields := [
    .singular 1 .int64 (.mk fieldType fun v m => { m with fieldType := v }),
    .singular 2 .int64 (.mk unit fun v m => { m with unit := v })]

def Label.message : Message Label where
  empty := ⟨0, 0, 0, 0⟩
  fields := [
    .singular 1 .int64 (.mk key fun v m => { m with key := v }),
    .singular 2 .int64 (.mk str fun v m => { m with str := v }),
    .singular 3 .int64 (.mk num fun v m => { m with num := v }),
    .singular 4 .int64 (.mk numUnit fun v m => { m with numUnit := v })]

def Sample.message : Message Sample where
  empty := ⟨[], [], []⟩
  fields := [
    .repeated 1 .uint64 (.mk locationId fun v m => { m with locationId := v }),
    .repeated 2 .int64 (.mk value fun v m => { m with value := v }),
    .messages 3 Label.message (.mk label fun v m => { m with label := v })]

def Mapping.message : Message Mapping where
  empty := ⟨0, 0, 0, 0, 0, 0, false, false, false, false⟩
  fields := [
    .singular 1 .uint64 (.mk id fun v m => { m with id := v }),
    .singular 2 .uint64 (.mk memoryStart fun v m => { m with memoryStart := v }),
    .singular 3 .uint64 (.mk memoryLimit fun v m => { m with memoryLimit := v }),
    .singular 4 .uint64 (.mk fileOffset fun v m => { m with fileOffset := v }),
    .singular 5 .int64 (.mk filename fun v m => { m with filename := v }),
    .singular 6 .int64 (.mk buildId fun v m => { m with buildId := v }),
    .singular 7 .bool (.mk hasFunctions fun v m => { m with hasFunctions := v }),
    .singular 8 .bool (.mk hasFilenames fun v m => { m with hasFilenames := v }),
    .singular 9 .bool (.mk hasLineNumbers fun v m => { m with hasLineNumbers := v }),
    .singular 10 .bool (.mk hasInlineFrames fun v m => { m with hasInlineFrames := v })]

def Line.message : Message Line where
  empty := ⟨0, 0⟩
  fields := [
    .singular 1 .uint64 (.mk functionId fun v m => { m with functionId := v }),
    .singular 2 .int64 (.mk line fun v m => { m with line := v })]

def Location.message : Message Location where
  empty := ⟨0, 0, 0, [], false⟩
  fields := [
    .singular 1 .uint64 (.mk id fun v m => { m with id := v }),
    .singular 2 .uint64 (.mk mappingId fun v m => { m with mappingId := v }),
    .singular 3 .uint64 (.mk address fun v m => { m with address := v }),
    .messages 4 Line.message (.mk line fun v m => { m with line := v }),
    .singular 5 .bool (.mk isFolded fun v m => { m with isFolded := v })]

def Function.message : Message Function where
  empty := ⟨0, 0, 0, 0, 0⟩
  fields := [
    .singular 1 .uint64 (.mk id fun v m => { m with id := v }),
    .singular 2 .int64 (.mk name fun v m => { m with name := v }),
    .singular 3 .int64 (.mk systemName fun v m => { m with systemName := v }),
    .singular 4 .int64 (.mk filename fun v m => { m with filename := v }),
    .singular 5 .int64 (.mk startLine fun v m => { m with startLine := v })]

def Profile.message : Message Profile where
  empty := ⟨[], [], [], [], [], [], 0, 0, 0, 0, none, 0, [], 0⟩
  fields := [
    .messages 1 ValueType.message (.mk sampleType fun v m => { m with sampleType := v }),
    .messages 2 Sample.message (.mk sample fun v m => { m with sample := v }),
    .messages 3 Mapping.message (.mk mapping fun v m => { m with mapping := v }),
    .messages 4 Location.message (.mk location fun v m => { m with location := v }),
    .messages 5 Function.message (.mk function fun v m => { m with function := v }),
    .strings 6 (.mk stringTable fun v m => { m with stringTable := v }),
    .singular 7 .int64 (.mk dropFrames fun v m => { m with dropFrames := v }),
    .singular 8 .int64 (.mk keepFrames fun v m => { m with keepFrames := v }),
    .singular 9 .int64 (.mk timeNanos fun v m => { m with timeNanos := v }),
    .singular 10 .int64 (.mk durationNanos fun v m => { m with durationNanos := v }),
    .message 11 ValueType.message (.mk periodType fun v m => { m with periodType := v }),
    .singular 12 .int64 (.mk period fun v m => { m with period := v }),
    .repeated 13 .int64 (.mk comment fun v m => { m with comment := v }),
    .singular 14 .int64 (.mk defaultSampleType fun v m => { m with defaultSampleType := v })]

/-! ### They are lawful -/

theorem ValueType.lawful : ValueType.message.Lawful where
  fields := by
    simp only [message, List.forall_mem_cons]
    exact ⟨.singular (by decide) _ _, .singular (by decide) _ _, by simp⟩
  numbers := by decide
  fills := by
    rintro ⟨⟩
    exact ⟨rfl, rfl, rfl⟩

theorem Label.lawful : Label.message.Lawful where
  fields := by
    simp only [message, List.forall_mem_cons]
    exact ⟨.singular (by decide) _ _, .singular (by decide) _ _, .singular (by decide) _ _,
      .singular (by decide) _ _, by simp⟩
  numbers := by decide
  fills := by
    rintro ⟨⟩
    exact ⟨rfl, rfl, rfl, rfl, rfl⟩

theorem Sample.lawful : Sample.message.Lawful where
  fields := by
    simp only [message, List.forall_mem_cons]
    exact ⟨.repeated (by decide) _ _, .repeated (by decide) _ _, .messages (by decide) Label.lawful _,
      by simp⟩
  numbers := by decide
  fills := by
    rintro ⟨⟩
    exact ⟨rfl, rfl, rfl, rfl⟩

theorem Mapping.lawful : Mapping.message.Lawful where
  fields := by
    simp only [message, List.forall_mem_cons]
    exact ⟨.singular (by decide) _ _, .singular (by decide) _ _, .singular (by decide) _ _,
      .singular (by decide) _ _, .singular (by decide) _ _, .singular (by decide) _ _,
      .singular (by decide) _ _, .singular (by decide) _ _, .singular (by decide) _ _,
      .singular (by decide) _ _, by simp⟩
  numbers := by decide
  fills := by
    rintro ⟨⟩
    exact ⟨rfl, rfl, rfl, rfl, rfl, rfl, rfl, rfl, rfl, rfl, rfl⟩

theorem Line.lawful : Line.message.Lawful where
  fields := by
    simp only [message, List.forall_mem_cons]
    exact ⟨.singular (by decide) _ _, .singular (by decide) _ _, by simp⟩
  numbers := by decide
  fills := by
    rintro ⟨⟩
    exact ⟨rfl, rfl, rfl⟩

theorem Location.lawful : Location.message.Lawful where
  fields := by
    simp only [message, List.forall_mem_cons]
    exact ⟨.singular (by decide) _ _, .singular (by decide) _ _, .singular (by decide) _ _,
      .messages (by decide) Line.lawful _, .singular (by decide) _ _, by simp⟩
  numbers := by decide
  fills := by
    rintro ⟨⟩
    exact ⟨rfl, rfl, rfl, rfl, rfl, rfl⟩

theorem Function.lawful : Function.message.Lawful where
  fields := by
    simp only [message, List.forall_mem_cons]
    exact ⟨.singular (by decide) _ _, .singular (by decide) _ _, .singular (by decide) _ _,
      .singular (by decide) _ _, .singular (by decide) _ _, by simp⟩
  numbers := by decide
  fills := by
    rintro ⟨⟩
    exact ⟨rfl, rfl, rfl, rfl, rfl, rfl⟩

theorem Profile.lawful : Profile.message.Lawful where
  fields := by
    simp only [message, List.forall_mem_cons]
    exact ⟨.messages (by decide) ValueType.lawful _, .messages (by decide) Sample.lawful _,
      .messages (by decide) Mapping.lawful _, .messages (by decide) Location.lawful _,
      .messages (by decide) Function.lawful _, .strings (by decide) _, .singular (by decide) _ _,
      .singular (by decide) _ _, .singular (by decide) _ _, .singular (by decide) _ _,
      .message (by decide) ValueType.lawful _, .singular (by decide) _ _, .repeated (by decide) _ _,
      .singular (by decide) _ _, by simp⟩
  numbers := by decide
  fills := by
    rintro ⟨⟩
    exact ⟨rfl, rfl, rfl, rfl, rfl, rfl, rfl, rfl, rfl, rfl, rfl, rfl, rfl, rfl, rfl⟩

/-!
### What is written reads back

The length of a profile is computed once, as a `u32`, and the buffer is filled up to that length, so a profile
whose encoding reaches `2^32` bytes is refused. Every other one is written, and what is read from the file is
the profile itself, in all fourteen fields and in every message nested in it. The `unknown_fields` that a
generated message has besides stay empty in a message that is built by the tools, and are not modelled.
-/

theorem Profile.written_reads_back (profile : Profile) :
    ((∃ bytes, Profile.message.writeToBytes profile = some bytes) ↔
        (Profile.message.write profile).length < 2 ^ 32) ∧
      ∀ bytes, Profile.message.writeToBytes profile = some bytes → Profile.message.parse bytes = some profile := by
  constructor
  · constructor
    · rintro ⟨bytes, written⟩
      exact ((Profile.lawful.writeToBytes_eq_some_iff profile bytes).mp written).2
    · intro fits
      exact ⟨_, (Profile.lawful.writeToBytes_eq_some_iff profile _).mpr ⟨rfl, fits⟩⟩
  · intro bytes written
    exact Profile.lawful.parse_of_writeToBytes written

/-- One sample of two locations, counted 300 times, its period of a type of its own. -/
def Profile.ofOneSample : Profile :=
  { Profile.message.empty with
    sample := [{ locationId := [1, 2], value := [300, -1], label := [] }]
    stringTable := ["", "main"]
    periodType := some { fieldType := 1, unit := 0 } }

theorem Profile.ofOneSample_reads_back :
    ∃ bytes, Profile.message.writeToBytes ofOneSample = some bytes ∧
      Profile.message.parse bytes = some ofOneSample := by
  have small : (Profile.message.write ofOneSample).length < 2 ^ 32 := by decide +kernel
  obtain ⟨bytes, written⟩ := (written_reads_back ofOneSample).1.mpr small
  exact ⟨bytes, written, (written_reads_back ofOneSample).2 bytes written⟩

end Protos
