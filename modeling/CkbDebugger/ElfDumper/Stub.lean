import Mathlib.Tactic.IntervalCases
import CkbDebugger.ElfDumper.Segments

/-!
# The stub that restores the registers

The dump starts with code of its own: it loads all registers from a table in
front of it and then jumps to where the machine was. The jump is a `JAL`, whose
immediate has 21 bits; the dumper rejects offsets that it holds to be too large.
-/
namespace ElfDumper

/-- `auipc a0, 0x0`, `addi a0, a0, -256`, a load for each register but `a0`, and
the load of `a0` itself. -/
def restoreInstructions : List Nat :=
  [0x00000517, 0xf0050513, 0x00853083, 0x01053103, 0x01853183, 0x02053203, 0x02853283, 0x03053303,
   0x03853383, 0x04053403, 0x04853483, 0x05853583, 0x06053603, 0x06853683, 0x07053703, 0x07853783,
   0x08053803, 0x08853883, 0x09053903, 0x09853983, 0x0a053a03, 0x0a853a83, 0x0b053b03, 0x0b853b83,
   0x0c053c03, 0x0c853c83, 0x0d053d03, 0x0d853d83, 0x0e053e03, 0x0e853e83, 0x0f053f03, 0x0f853f83,
   0x05053503]

/-- The table of the registers `x1` to `x31`. -/
def registerTable (m : Machine) : List UInt8 :=
  (List.finRange 31).flatMap fun i => leBytes 8 (m.registers i.succ).toNat

/-- `register_buffer` before the jump is written to it. -/
def registerBuffer (m : Machine) : List UInt8 :=
  registerTable m ++ restoreInstructions.flatMap (leBytes 4)

def registerBufferStart (first : Segment) : Nat := first.firstPageAddress - pageSize

/-- `jump_offset`, with the subtraction modulo 2^64. -/
def jumpOffset (m : Machine) (first : Segment) : BitVec 64 :=
  m.pc.toBitVec - BitVec.ofNat 64 (registerBufferStart first + (registerBuffer m).length)

def jumpMask : BitVec 64 := 0xFFFFFFFFFFE00001#64

/-- The offsets that `ecall` does not reject. -/
def jumpAccepted (offset : BitVec 64) : Bool :=
  offset &&& jumpMask == 0#64 || offset &&& jumpMask == 0xFFFFFFFFFFE00000#64

def jumpInstruction (offset : BitVec 64) : BitVec 32 :=
  0b1101111#32
    ||| ((offset >>> 12 &&& 0xff#64).setWidth 32) <<< 12
    ||| ((offset >>> 11 &&& 1#64).setWidth 32) <<< 20
    ||| ((offset >>> 1 &&& 0x3ff#64).setWidth 32) <<< 21
    ||| ((offset >>> 20 &&& 1#64).setWidth 32) <<< 31

/-- The stub as a segment, in the page before the first segment. -/
def registerStub (m : Machine) (first : Segment) : Except String Segment :=
  if jumpAccepted (jumpOffset m first) then
    .ok ⟨registerBufferStart first,
      registerBuffer m ++ leBytes 4 (jumpInstruction (jumpOffset m first)).toNat, true⟩
  else .error "Unexpected masked"

/-! ### The jump -/

/-- A decoded `JAL`. -/
structure Jal where
  rd : BitVec 5
  imm : BitVec 21
  deriving Repr, DecidableEq

/-- The J-format of RISC-V: `imm[20|10:1|11|19:12] rd opcode`. -/
def decodeJal (word : BitVec 32) : Option Jal :=
  if word.extractLsb' 0 7 = 0b1101111#7 then
    some ⟨word.extractLsb' 7 5, word.extractLsb' 31 1 ++ word.extractLsb' 12 8 ++
      word.extractLsb' 20 1 ++ word.extractLsb' 21 10 ++ 0#1⟩
  else none

/-- The fields of the jump instruction are the opcode, register 0, and the parts
of the offset at their scrambled places. -/
theorem jumpInstruction_fields (offset : BitVec 64) :
    (jumpInstruction offset).extractLsb' 0 7 = 0b1101111#7 ∧
    (jumpInstruction offset).extractLsb' 7 5 = 0#5 ∧
    (jumpInstruction offset).extractLsb' 12 8 = offset.extractLsb' 12 8 ∧
    (jumpInstruction offset).extractLsb' 20 1 = offset.extractLsb' 11 1 ∧
    (jumpInstruction offset).extractLsb' 21 10 = offset.extractLsb' 1 10 ∧
    (jumpInstruction offset).extractLsb' 31 1 = offset.extractLsb' 20 1 := by
  refine ⟨?_, ?_, ?_, ?_, ?_, ?_⟩
  -- bit by bit: the shifted parts do not overlap
  all_goals
    apply BitVec.eq_of_getLsbD_eq
    intro i inside
    interval_cases i <;> simp [jumpInstruction]

theorem decodeJal_jumpInstruction (offset : BitVec 64) (even : offset[0] = false) :
    decodeJal (jumpInstruction offset) = some ⟨0#5, offset.setWidth 21⟩ := by
  obtain ⟨opcode, rd, high, middle, low, sign⟩ := jumpInstruction_fields offset
  have imm : offset.extractLsb' 20 1 ++ offset.extractLsb' 12 8 ++ offset.extractLsb' 11 1 ++
      offset.extractLsb' 1 10 ++ 0#1 = offset.setWidth 21 := by
    apply BitVec.eq_of_getLsbD_eq
    intro i inside
    rw [BitVec.getLsbD_append, BitVec.getLsbD_append, BitVec.getLsbD_append, BitVec.getLsbD_append]
    interval_cases i <;> simp [even]
  rw [decodeJal, if_pos opcode, rd, high, middle, low, sign, imm]

/-- A 64-bit offset survives the cut to 21 bits exactly when it fits. -/
theorem signExtend_setWidth_eq_iff (offset : BitVec 64) :
    (offset.setWidth 21).signExtend 64 = offset ↔ -2 ^ 20 ≤ offset.toInt ∧ offset.toInt < 2 ^ 20 := by
  rw [← BitVec.toInt_inj, BitVec.toInt_signExtend_of_le (by omega), BitVec.toInt_setWidth,
    BitVec.toInt_eq_toNat_bmod]
  have bound := offset.isLt
  simp only [Int.bmod]
  omega

theorem even_of_accepted {offset : BitVec 64} (accepted : jumpAccepted offset = true) :
    offset[0] = false := by
  -- the mask holds the lowest bit, and both accepted values have it clear
  simp only [jumpAccepted, Bool.or_eq_true, beq_iff_eq] at accepted
  rcases accepted with masked | masked
  · have bit := congrArg (fun v => v[0]) masked
    simpa [jumpMask] using bit
  · have bit := congrArg (fun v => v[0]) masked
    simpa [jumpMask] using bit

theorem length_registerTable (m : Machine) : (registerTable m).length = 248 := by
  simp [registerTable, List.length_flatMap]

@[simp] theorem length_registerBuffer (m : Machine) : (registerBuffer m).length = 380 := by
  have code : (restoreInstructions.flatMap (leBytes 4)).length = 132 := by
    simp [restoreInstructions]
  rw [registerBuffer, List.length_append, length_registerTable, code]

theorem jumpOffset_eq (m : Machine) (first : Segment) :
    jumpOffset m first = m.pc.toBitVec - BitVec.ofNat 64 (registerBufferStart first + 380) := by
  rw [jumpOffset, length_registerBuffer]

theorem registerStub_of_accepted (m : Machine) (first : Segment)
    (accepted : jumpAccepted (jumpOffset m first) = true) :
    registerStub m first = .ok ⟨registerBufferStart first,
      registerBuffer m ++ leBytes 4 (jumpInstruction (jumpOffset m first)).toNat, true⟩ :=
  if_pos accepted

/-- The stub ends with a `JAL` that links nowhere and goes to the machine's program
counter. -/
def Resumes (m : Machine) (stub : Segment) : Prop :=
  ∃ imm, decodeJal (BitVec.ofNat 32 (Bytes.field 380 4 stub.data)) = some ⟨0#5, imm⟩ ∧
    BitVec.ofNat 64 (stub.start + 380) + imm.signExtend 64 = m.pc.toBitVec

/-- The jump is the last word of the stub, after 31 registers and 33 instructions. -/
theorem decodeJal_stub {m : Machine} {first stub : Segment} (made : registerStub m first = .ok stub) :
    decodeJal (BitVec.ofNat 32 (Bytes.field 380 4 stub.data)) =
      some ⟨0#5, (jumpOffset m first).setWidth 21⟩ := by
  unfold registerStub at made
  split at made
  next accepted =>
    simp only [Except.ok.injEq] at made
    subst made
    have part := Bytes.slice_middle (registerBuffer m)
      (leBytes 4 (jumpInstruction (jumpOffset m first)).toNat) []
    rw [List.append_nil, length_registerBuffer, Bytes.length_leBytes] at part
    rw [Bytes.field, part, Bytes.leValue_leBytes_of_lt 4 (jumpInstruction (jumpOffset m first)).isLt,
      BitVec.ofNat_toNat, BitVec.setWidth_eq]
    exact decodeJal_jumpInstruction (jumpOffset m first) (even_of_accepted accepted)
  · cases made

theorem registerStub_bounds {m : Machine} {first stub : Segment}
    (made : registerStub m first = .ok stub) :
    stub.start = registerBufferStart first ∧ stub.data.length = 384 := by
  unfold registerStub at made
  split at made
  · simp only [Except.ok.injEq] at made
    rw [← made]
    exact ⟨rfl, by simp⟩
  · cases made

theorem resumes_iff_signExtend {m : Machine} {first stub : Segment}
    (made : registerStub m first = .ok stub) :
    Resumes m stub ↔ ((jumpOffset m first).setWidth 21).signExtend 64 = jumpOffset m first := by
  have target : m.pc.toBitVec = BitVec.ofNat 64 (stub.start + 380) + jumpOffset m first := by
    rw [(registerStub_bounds made).1, jumpOffset_eq, BitVec.add_comm, BitVec.sub_add_cancel]
  simp only [Resumes, decodeJal_stub made, target]
  constructor
  · rintro ⟨imm, same, reached⟩
    cases same
    exact (BitVec.add_right_inj _).mp reached
  · intro fits
    exact ⟨_, rfl, by rw [fits]⟩

/-- The dump resumes at the machine's program counter exactly when that lies
within the reach of a `JAL`, which is one bit less than what is accepted. -/
theorem stub_resumes_iff {m : Machine} {first stub : Segment}
    (made : registerStub m first = .ok stub) :
    Resumes m stub ↔
      -2 ^ 20 ≤ (jumpOffset m first).toInt ∧ (jumpOffset m first).toInt < 2 ^ 20 := by
  rw [resumes_iff_signExtend made, signExtend_setWidth_eq_iff]

/-- A machine whose first segment starts on the page at `0x11000`. -/
def resumingAt (pc : UInt64) : Machine := ⟨fun _ => 0, pc, fun _ => 0, fun _ => 0⟩

theorem stub_resumes_next_page : ∃ stub,
    registerStub (resumingAt 0x11000) ⟨0x11000, [], true⟩ = .ok stub ∧
      Resumes (resumingAt 0x11000) stub := by
  have made := registerStub_of_accepted (resumingAt 0x11000) ⟨0x11000, [], true⟩
    (by rw [jumpOffset_eq]; decide)
  exact ⟨_, made, (stub_resumes_iff made).mpr (by rw [jumpOffset_eq]; decide)⟩

/-- An offset of exactly 2^20 is accepted and jumps 2^20 bytes backwards. -/
theorem stub_misses_far_pc : ∃ stub,
    registerStub (resumingAt 0x11017c) ⟨0x11000, [], true⟩ = .ok stub ∧
      ¬Resumes (resumingAt 0x11017c) stub := by
  have made := registerStub_of_accepted (resumingAt 0x11017c) ⟨0x11000, [], true⟩
    (by rw [jumpOffset_eq]; decide)
  refine ⟨_, made, ?_⟩
  rw [resumes_iff_signExtend made, jumpOffset_eq]
  decide

end ElfDumper
