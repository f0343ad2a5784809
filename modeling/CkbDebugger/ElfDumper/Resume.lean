import CkbDebugger.ElfDumper.Restore

/-!
# The dump as a program

A dump is loaded like any other program and run from its entry point. The stub and its jump are 34
instructions, after which the machine is to be in the state that was dumped: with its registers, at its
program counter, and with its memory, but for the stub itself.
-/
namespace ElfDumper

open Bytes (field slice)
open Riscv (Word Memory Holds line)

/-! ### Loading and running a file -/

/-- `JAL`: the address of the next instruction goes to the register, and the offset counts from this one. -/
def Jal.exec (jal : Jal) (s : Riscv.State) : Riscv.State :=
  { s.set jal.rd.toFin (s.pc + 4) with pc := s.pc + jal.imm.signExtend 64 }

def memoryOf (file : List UInt8) (headers : List ProgramHeader) : Memory := fun a => loadSegments file headers a.toNat

/-- Load a file into a machine with some registers, and run 33 instructions and a jump. -/
def restart (file : List UInt8) (registers : Fin 32 → Word) : Option (Riscv.State × Memory) := do
  let headers ← readProgramHeaders file
  let mem := memoryOf file headers
  let (s, _) ← Riscv.run mem 33 ⟨BitVec.ofNat 64 (field 24 8 file), registers⟩
  let jal ← decodeJal (Riscv.fetch mem s.pc)
  return (jal.exec s, mem)

/-! ### The loaded memory -/

section Loaded

variable {m : Machine} {segments : List Segment} {stub : Segment} {entry : Nat}

/-- The stub is loaded last, and its data is in the file. -/
theorem loaded_inside {a : Nat} (inside : stub.Contains a) :
    loadSegments (emitElf (segments ++ [stub]) entry) ((placed 68 segments).map loadHeader ++
      [loadHeader (68 + (segments.flatMap Segment.data).length, stub)]) a = stub.data.getD (a - stub.start) 0 := by
  have last : (68 + (segments.flatMap Segment.data).length, stub) ∈ placed 68 (segments ++ [stub]) := by
    rw [placed_append]
    exact List.mem_append_right _ List.mem_cons_self
  have data := (slice_emitElf entry last).1
  simp only at data
  rw [loadSegments_concat, if_pos ((contains_loadHeader_iff _ a).mpr inside)]
  simp only [loadHeader]
  obtain ⟨above, below⟩ := inside
  unfold Segment.stop at below
  conv_rhs => rw [← data]
  simp only [List.getD_eq_getElem?_getD]
  rw [slice, List.getElem?_take_of_lt (by omega), List.getElem?_drop]

/-- Everywhere else there is what the machine had. -/
theorem loaded_outside (extracted : Extracted m segments (pages * pageSize)) {a : Nat} (below : a < pages * pageSize)
    (outside : ¬stub.Contains a) :
    loadSegments (emitElf (segments ++ [stub]) entry) ((placed 68 segments).map loadHeader ++
      [loadHeader (68 + (segments.flatMap Segment.data).length, stub)]) a = m.memory a := by
  rw [loadSegments_concat, if_neg fun contains => outside ((contains_loadHeader_iff _ a).mp contains),
    loadSegments_eq m.memory]
  · split
    · rfl
    next uncovered =>
      by_contra nonzero
      obtain ⟨x, member, contains, _⟩ := covered_of_extracted extracted below fun zero => nonzero zero.symm
      exact uncovered (List.any_eq_true.mpr ⟨_, List.mem_map_of_mem member, contains⟩)
  · intro header member i small
    obtain ⟨x, placed, rfl⟩ := List.mem_map.mp member
    exact (image_of_placed extracted placed).2 i small

/-- The page of the stub was empty. -/
theorem zero_at_stub (extracted : Extracted m segments (pages * pageSize))
    (before : ∀ x ∈ segments, stub.lastPage < x.firstPage) {a : Nat} (inside : stub.Contains a)
    (below : a < pages * pageSize) : m.memory a = 0 := by
  by_contra nonzero
  obtain ⟨x, member, contains, _⟩ := extracted.covered a below nonzero
  have here := page_of_contains inside
  have there := page_of_contains contains
  have order := before x member
  omega

end Loaded

/-! ### Resuming -/

/-- The jump, taken: it goes to the program counter exactly if the offset fits. -/
theorem exec_jump {m : Machine} {first : Segment} {s : Riscv.State}
    (pc : s.pc = BitVec.ofNat 64 (registerBufferStart first + 380)) :
    ((Jal.mk 0#5 ((jumpOffset m first).setWidth 21)).exec s).registers = s.registers ∧
    (((Jal.mk 0#5 ((jumpOffset m first).setWidth 21)).exec s).pc = m.pc.toBitVec ↔
      -2 ^ 20 ≤ (jumpOffset m first).toInt ∧ (jumpOffset m first).toInt < 2 ^ 20) := by
  have target : m.pc.toBitVec = BitVec.ofNat 64 (registerBufferStart first + 380) + jumpOffset m first := by
    rw [jumpOffset_eq, BitVec.add_comm, BitVec.sub_add_cancel]
  refine ⟨?_, ?_⟩
  · -- register 0 is not written
    have zero : ((0#5).toFin : Fin 32).val = 0 := rfl
    simp only [Jal.exec, Riscv.State.set, zero, if_true]
  rw [← signExtend_setWidth_eq_iff, target]
  simp only [Jal.exec, pc]
  exact BitVec.add_right_inj _

/-- A machine that has loaded the dump over zeros is, after 34 instructions, in the state that was dumped: its
registers are back, whatever they have been, and its memory is the same but for the bytes of the stub, where the
dumped machine had nothing but zeros. It goes on at the same program counter exactly if that is within reach of a
`JAL`. -/
theorem dump_resumes_iff (dumper : Dumper) (m : Machine) (file : List UInt8)
    (dumped : dumper.ecall m = .ok (some file)) :
    ∃ start, start % pageSize = 0 ∧ ∀ registers : Fin 32 → Word, ∃ final mem,
      restart file registers = some (final, mem) ∧
      (∀ i ≠ 0, final.registers i = (m.registers i).toBitVec) ∧
      (∀ a : Word, a.toNat < pages * pageSize →
        if start ≤ a.toNat ∧ a.toNat < start + 384 then m.memory a.toNat = 0 else mem a = m.memory a.toNat) ∧
      (final.pc = m.pc.toBitVec ↔
        -2 ^ 20 ≤ (m.pc.toBitVec - BitVec.ofNat 64 (start + 380)).toInt ∧
          (m.pc.toBitVec - BitVec.ofNat 64 (start + 380)).toInt < 2 ^ 20) := by
  obtain ⟨first, rest, stub, segments, late, made, emitted, read⟩ := ecall_parts dumped
  have extracted := extractSegments_extracted dumper.maximumZeroGap.toNat m
  rw [segments] at extracted
  obtain ⟨start, length⟩ := registerStub_bounds made
  have before : ∀ x ∈ first :: rest, stub.lastPage < x.firstPage := by
    have earlier := stub_before late start length
    intro x member
    rcases List.mem_cons.mp member with rfl | later
    · exact earlier
    · have order := ((List.pairwise_cons.mp extracted.ordered).1 x later).2
      have pages := (lastPage_le extracted List.mem_cons_self).1
      omega
  have low : stub.start + 384 < 2 ^ 64 := by
    have inside := extracted.inside first List.mem_cons_self
    have page := Nat.div_mul_le_self first.start pageSize
    rw [start, registerBufferStart, Segment.firstPageAddress, Segment.firstPage]
    unfold Segment.stop pages pageSize at *
    omega
  have contains_iff (a : Nat) : stub.Contains a ↔ stub.start ≤ a ∧ a < stub.start + 384 := by
    rw [Segment.Contains, Segment.stop, length]
  obtain ⟨mem, memory⟩ : ∃ mem, mem = memoryOf file ((placed 68 (first :: rest)).map loadHeader ++
      [loadHeader (68 + ((first :: rest).flatMap Segment.data).length, stub)]) := ⟨_, rfl⟩
  -- the stub is in memory, and so are its table and its code
  have holds : Holds mem (BitVec.ofNat 64 stub.start) stub.data := by
    intro i inside
    have place : (BitVec.ofNat 64 stub.start + BitVec.ofNat 64 i).toNat = stub.start + i := by
      rw [← BitVec.ofNat_add, BitVec.toNat_ofNat, Nat.mod_eq_of_lt (by omega)]
    have here : stub.Contains (stub.start + i) := (contains_iff _).mpr (by omega)
    rw [memory, memoryOf, place, emitted, loaded_inside here, Nat.add_sub_cancel_left, List.getD_eq_getElem?_getD,
      List.getElem?_eq_getElem inside, Option.getD_some]
  have entry : BitVec.ofNat 64 (field 24 8 file) = BitVec.ofNat 64 stub.start + 248 := by
    rw [emitted, entry_place]
  have aligned : stub.start % pageSize = 0 := by
    rw [start, registerBufferStart, Segment.firstPageAddress, ← Nat.sub_one_mul, Nat.mul_mod_left]
  refine ⟨stub.start, aligned, fun registers => ?_⟩
  have pc : (line mem restoreProgram ⟨BitVec.ofNat 64 stub.start + 248, registers⟩).1.pc =
      BitVec.ofNat 64 (registerBufferStart first + 380) := by
    rw [Riscv.line_pc, length_restoreProgram, ← start, BitVec.add_assoc, BitVec.ofNat_add]
    rfl
  have offset : jumpOffset m first = m.pc.toBitVec - BitVec.ofNat 64 (stub.start + 380) := by
    rw [jumpOffset_eq, start]
  obtain ⟨kept, reached⟩ := exec_jump (m := m) pc
  refine ⟨_, mem, ?_, ?_, ?_, by rw [← offset]; exact reached⟩
  · rw [restart, read, entry]
    simp only [bind, Option.bind_some, ← memory, run_restoreProgram made holds, restore_pc made holds]
    rfl
  · intro i nonzero
    rw [kept]
    exact restore_registers made holds registers nonzero
  · intro a below
    split
    next inside => exact zero_at_stub extracted before ((contains_iff _).mpr inside) below
    next other =>
      have outside : ¬stub.Contains a.toNat := fun contains => other ((contains_iff _).mp contains)
      rw [memory, memoryOf, emitted, loaded_outside extracted below outside]

/-- The dump of a machine with one byte, which can go on where it was. -/
theorem oneByte_resumed : ∃ file final mem, Dumper.ecall ⟨4097, 64⟩ oneByte = .ok (some file) ∧
    restart file (fun _ => 7#64) = some (final, mem) ∧
    ∀ i ≠ 0, final.registers i = (oneByte.registers i).toBitVec := by
  obtain ⟨file, dumped⟩ := oneByte_dumped
  obtain ⟨start, _, resumes⟩ := dump_resumes_iff ⟨4097, 64⟩ oneByte file dumped
  obtain ⟨final, mem, ran, restored, _⟩ := resumes fun _ => 7#64
  exact ⟨file, final, mem, dumped, ran, restored⟩

end ElfDumper
