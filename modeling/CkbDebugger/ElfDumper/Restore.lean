import Mathlib.Data.Fin.SuccPred
import CkbDebugger.Riscv.Line
import CkbDebugger.ElfDumper.Image

/-!
# What the stub does to the registers

The stub finds its table of registers through the program counter: `auipc` and `addi` leave the address
8 bytes before the table in `a0`, so that register `i` is at the offset `8 * i`. All registers but `a0` are
loaded from there, and `a0` at last.
-/
namespace ElfDumper

open Bytes (slice field patch)
open CkbVm (A0)
open Riscv (Word Memory Instr Holds line)

/-! ### The code -/

/-- Register `i` is in the `i`-th slot. -/
def slotOffset (i : Fin 32) : BitVec 12 := BitVec.ofNat 12 (8 * i.val)

/-- The registers that are loaded while `a0` holds the address of the table. -/
def restoredFirst : List (Fin 32) := (List.finRange 32).filter fun i => i.val ≠ 0 ∧ i ≠ A0

def restoreProgram : List Instr :=
  [.auipc A0 0#20, .addi A0 A0 (-256#12)] ++ (Riscv.loads A0 slotOffset restoredFirst ++ [.ld A0 A0 (slotOffset A0)])

theorem decode_restoreInstructions :
    restoreInstructions.map (fun word => Riscv.decode (BitVec.ofNat 32 word)) = restoreProgram.map some := by
  decide

/-! ### The stub in memory -/

theorem registerTable_flatten (m : Machine) : registerTable m =
    ((List.finRange 31).map fun i => leBytes 8 (m.registers i.succ).toNat).flatten := by
  rw [registerTable, List.flatMap_def]

theorem stub_data {m : Machine} {first stub : Segment} (made : registerStub m first = .ok stub) :
    ∃ jump, stub.data = registerTable m ++ (restoreInstructions.flatMap (leBytes 4) ++ jump) := by
  unfold registerStub at made
  split at made
  · simp only [Except.ok.injEq] at made
    refine ⟨leBytes 4 (jumpInstruction (jumpOffset m first)).toNat, ?_⟩
    rw [← made, registerBuffer, List.append_assoc]
  · cases made

section Stub

variable {m : Machine} {first stub : Segment}

/-- The slots hold the registers of the machine. -/
theorem field_register (made : registerStub m first = .ok stub) (i : Fin 31) :
    field (8 * i.val) 8 stub.data = (m.registers i.succ).toNat := by
  obtain ⟨jump, data⟩ := stub_data made
  -- slot i holds register i + 1, since register 0 is not kept
  have row : ((List.finRange 31).map fun i => leBytes 8 (m.registers i.succ).toNat)[i.val]? =
      some (leBytes 8 (m.registers i.succ).toNat) := by
    simp
  have uniform : ∀ row ∈ (List.finRange 31).map fun i => leBytes 8 (m.registers i.succ).toNat, row.length = 8 := by
    simp
  have part := Bytes.slice_flatten _ uniform i.val _ row
  have inside : 8 * i.val + 8 ≤ (registerTable m).length := by
    rw [length_registerTable]
    omega
  rw [field, data, Bytes.slice_append_left _ inside, registerTable_flatten, part,
    Bytes.leValue_leBytes_of_lt 8 (m.registers i.succ).toNat_lt]

/-- The instructions come after the table. -/
theorem field_instruction (made : registerStub m first = .ok stub) {k word : Nat}
    (here : restoreInstructions[k]? = some word) : field (248 + 4 * k) 4 stub.data = word := by
  obtain ⟨jump, data⟩ := stub_data made
  have row : (restoreInstructions.map (leBytes 4))[k]? = some (leBytes 4 word) := by
    rw [List.getElem?_map, here, Option.map_some]
  have uniform : ∀ row ∈ restoreInstructions.map (leBytes 4), row.length = 4 := by
    simp
  have part := Bytes.slice_flatten _ uniform k _ row
  have small : ∀ word ∈ restoreInstructions, word < 256 ^ 4 := by decide
  have fits := small word (List.mem_of_getElem? here)
  have inside : 4 * k + 4 ≤ (restoreInstructions.flatMap (leBytes 4)).length := by
    have bound := (List.getElem?_eq_some_iff.mp here).1
    simp only [restoreInstructions, List.length_cons, List.length_nil] at bound
    simp [restoreInstructions]
    omega
  have shifted := Bytes.slice_append_right (registerTable m) (restoreInstructions.flatMap (leBytes 4) ++ jump)
    (4 * k) 4
  rw [length_registerTable] at shifted
  rw [field, data, shifted, Bytes.slice_append_left _ inside, List.flatMap_def, part,
    Bytes.leValue_leBytes_of_lt 4 fits]

end Stub

/-! ### Running the stub -/

section Run

variable {m : Machine} {first stub : Segment} {mem : Memory} {start : Word}

theorem codeAt_restoreProgram (made : registerStub m first = .ok stub) (holds : Holds mem start stub.data) :
    Riscv.CodeAt mem (start + 248) restoreProgram := by
  intro k instr here
  have decoded := congrArg (fun list => list[k]?) decode_restoreInstructions
  simp only [List.getElem?_map, here, Option.map_some] at decoded
  obtain ⟨word, found, decodes⟩ := Option.map_eq_some_iff.mp decoded
  have bound : k < restoreInstructions.length := (List.getElem?_eq_some_iff.mp found).1
  simp only [restoreInstructions, List.length_cons, List.length_nil] at bound
  have inside : 248 + 4 * k + 4 ≤ stub.data.length := by
    rw [(registerStub_bounds made).2]
    omega
  have place : start + 248 + BitVec.ofNat 64 (4 * k) = start + BitVec.ofNat 64 (248 + 4 * k) := by
    rw [BitVec.ofNat_add, ← BitVec.add_assoc]
    rfl
  rw [place, Riscv.fetch_of_holds holds inside, field_instruction made found, decodes]

/-- The address that `a0` holds while the other registers are loaded. -/
def tableBase (start : Word) : Word := start + 248 + (-256#12).signExtend 64

theorem slot_place (start : Word) (i : Fin 31) :
    Riscv.slotOf (tableBase start) (slotOffset i.succ) = start + BitVec.ofNat 64 (8 * i.val) := by
  -- the address of the code, 256 back, and 8 on for the slot that register 0 would have
  have offset : ∀ i : Fin 31, (slotOffset i.succ).signExtend 64 = BitVec.ofNat 64 (8 * i.val) + 8#64 := by decide
  have back : (-256#12).signExtend 64 + 8#64 = -248#64 := by decide
  rw [Riscv.slotOf, tableBase, offset]
  calc start + 248 + (-256#12).signExtend 64 + (BitVec.ofNat 64 (8 * i.val) + 8#64)
      = start + BitVec.ofNat 64 (8 * i.val) + (248 + ((-256#12).signExtend 64 + 8#64)) := by ac_rfl
    _ = start + BitVec.ofNat 64 (8 * i.val) := by
      rw [back]
      exact BitVec.add_zero _

theorem load_slot (made : registerStub m first = .ok stub) (holds : Holds mem start stub.data) {i : Fin 32}
    (nonzero : i ≠ 0) :
    Riscv.load mem (Riscv.slotOf (tableBase start) (slotOffset i)) = (m.registers i).toBitVec := by
  obtain ⟨j, rfl⟩ := Fin.exists_succ_eq_of_ne_zero nonzero
  have inside : 8 * j.val + 8 ≤ stub.data.length := by
    rw [(registerStub_bounds made).2]
    omega
  rw [slot_place, Riscv.load_of_holds holds inside, field_register made]
  exact BitVec.ofNat_toNat ..

/-- The state when the address of the table has been computed. -/
theorem base_registers (registers : Fin 32 → Word) (r : Fin 32) :
    (line mem [.auipc A0 0#20, .addi A0 A0 (-256#12)] ⟨start + 248, registers⟩).1.registers r =
      if r = A0 then tableBase start else registers r := by
  have nonzero : A0 ≠ 0 := by decide
  have none : (0#20 ++ 0#12).signExtend 64 = 0#64 := by decide
  simp only [line, Riscv.exec, Riscv.next_registers, Riscv.set_registers nonzero, Riscv.get_of_ne nonzero]
  by_cases here : r = A0
  · simp only [here, if_true]
    rw [none, BitVec.add_zero, tableBase]
  · simp only [here, if_false]

theorem mem_restoredFirst (rd : Fin 32) : rd ∈ restoredFirst ↔ rd ≠ 0 ∧ rd ≠ A0 := by
  simp only [restoredFirst, List.mem_filter, List.mem_finRange, true_and, decide_eq_true_eq, Ne, Fin.ext_iff]
  rfl

theorem restoredFirst_others : ∀ rd ∈ restoredFirst, rd ≠ 0 ∧ rd ≠ A0 := fun rd => (mem_restoredFirst rd).mp

/-- The state before `a0` itself is loaded. -/
theorem loaded_registers (registers : Fin 32 → Word) (r : Fin 32) :
    (r ∈ restoredFirst →
      (line mem ([.auipc A0 0#20, .addi A0 A0 (-256#12)] ++ Riscv.loads A0 slotOffset restoredFirst)
        ⟨start + 248, registers⟩).1.registers r = Riscv.load mem (Riscv.slotOf (tableBase start) (slotOffset r))) ∧
    (line mem ([.auipc A0 0#20, .addi A0 A0 (-256#12)] ++ Riscv.loads A0 slotOffset restoredFirst)
        ⟨start + 248, registers⟩).1.registers A0 = tableBase start := by
  have base : A0 ∉ restoredFirst := fun member => ((mem_restoredFirst A0).mp member).2 rfl
  have loaded := @Riscv.loads_registers mem A0 slotOffset (by decide) restoredFirst restoredFirst_others
    (line mem [.auipc A0 0#20, .addi A0 A0 (-256#12)] ⟨start + 248, registers⟩).1
  rw [Riscv.line_append]
  refine ⟨fun member => ?_, ?_⟩
  · rw [(loaded r).1 member, base_registers, if_pos rfl]
  · rw [(loaded A0).2 base, base_registers, if_pos rfl]

theorem restore_registers (made : registerStub m first = .ok stub) (holds : Holds mem start stub.data)
    (registers : Fin 32 → Word) {i : Fin 32} (nonzero : i ≠ 0) :
    (line mem restoreProgram ⟨start + 248, registers⟩).1.registers i = (m.registers i).toBitVec := by
  rw [restoreProgram, ← List.append_assoc, Riscv.line_append]
  simp only [line, Riscv.exec, Riscv.next_registers, Riscv.set_registers (show A0 ≠ 0 by decide),
    Riscv.get_of_ne (show A0 ≠ 0 by decide), (loaded_registers registers i).2]
  by_cases last : i = A0
  · -- the last load overwrites its own base
    rw [if_pos last, ← load_slot made holds nonzero, last, Riscv.slotOf]
  · have early := (mem_restoredFirst i).mpr ⟨nonzero, last⟩
    rw [if_neg last, (loaded_registers registers i).1 early, load_slot made holds nonzero]

theorem slot_inside (start : Word) {i : Fin 32} (nonzero : i ≠ 0) {a : Word}
    (read : a ∈ (List.range 8).map fun k => Riscv.slotOf (tableBase start) (slotOffset i) + BitVec.ofNat 64 k) :
    ∃ j < 248, a = start + BitVec.ofNat 64 j := by
  obtain ⟨j, rfl⟩ := Fin.exists_succ_eq_of_ne_zero nonzero
  obtain ⟨k, small, rfl⟩ := List.mem_map.mp read
  have bound := List.mem_range.mp small
  refine ⟨8 * j.val + k, by omega, ?_⟩
  rw [slot_place, BitVec.ofNat_add, BitVec.add_assoc]

/-- Only the table is read. -/
theorem restore_reads (registers : Fin 32 → Word) {a : Word}
    (read : a ∈ (line mem restoreProgram ⟨start + 248, registers⟩).2) :
    ∃ j < 248, a = start + BitVec.ofNat 64 j := by
  have nonzero : A0 ≠ 0 := by decide
  rw [restoreProgram, ← List.append_assoc, Riscv.line_append, List.mem_append] at read
  rcases read with early | last
  · -- the two instructions that compute the base read nothing
    rw [Riscv.line_append, List.mem_append, Riscv.loads_reads nonzero restoredFirst_others, base_registers,
      if_pos rfl] at early
    rcases early with none | load
    · simp [line, Riscv.Instr.reads] at none
    · obtain ⟨rd, member, slot⟩ := List.mem_flatMap.mp load
      exact slot_inside start (restoredFirst_others rd member).1 slot
  · simp only [line, Riscv.Instr.reads, Riscv.get_of_ne nonzero, (loaded_registers registers A0).2,
      List.append_nil] at last
    exact slot_inside start nonzero last

theorem length_restoreProgram : restoreProgram.length = 33 := by decide

theorem run_restoreProgram (made : registerStub m first = .ok stub) (holds : Holds mem start stub.data)
    (registers : Fin 32 → Word) :
    Riscv.run mem 33 ⟨start + 248, registers⟩ = some (line mem restoreProgram ⟨start + 248, registers⟩) := by
  rw [← length_restoreProgram]
  exact Riscv.run_line (codeAt_restoreProgram made holds)

/-- The jump comes next. -/
theorem restore_pc (made : registerStub m first = .ok stub) (holds : Holds mem start stub.data)
    (registers : Fin 32 → Word) :
    decodeJal (Riscv.fetch mem (line mem restoreProgram ⟨start + 248, registers⟩).1.pc) =
      some ⟨0#5, (jumpOffset m first).setWidth 21⟩ := by
  have place : start + 248 + BitVec.ofNat 64 (4 * 33) = start + BitVec.ofNat 64 380 := by
    rw [BitVec.add_assoc]
    rfl
  have inside : 380 + 4 ≤ stub.data.length := by
    rw [(registerStub_bounds made).2]
  rw [Riscv.line_pc, length_restoreProgram, place, Riscv.fetch_of_holds holds inside, decodeJal_stub made]

end Run

/-! ### The dump -/

/-- The bytes of a segment are in memory at its address. -/
def ProgramHeader.LoadedIn (x : ProgramHeader) (file : List UInt8) (mem : Memory) : Prop :=
  Holds mem (BitVec.ofNat 64 x.vaddr) (slice x.offset x.filesz file)

/-- The entry point is the first instruction of the stub. -/
theorem entry_place {segments : List Segment} {m : Machine} (start : Nat) :
    BitVec.ofNat 64 (field 24 8 (emitElf segments (start + (registerTable m).length))) =
      BitVec.ofNat 64 start + 248 := by
  have wide : 256 ^ 8 = 2 ^ 64 := by decide
  have same : BitVec.ofNat 64 ((start + 248) % 2 ^ 64) = BitVec.ofNat 64 (start + 248) := by
    apply BitVec.eq_of_toNat_eq
    rw [BitVec.toNat_ofNat, BitVec.toNat_ofNat, Nat.mod_mod]
  rw [field_entry, length_registerTable, wide, same, BitVec.ofNat_add]
  rfl

/-- The dump with its last segment loaded at `register_buffer_start` and run from the entry point: the stub
puts the registers back, reads nothing but its table, and comes to its jump. -/
theorem ecall_restores_registers (dumper : Dumper) (m : Machine) (file : List UInt8)
    (dumped : dumper.ecall m = .ok (some file)) :
    ∃ first rest headers stub, extractSegments dumper.maximumZeroGap.toNat m = first :: rest ∧
      readProgramHeaders file = some (headers ++ [stub]) ∧ stub.vaddr = registerBufferStart first ∧
      ∀ mem, stub.LoadedIn file mem → ∀ registers : Fin 32 → Word,
        ∃ final reads, Riscv.run mem 33 ⟨BitVec.ofNat 64 (field 24 8 file), registers⟩ = some (final, reads) ∧
          (decodeJal (Riscv.fetch mem final.pc)).isSome ∧
          (∀ i ≠ 0, final.registers i = (m.registers i).toBitVec) ∧
          ∀ a ∈ reads, ∃ j < 248, a = BitVec.ofNat 64 (stub.vaddr + j) := by
  obtain ⟨first, rest, stub, segments, late, made, emitted, read⟩ := ecall_parts dumped
  refine ⟨first, rest, _, _, segments, read, (registerStub_bounds made).1, ?_⟩
  intro mem loaded registers
  -- the stub is the last segment of the file
  have last : (68 + ((first :: rest).flatMap Segment.data).length, stub) ∈ placed 68 (first :: rest ++ [stub]) := by
    rw [placed_append]
    exact List.mem_append_right _ List.mem_cons_self
  have data := (slice_emitElf (stub.start + (registerTable m).length) last).1
  have holds : Holds mem (BitVec.ofNat 64 stub.start) stub.data := by
    rw [← data, ← emitted]
    exact loaded
  have entry : BitVec.ofNat 64 (field 24 8 file) = BitVec.ofNat 64 stub.start + 248 := by
    rw [emitted, entry_place]
  refine ⟨(line mem restoreProgram ⟨BitVec.ofNat 64 stub.start + 248, registers⟩).1,
    (line mem restoreProgram ⟨BitVec.ofNat 64 stub.start + 248, registers⟩).2, ?_, ?_, ?_, ?_⟩
  · rw [entry, run_restoreProgram made holds, Prod.mk.eta]
  · rw [restore_pc made holds, Option.isSome_some]
  · intro i nonzero
    exact restore_registers made holds registers nonzero
  · intro a member
    obtain ⟨j, inside, place⟩ := restore_reads registers member
    refine ⟨j, inside, ?_⟩
    rw [place, BitVec.ofNat_add]
    rfl

theorem oneByte_restored : ∃ file mem final reads, Dumper.ecall ⟨4097, 64⟩ oneByte = .ok (some file) ∧
    Riscv.run mem 33 ⟨BitVec.ofNat 64 (field 24 8 file), fun _ => 7#64⟩ = some (final, reads) ∧
    (decodeJal (Riscv.fetch mem final.pc)).isSome ∧
    ∀ i ≠ 0, final.registers i = (oneByte.registers i).toBitVec := by
  obtain ⟨file, dumped⟩ := oneByte_dumped
  obtain ⟨_, _, headers, stub, _, read, _, restores⟩ := ecall_restores_registers ⟨4097, 64⟩ oneByte file dumped
  obtain ⟨_, _, segment, _, _, made, _, parts⟩ := ecall_parts dumped
  have same := (List.append_inj' (Option.some.inj (read.symm.trans parts)) rfl).2
  have short : (slice stub.offset stub.filesz file).length < 2 ^ 64 := by
    rw [List.singleton_inj.mp same, slice, List.length_take]
    have size := (registerStub_bounds made).2
    simp only [loadHeader]
    omega
  obtain ⟨final, reads, ran, jump, restored, _⟩ :=
    restores (Riscv.image (BitVec.ofNat 64 stub.vaddr) (slice stub.offset stub.filesz file))
      (Riscv.holds_image _ short) fun _ => 7#64
  exact ⟨file, _, final, reads, dumped, ran, jump, restored⟩

end ElfDumper
