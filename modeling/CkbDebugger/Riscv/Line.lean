import Mathlib.Logic.Function.Basic
import CkbDebugger.Bytes.LittleEndian

/-!
# Straight lines of RV64I

The instructions `auipc`, `addi` and `ld` of RV64I with their encoding, and code made of them. There
are no jumps among them, so a run over such code is a fold over its instructions. A run also tells
which addresses it has loaded from.
-/
namespace Riscv

abbrev Word := BitVec 64

abbrev Memory := Word → UInt8

/-! ### Instructions -/

inductive Instr where
  | auipc (rd : Fin 32) (imm : BitVec 20)
  | addi (rd rs1 : Fin 32) (imm : BitVec 12)
  | ld (rd rs1 : Fin 32) (imm : BitVec 12)
  deriving Repr, DecidableEq

/-- The U-format of `auipc` and the I-format of the others. -/
def decode (word : BitVec 32) : Option Instr :=
  let opcode := word.extractLsb' 0 7
  let rd : Fin 32 := (word.extractLsb' 7 5).toFin
  let funct3 := word.extractLsb' 12 3
  let rs1 : Fin 32 := (word.extractLsb' 15 5).toFin
  if opcode = 0b0010111#7 then some (.auipc rd (word.extractLsb' 12 20))
  else if opcode = 0b0010011#7 ∧ funct3 = 0b000#3 then some (.addi rd rs1 (word.extractLsb' 20 12))
  else if opcode = 0b0000011#7 ∧ funct3 = 0b011#3 then some (.ld rd rs1 (word.extractLsb' 20 12))
  else none

/-! ### Memory -/

def bytesAt (mem : Memory) (address : Word) (count : Nat) : List UInt8 :=
  (List.range count).map fun i => mem (address + BitVec.ofNat 64 i)

def fetch (mem : Memory) (pc : Word) : BitVec 32 := BitVec.ofNat 32 (Bytes.leValue (bytesAt mem pc 4))

def load (mem : Memory) (address : Word) : Word := BitVec.ofNat 64 (Bytes.leValue (bytesAt mem address 8))

/-- The bytes are in memory, from the address on. -/
def Holds (mem : Memory) (address : Word) (bytes : List UInt8) : Prop :=
  ∀ i (inside : i < bytes.length), mem (address + BitVec.ofNat 64 i) = bytes[i]

/-- A memory with nothing but the bytes in it. -/
def image (address : Word) (bytes : List UInt8) : Memory := fun a => bytes.getD (a - address).toNat 0

theorem holds_image (address : Word) {bytes : List UInt8} (short : bytes.length < 2 ^ 64) :
    Holds (image address bytes) address bytes := by
  intro i inside
  have place : (address + BitVec.ofNat 64 i - address).toNat = i := by
    rw [BitVec.add_comm, BitVec.add_sub_cancel, BitVec.toNat_ofNat, Nat.mod_eq_of_lt (by omega)]
  rw [image, place, List.getD_eq_getElem?_getD, List.getElem?_eq_getElem inside, Option.getD_some]

theorem bytesAt_of_holds {mem : Memory} {address : Word} {bytes : List UInt8} (holds : Holds mem address bytes)
    {offset count : Nat} (inside : offset + count ≤ bytes.length) :
    bytesAt mem (address + BitVec.ofNat 64 offset) count = Bytes.slice offset count bytes := by
  apply List.ext_getElem
  · simp only [bytesAt, Bytes.slice, List.length_map, List.length_range, List.length_take, List.length_drop]
    omega
  · intro i left right
    simp only [bytesAt, List.length_map, List.length_range] at left
    simp only [bytesAt, Bytes.slice, List.getElem_map, List.getElem_range, List.getElem_take, List.getElem_drop,
      BitVec.add_assoc, ← BitVec.ofNat_add]
    exact holds (offset + i) (by omega)

theorem fetch_of_holds {mem : Memory} {address : Word} {bytes : List UInt8} (holds : Holds mem address bytes)
    {offset : Nat} (inside : offset + 4 ≤ bytes.length) :
    fetch mem (address + BitVec.ofNat 64 offset) = BitVec.ofNat 32 (Bytes.field offset 4 bytes) := by
  rw [fetch, bytesAt_of_holds holds inside, Bytes.field]

theorem load_of_holds {mem : Memory} {address : Word} {bytes : List UInt8} (holds : Holds mem address bytes)
    {offset : Nat} (inside : offset + 8 ≤ bytes.length) :
    load mem (address + BitVec.ofNat 64 offset) = BitVec.ofNat 64 (Bytes.field offset 8 bytes) := by
  rw [load, bytesAt_of_holds holds inside, Bytes.field]

/-! ### Execution -/

structure State where
  pc : Word
  registers : Fin 32 → Word

/-- Register 0 reads as zero. -/
def State.get (s : State) (r : Fin 32) : Word := if r.val = 0 then 0 else s.registers r

def State.set (s : State) (r : Fin 32) (value : Word) : State :=
  if r.val = 0 then s else { s with registers := Function.update s.registers r value }

def State.next (s : State) : State := { s with pc := s.pc + 4 }

def exec (mem : Memory) (s : State) : Instr → State
  | .auipc rd imm => (s.set rd (s.pc + (imm ++ 0#12).signExtend 64)).next
  | .addi rd rs1 imm => (s.set rd (s.get rs1 + imm.signExtend 64)).next
  | .ld rd rs1 imm => (s.set rd (load mem (s.get rs1 + imm.signExtend 64))).next

/-- The addresses that an instruction loads from. -/
def Instr.reads (s : State) : Instr → List Word
  | .ld _ rs1 imm => (List.range 8).map fun i => s.get rs1 + imm.signExtend 64 + BitVec.ofNat 64 i
  | _ => []

/-- A number of instructions from the program counter on. There is no result when one is of another
kind. -/
def run (mem : Memory) : Nat → State → Option (State × List Word)
  | 0, s => some (s, [])
  | count + 1, s =>
    match decode (fetch mem s.pc) with
    | none => none
    | some instr => (run mem count (exec mem s instr)).map fun (final, more) => (final, instr.reads s ++ more)

@[simp] theorem set_pc (s : State) (r : Fin 32) (value : Word) : (s.set r value).pc = s.pc := by
  unfold State.set
  split <;> rfl

@[simp] theorem next_registers (s : State) : s.next.registers = s.registers := rfl

@[simp] theorem exec_pc (mem : Memory) (s : State) (instr : Instr) : (exec mem s instr).pc = s.pc + 4 := by
  cases instr <;> simp only [exec, State.next, set_pc]

theorem set_registers {r : Fin 32} (nonzero : r ≠ 0) (s : State) (value : Word) (other : Fin 32) :
    (s.set r value).registers other = if other = r then value else s.registers other := by
  have positive : r.val ≠ 0 := fun zero => nonzero (Fin.ext zero)
  simp only [State.set, positive, if_false, Function.update_apply]

theorem get_of_ne {r : Fin 32} (nonzero : r ≠ 0) (s : State) : s.get r = s.registers r :=
  if_neg fun zero => nonzero (Fin.ext zero)

/-! ### Straight lines -/

def line (mem : Memory) : List Instr → State → State × List Word
  | [], s => (s, [])
  | instr :: instrs, s =>
    ((line mem instrs (exec mem s instr)).1, instr.reads s ++ (line mem instrs (exec mem s instr)).2)

/-- The instructions are in memory, one after another. -/
def CodeAt (mem : Memory) (pc : Word) (instrs : List Instr) : Prop :=
  ∀ k instr, instrs[k]? = some instr → decode (fetch mem (pc + BitVec.ofNat 64 (4 * k))) = some instr

theorem CodeAt.head {mem : Memory} {pc : Word} {instr : Instr} {instrs : List Instr}
    (placed : CodeAt mem pc (instr :: instrs)) : decode (fetch mem pc) = some instr := by
  have first := placed 0 instr rfl
  rwa [Nat.mul_zero, BitVec.add_zero] at first

theorem CodeAt.tail {mem : Memory} {pc : Word} {instr : Instr} {instrs : List Instr}
    (placed : CodeAt mem pc (instr :: instrs)) : CodeAt mem (pc + 4) instrs := by
  intro k other here
  have next := placed (k + 1) other (by rw [List.getElem?_cons_succ, here])
  have place : pc + BitVec.ofNat 64 (4 * (k + 1)) = pc + 4 + BitVec.ofNat 64 (4 * k) := by
    rw [Nat.mul_succ, Nat.add_comm, BitVec.ofNat_add, ← BitVec.add_assoc]
    rfl
  rwa [place] at next

theorem run_line {mem : Memory} {instrs : List Instr} {s : State} (placed : CodeAt mem s.pc instrs) :
    run mem instrs.length s = some (line mem instrs s) := by
  induction instrs generalizing s with
  | nil => rfl
  | cons instr instrs ih =>
    -- none of these instructions jumps, so the others start four bytes further on
    have others : CodeAt mem (exec mem s instr).pc instrs := by
      rw [exec_pc]
      exact placed.tail
    simp only [List.length_cons, run, placed.head, ih others, Option.map_some, line]

theorem line_append (mem : Memory) (first second : List Instr) (s : State) :
    line mem (first ++ second) s = ((line mem second (line mem first s).1).1,
      (line mem first s).2 ++ (line mem second (line mem first s).1).2) := by
  induction first generalizing s with
  | nil => rfl
  | cons instr first ih => simp only [List.cons_append, line, ih, List.append_assoc]

theorem line_pc (mem : Memory) (instrs : List Instr) (s : State) :
    (line mem instrs s).1.pc = s.pc + BitVec.ofNat 64 (4 * instrs.length) := by
  induction instrs generalizing s with
  | nil => simp only [line, List.length_nil, Nat.mul_zero, BitVec.add_zero]
  | cons instr instrs ih =>
    rw [line, ih, exec_pc, List.length_cons, Nat.mul_succ, Nat.add_comm, BitVec.ofNat_add, BitVec.add_assoc]
    rfl

/-! ### Loads from a base -/

/-- Loads of several registers, each from its own offset to a base register. -/
def loads (base : Fin 32) (offset : Fin 32 → BitVec 12) (rds : List (Fin 32)) : List Instr :=
  rds.map fun rd => .ld rd base (offset rd)

section Loads

variable {mem : Memory} {base : Fin 32} {offset : Fin 32 → BitVec 12}

/-- Where a register is loaded from. -/
def slotOf (base : Word) (offset : BitVec 12) : Word := base + offset.signExtend 64

theorem exec_ld_registers (baseNonzero : base ≠ 0) {rd : Fin 32} (nonzero : rd ≠ 0) (s : State) (other : Fin 32) :
    (exec mem s (.ld rd base (offset rd))).registers other =
      if other = rd then load mem (slotOf (s.registers base) (offset rd)) else s.registers other := by
  simp only [exec, next_registers, set_registers nonzero, get_of_ne baseNonzero, slotOf]

/-- Loads that leave the base alone give each register the contents of its slot. -/
theorem loads_registers (baseNonzero : base ≠ 0) {rds : List (Fin 32)} (others : ∀ rd ∈ rds, rd ≠ 0 ∧ rd ≠ base)
    (s : State) (r : Fin 32) :
    (r ∈ rds → (line mem (loads base offset rds) s).1.registers r =
      load mem (slotOf (s.registers base) (offset r))) ∧
    (r ∉ rds → (line mem (loads base offset rds) s).1.registers r = s.registers r) := by
  induction rds generalizing s with
  | nil => exact ⟨fun member => absurd member List.not_mem_nil, fun _ => rfl⟩
  | cons rd rds ih =>
    obtain ⟨nonzero, notBase⟩ := others rd List.mem_cons_self
    have kept : (exec mem s (.ld rd base (offset rd))).registers base = s.registers base := by
      rw [exec_ld_registers baseNonzero nonzero, if_neg (Ne.symm notBase)]
    obtain ⟨loaded, unchanged⟩ := ih (fun other member => others other (List.mem_cons_of_mem rd member))
      (exec mem s (.ld rd base (offset rd)))
    rw [loads] at loaded unchanged
    simp only [loads, List.map_cons, line]
    by_cases later : r ∈ rds
    · -- a later load counts, and its base is still the same
      refine ⟨fun _ => ?_, fun absent => absurd (List.mem_cons_of_mem rd later) absent⟩
      rw [loaded later, kept]
    · rw [unchanged later, exec_ld_registers baseNonzero nonzero]
      constructor
      · intro member
        obtain rfl : r = rd := (List.mem_cons.mp member).resolve_right later
        rw [if_pos rfl]
      · intro absent
        exact if_neg fun same => absent (List.mem_cons.mpr (Or.inl same))

theorem loads_reads (baseNonzero : base ≠ 0) {rds : List (Fin 32)} (others : ∀ rd ∈ rds, rd ≠ 0 ∧ rd ≠ base)
    (s : State) : (line mem (loads base offset rds) s).2 =
      rds.flatMap fun rd => (List.range 8).map fun i => slotOf (s.registers base) (offset rd) + BitVec.ofNat 64 i := by
  induction rds generalizing s with
  | nil => rfl
  | cons rd rds ih =>
    obtain ⟨nonzero, notBase⟩ := others rd List.mem_cons_self
    have kept : (exec mem s (.ld rd base (offset rd))).registers base = s.registers base := by
      rw [exec_ld_registers baseNonzero nonzero, if_neg (Ne.symm notBase)]
    have rest := ih (fun other member => others other (List.mem_cons_of_mem rd member))
      (exec mem s (.ld rd base (offset rd)))
    rw [loads] at rest
    simp only [loads, List.map_cons, line, rest, kept, List.flatMap_cons, Instr.reads, get_of_ne baseNonzero, slotOf]

end Loads

end Riscv
