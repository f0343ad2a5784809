import Mathlib.Logic.Function.Basic
import CkbDebugger.Loop.Basic

/-!
# The virtual machine

What the loops of the debugger use of `ckb-vm` 0.24.6. The machine itself is a parameter,
with instructions, memory, syscalls and the places of the cache; the decoder with its
instruction cache and `DefaultMachine::step` are written out, since the loops differ in
when they reset the one before they call the other.
-/
namespace CkbVm

/-- `ckb_vm::Error`, as far as the repository makes errors itself. -/
inductive Error where
  | external (text : String)
  | invalidVersion
  | vm (code : Nat)
  deriving Repr, DecidableEq

/-- The opcodes that the repository tells apart; `jalr` is both versions of it. -/
inductive Opcode where
  | jal
  | jalr
  | farJumpAbs
  | farJumpRel
  | ecall
  | other
  deriving Repr, DecidableEq

/-- A decoded instruction: its opcode, `instruction_length`, the operands of jumps,
with `immediate_s` as a 64-bit number, and the word with all of its operands. -/
structure Instruction where
  opcode : Opcode
  length : UInt64
  immediate : UInt64
  rs1 : Fin 32
  word : UInt64
  deriving Repr, DecidableEq

/-! ### Registers and versions -/

def ZERO : Fin 32 := 0
def RA : Fin 32 := 1
def SP : Fin 32 := 2
def A0 : Fin 32 := 10
def A1 : Fin 32 := 11
def A2 : Fin 32 := 12
def A3 : Fin 32 := 13
def A7 : Fin 32 := 17

def isaMop : UInt8 := 2
def version0 : Nat := 0

/-! ### The machine -/

/-- `DefaultMachine` with its memory, registers and syscalls, over states `M`. `fetch`
decodes the instruction at an address from memory, `execute` runs one with
whatever syscall it makes, and `slot` is the place of an address in the decoder's
cache. `execs` counts the exec syscalls so far; the code has no such
counter, and only the decoder's `stale` reads it. -/
structure Vm (M : Type) where
  pc : M → UInt64
  registers : M → Fin 32 → UInt64
  isa : M → UInt8
  version : M → Nat
  running : M → Bool
  setRunning : Bool → M → M
  exitCode : M → Int8
  resetSignal : M → Bool × M
  load8 : M → UInt64 → Except Error UInt8
  instructionCycleFunc : Instruction → UInt64
  addCycles : UInt64 → M → Except Error Unit × M
  fetch : M → UInt64 → Except Error Instruction
  execute : Instruction → M → Except Error Unit × M
  slot : UInt64 → Nat
  execs : M → Nat

/-! ### The decoder -/

/-- An instruction in the cache, with the number of execs when it was put there. -/
structure Entry where
  pc : UInt64
  inst : Instruction
  made : Nat

/-- The decoder. `stale` tells whether an instruction has ever been taken from an
entry made before the latest exec. -/
structure Decoder where
  cache : Nat → Option Entry
  stale : Bool

/-- `build_decoder`. -/
def Decoder.build : Decoder := ⟨fun _ => none, false⟩

def Decoder.resetInstructionsCache (d : Decoder) : Decoder := { d with cache := fun _ => none }

variable {M : Type} (vm : Vm M)

/-- The entry that a decode at `pc` takes. -/
def Decoder.lookup (d : Decoder) (pc : UInt64) : Option Entry :=
  (d.cache (vm.slot pc)).filter fun entry => entry.pc == pc

/-- `Decoder::decode` at the program counter of the machine. -/
def Decoder.decode (d : Decoder) (m : M) : Except Error Instruction × Decoder :=
  -- an entry is taken by its address alone, whatever is in memory by now
  match d.lookup vm (vm.pc m) with
  | some entry => (.ok entry.inst, { d with stale := d.stale || decide (entry.made < vm.execs m) })
  | none =>
    match vm.fetch m (vm.pc m) with
    | .error e => (.error e, d)
    | .ok inst =>
      (.ok inst, { d with
        cache := Function.update d.cache (vm.slot (vm.pc m)) (some ⟨vm.pc m, inst, vm.execs m⟩) })

/-- Decoding again at the same place gives the same and changes nothing more. -/
theorem decode_decode (d : Decoder) (m : M) :
    (d.decode vm m).2.decode vm m = d.decode vm m := by
  -- an entry that was taken is still there, and one that was missing has been made
  cases found : d.lookup vm (vm.pc m) with
  | some entry =>
    have again : Decoder.lookup vm ⟨d.cache, d.stale || decide (entry.made < vm.execs m)⟩ (vm.pc m) =
        some entry := found
    simp only [Decoder.decode, found, again, Bool.or_assoc, Bool.or_self]
  | none =>
    cases fetched : vm.fetch m (vm.pc m) with
    | error e => simp only [Decoder.decode, found, fetched]
    | ok inst =>
      have again : Decoder.lookup vm ⟨Function.update d.cache (vm.slot (vm.pc m))
          (some ⟨vm.pc m, inst, vm.execs m⟩), d.stale⟩ (vm.pc m) =
          some ⟨vm.pc m, inst, vm.execs m⟩ := by
        simp [Decoder.lookup]
      simp only [Decoder.decode, found, fetched, again, Nat.lt_irrefl, decide_false, Bool.or_false]

/-! ### A step -/

/-- What `DefaultMachine::step` does with a decoded instruction. -/
def Vm.perform (inst : Instruction) (m : M) : Except Error Unit × M :=
  match vm.addCycles (vm.instructionCycleFunc inst) m with
  | (.error e, counted) => (.error e, counted)
  | (.ok (), counted) => vm.execute inst counted

/-- `DefaultMachine::step`. -/
def Vm.step (m : M) (d : Decoder) : Except Error Unit × M × Decoder :=
  match d.decode vm m with
  | (.error e, decoder) => (.error e, m, decoder)
  | (.ok inst, decoder) => ((vm.perform inst m).1, (vm.perform inst m).2, decoder)

/-- A step is the same after the instruction has been looked at. -/
theorem step_decode (m : M) (d : Decoder) : vm.step m (d.decode vm m).2 = vm.step m d := by
  simp only [Vm.step, decode_decode]

theorem step_decode_error {m : M} {d : Decoder} {e : Error} (failed : (d.decode vm m).1 = .error e) :
    vm.step m d = (.error e, m, (d.decode vm m).2) := by
  simp only [Vm.step]
  split
  next e' decoder decoded =>
    rw [decoded] at failed ⊢
    cases failed
    rfl
  next inst decoder decoded =>
    rw [decoded] at failed
    cases failed

/-! ### The loop of `DefaultMachine::run` -/

/-- The machine and the decoder after the test of the reset signal. -/
def refresh (m : M) (d : Decoder) : M × Decoder :=
  ((vm.resetSignal m).2, if (vm.resetSignal m).1 then d.resetInstructionsCache else d)

/-- One round of the loop, which leaves with the result and the machine. -/
def runRound (state : M × Decoder) : Loop.Round (M × Decoder) (Except Error Int8 × M) :=
  if vm.running state.1 then
    let (m, d) := refresh vm state.1 state.2
    match vm.step m d with
    | (.ok (), m, d) => .again (m, d)
    | (.error e, m, _) => .leave (.error e, m)
  else .leave (.ok (vm.exitCode state.1), state.1)

/-- `DefaultMachine::run`, as far as it gets in a number of rounds. -/
def Vm.run (rounds : Nat) (m : M) : Option (Except Error Int8 × M) :=
  if vm.isa m &&& isaMop ≠ 0 ∧ vm.version m = version0 then some (.error .invalidVersion, m)
  else Loop.run (runRound vm) rounds (vm.setRunning true m, .build)

end CkbVm
