import CkbDebugger.GdbRemote.HexText
import CkbDebugger.GdbRemote.Reply
import CkbDebugger.GdbServer.Panics

/-!
# The packets of one register

`P` writes a register and `p` reads one. The registers are numbered from 0, and the program counter
comes after them; the contents are sent least significant byte first, and `P` may leave out bytes
that are zero.
-/
namespace GdbServer

open Nom
open CkbVm (Vm)
open GdbRemote (Bytes ascii HandlerError Server Answered Digits HexData handlePacket handleCommand
  hexValue_digits hexValue_at_end stops_at_mark hexByteSequence_at_end isHexDigit writeHexData answered_of_response
  runOn_call_of_answer)

variable {M : Type}

/-! ### The machine -/

/-- What the handler relies on in `ckb-vm`: `set_register` stores the value in its slot, `update_pc` and
`commit_pc` set the program counter, and neither does anything else to registers or memory. -/
structure Stores (target : Target M) : Prop where
  registers_setRegister : ∀ i value m j, i ≠ 0 →
    target.registers (target.setRegister i value m) j = if j = i then value else target.registers m j
  pc_setRegister : ∀ i value m, i ≠ 0 → target.pc (target.setRegister i value m) = target.pc m
  memory_setRegister : ∀ i value m addr, i ≠ 0 →
    target.load8 (target.setRegister i value m) addr = target.load8 m addr
  pc_setPc : ∀ value m, target.pc (target.setPc value m) = value
  registers_setPc : ∀ value m j, target.registers (target.setPc value m) j = target.registers m j
  memory_setPc : ∀ value m addr, target.load8 (target.setPc value m) addr = target.load8 m addr

/-- Everything that a client can see of the handler is the same, but the register with the given number. -/
structure SameBut (target : Target M) (register : UInt64) (before after : Handler M) : Prop where
  registers : ∀ other, other ≠ register → after.readRegister target other = before.readRegister target other
  memory : ∀ addr, target.load8 after.machine addr = target.load8 before.machine addr
  breakpoints : after.breakpoints = before.breakpoints
  watchpoints : after.watchpoints = before.watchpoints

/-! ### The requests -/

/-- The contents with the zeros that may have been left out. -/
def padded (contents : Bytes) : Bytes := contents ++ List.replicate (8 - contents.length) 0

theorem formatRegisterValue_contents {contents : Bytes} (short : contents.length ≤ 8) :
    formatRegisterValue (UInt64.ofNat (Bytes.leValue contents)) = padded contents := by
  have fits : Bytes.leValue contents < 2 ^ 64 := by
    have bound := Bytes.leValue_lt contents
    have power : 256 ^ contents.length ≤ 256 ^ 8 := Nat.pow_le_pow_right (by decide) short
    omega
  rw [formatRegisterValue, UInt64.toNat_ofNat', Nat.mod_eq_of_lt fits, Bytes.leBytes_leValue_padded short, padded]

section Requests

variable {target : Target M} {h : Handler M} {register : UInt64} {contents : Bytes}

/-- A register that is written reads as what was written, and all the others as before. -/
theorem writeRegister_general (stores : Stores target) (short : contents.length ≤ 8)
    (positive : 1 ≤ register.toNat) (general : register.toNat < generalRegisterNumber) :
    ∃ after, h.writeRegister target register contents = (.ok (), after) ∧
      after.readRegister target register = .ok (padded contents) ∧ SameBut target register h after := by
  have notLong : ¬contents.length > 8 := by omega
  have nonzero : (⟨register.toNat, general⟩ : Fin 32) ≠ 0 := by
    intro zero
    have value := congrArg Fin.val zero
    simp only [Fin.val_zero] at value
    omega
  refine ⟨{ h with
      machine := target.setRegister ⟨register.toNat, general⟩ (UInt64.ofNat (Bytes.leValue contents)) h.machine },
    ?_, ?_, ?_, ?_, rfl, rfl⟩
  · simp only [Handler.writeRegister, notLong, general, if_false, dif_pos]
  · simp only [Handler.readRegister, general, dif_pos, stores.registers_setRegister _ _ _ _ nonzero, if_true,
      formatRegisterValue_contents short]
  · intro other differs
    simp only [Handler.readRegister, stores.pc_setRegister _ _ _ nonzero]
    -- a general register, or the program counter and the numbers that are refused
    split
    next inside =>
      have slot : (⟨other.toNat, inside⟩ : Fin 32) ≠ ⟨register.toNat, general⟩ := by
        intro same
        have numbers : other.toNat = register.toNat := congrArg (fun i : Fin 32 => i.val) same
        exact differs (UInt64.toNat_inj.mp numbers)
      rw [stores.registers_setRegister _ _ _ _ nonzero, if_neg slot]
    next => rfl
  · intro addr
    exact stores.memory_setRegister _ _ _ addr nonzero

theorem writeRegister_pc (stores : Stores target) (short : contents.length ≤ 8)
    (pc : register.toNat = generalRegisterNumber) :
    ∃ after, h.writeRegister target register contents = (.ok (), after) ∧
      after.readRegister target register = .ok (padded contents) ∧ SameBut target register h after := by
  have notLong : ¬contents.length > 8 := by omega
  have notGeneral : ¬register.toNat < generalRegisterNumber := by omega
  refine ⟨{ h with machine := target.setPc (UInt64.ofNat (Bytes.leValue contents)) h.machine },
    ?_, ?_, ?_, ?_, rfl, rfl⟩
  · rw [Handler.writeRegister, if_neg notLong]
    simp only [notGeneral, dif_neg, not_false_eq_true, if_pos pc]
  · rw [Handler.readRegister, dif_neg notGeneral, if_pos pc, stores.pc_setPc, formatRegisterValue_contents short]
  · intro other differs
    have notPc : other.toNat ≠ generalRegisterNumber := by
      intro same
      exact differs (UInt64.toNat_inj.mp (same.trans pc.symm))
    simp only [Handler.readRegister, stores.registers_setPc, notPc, if_false]
  · intro addr
    exact stores.memory_setPc _ _ addr

theorem writeRegister_refused (bad : 8 < contents.length ∨ generalRegisterNumber < register.toNat) :
    h.writeRegister target register contents = (.error (.error 2), h) := by
  unfold Handler.writeRegister
  split
  · rfl
  next short =>
    have beyond : generalRegisterNumber < register.toNat := by omega
    have notGeneral : ¬register.toNat < generalRegisterNumber := by omega
    have notPc : register.toNat ≠ generalRegisterNumber := by omega
    simp only [notGeneral, notPc, dif_neg, not_false_eq_true, if_false]

end Requests

/-! ### The packets -/

def writePacket (number digits : Bytes) : Bytes := ascii "P" ++ (number ++ (ascii "=" ++ digits))

def readPacket (number : Bytes) : Bytes := ascii "p" ++ number

theorem command_writePacket {number digits contents : Bytes} {register : UInt64} (named : Digits number register)
    (written : HexData digits contents) (nonempty : contents ≠ []) :
    GdbRemote.command (writePacket number digits) = .done [] (.writeRegister register contents) := by
  have equals : ∀ b ∈ (ascii "=" ++ digits).head?, isHexDigit b = false :=
    stops_at_mark rfl _
  have parsed : GdbRemote.writeRegister (writePacket number digits) = .done [] (register, contents) := by
    simp only [GdbRemote.writeRegister, writePacket, preceded_literal_append, separatedPair, bind_apply,
      hexValue_digits named equals, andThen_done, literal_append, hexByteSequence_at_end written nonempty, pure_apply]
  unfold GdbRemote.command
  -- the ten productions before it start with another letter
  iterate 10 rw [alt_cons_of_error (by rfl)]
  rw [alt_cons_of_others_error _ rfl, map_apply, parsed, andThen_done]

theorem command_readPacket {number : Bytes} {register : UInt64} (named : Digits number register) :
    GdbRemote.command (readPacket number) = .done [] (.readRegister register) := by
  have parsed : GdbRemote.readRegister (readPacket number) = .done [] register := by
    rw [GdbRemote.readRegister, readPacket, preceded_literal_append, hexValue_at_end named]
  unfold GdbRemote.command
  iterate 9 rw [alt_cons_of_error (by rfl)]
  rw [alt_cons_of_others_error _ rfl, map_apply, parsed, andThen_done]

/-! ### Read after write -/

section Packets

variable {target : Target M} {checks : Bool} {rounds : Nat} {server : Server (Handler M)}
  {number digits contents : Bytes} {register : UInt64}

theorem write_answered (named : Digits number register) (written : HexData digits contents)
    (nonempty : contents ≠ []) {result : Except HandlerError Unit} {state : Handler M}
    (wrote : server.handler.writeRegister target register contents = (result, state)) :
    ∃ after, Answered (checkedHandler target checks rounds) server (writePacket number digits)
      (GdbRemote.Response.fromResult (fun _ => .ok) result).payload after ∧ after.handler = state := by
  have answers : checkedHandler target checks rounds (.writeRegister register contents) server.handler =
      some (result, state) := congrArg some wrote
  have ran : (handleCommand (checkedHandler target checks rounds) (.writeRegister register contents)).runOn server =
      (some (.fromResult (fun _ => .ok) result),
        ⟨state, server.calls ++ [.writeRegister register contents], server.output⟩) := by
    rw [handleCommand, GdbRemote.runOn_bind, runOn_call_of_answer answers]
    rfl
  obtain ⟨after, answered, handler, _⟩ := answered_of_response (command_writePacket named written nonempty) ran
  exact ⟨after, answered, handler⟩

theorem read_answered (named : Digits number register) {value : Bytes}
    (holds : server.handler.readRegister target register = .ok value) :
    ∃ after, Answered (checkedHandler target checks rounds) server (readPacket number)
      (writeHexData value).flatten after ∧ after.handler = server.handler := by
  have answers : checkedHandler target checks rounds (.readRegister register) server.handler =
      some (.ok value, server.handler) := congrArg (fun result => some (result, server.handler)) holds
  have ran : (handleCommand (checkedHandler target checks rounds) (.readRegister register)).runOn server =
      (some (.bytes value), ⟨server.handler, server.calls ++ [.readRegister register], server.output⟩) := by
    rw [handleCommand, GdbRemote.runOn_bind, runOn_call_of_answer answers]
    rfl
  obtain ⟨after, answered, handler, _⟩ := answered_of_response (command_readPacket named) ran
  exact ⟨after, answered, handler⟩

end Packets

/-- A register from 1 to 32 takes contents of up to 8 bytes, reads as these and zeros after them, and leaves
everything else as it is. Longer contents and higher numbers get `E02`, and change nothing. -/
theorem register_packets (target : Target M) (stores : Stores target) (checks : Bool) (rounds : Nat)
    (server : Server (Handler M)) {number number' digits contents : Bytes} {register : UInt64}
    (named : Digits number register) (named' : Digits number' register) (written : HexData digits contents)
    (nonempty : 1 ≤ contents.length) :
    (1 ≤ register.toNat ∧ register.toNat ≤ 32 ∧ contents.length ≤ 8 →
      ∃ after, Answered (checkedHandler target checks rounds) server (writePacket number digits) (ascii "OK") after ∧
        SameBut target register server.handler after.handler ∧
        ∃ final, Answered (checkedHandler target checks rounds) after (readPacket number')
          (writeHexData (padded contents)).flatten final ∧ final.handler = after.handler) ∧
    (8 < contents.length ∨ 32 < register.toNat →
      ∃ after, Answered (checkedHandler target checks rounds) server (writePacket number digits) (ascii "E02") after ∧
        after.handler = server.handler) := by
  have some : contents ≠ [] := List.length_pos_iff.mp nonempty
  constructor
  · rintro ⟨positive, last, short⟩
    obtain ⟨state, wrote, reads, same⟩ : ∃ state,
        server.handler.writeRegister target register contents = (.ok (), state) ∧
          state.readRegister target register = .ok (padded contents) ∧
          SameBut target register server.handler state := by
      by_cases general : register.toNat < generalRegisterNumber
      · exact writeRegister_general stores short positive general
      · exact writeRegister_pc stores short (Nat.le_antisymm last (Nat.not_lt.mp general))
    obtain ⟨after, answered, handler⟩ := @write_answered _ target checks rounds _ _ _ _ _ named written some _ _ wrote
    -- the reply to the first packet leaves the handler as the write has left it
    rw [← handler] at reads same
    obtain ⟨final, value, unchanged⟩ := @read_answered _ target checks rounds _ _ _ named' _ reads
    exact ⟨after, answered, same, final, value, unchanged⟩
  · intro bad
    obtain ⟨after, answered, handler⟩ := @write_answered _ target checks rounds _ _ _ _ _ named written some _ _
      (writeRegister_refused bad)
    exact ⟨after, answered, handler⟩

structure RegisterFile where
  registers : Fin 32 → UInt64
  pc : UInt64

/-- A machine of registers, over a memory of zeros. -/
def registerFile : Target RegisterFile where
  pc := RegisterFile.pc
  registers := RegisterFile.registers
  isa := fun _ => 0
  version := fun _ => 2
  running := fun _ => true
  setRunning := fun _ m => m
  exitCode := fun _ => 0
  resetSignal := fun m => (false, m)
  load8 := fun _ _ => .ok 0
  instructionCycleFunc := fun _ => 1
  addCycles := fun _ m => (.ok (), m)
  fetch := fun _ _ => .ok ⟨.other, 4, 0, CkbVm.ZERO, 0x13⟩
  execute := fun _ m => (.ok (), { m with pc := m.pc + 4 })
  slot := UInt64.toNat
  execs := fun _ => 0
  setRegister := fun i value m => { m with registers := Function.update m.registers i value }
  setPc := fun value m => { m with pc := value }
  storeBytes := fun _ _ m => (.ok (), m)

theorem registerFile_stores : Stores registerFile where
  registers_setRegister := fun i value m j _ => Function.update_apply m.registers i value j
  pc_setRegister := fun _ _ _ _ => rfl
  memory_setRegister := fun _ _ _ _ _ => rfl
  pc_setPc := fun _ _ => rfl
  registers_setPc := fun _ _ _ => rfl
  memory_setPc := fun _ _ _ => rfl

/-- The program counter, from two bytes. -/
theorem pc_written_and_read :
    ∃ after, Answered (checkedHandler registerFile true 0) ⟨.new ⟨fun _ => 0, 0⟩, [], []⟩ (ascii "P20=00A1")
        (ascii "OK") after ∧
      ∃ final, Answered (checkedHandler registerFile true 0) after (ascii "p20") (ascii "00a1000000000000") final := by
  have named : Digits (ascii "20") 32 := GdbRemote.digits_of_all (by decide) rfl rfl
  have written : HexData (ascii "00A1") [0, 0xa1] :=
    ⟨[ascii "00", ascii "A1"], rfl, .cons ⟨48, 48, rfl, rfl, rfl, rfl⟩ (.cons ⟨65, 49, rfl, rfl, rfl, rfl⟩ .nil)⟩
  obtain ⟨served, _⟩ := register_packets registerFile registerFile_stores true 0 ⟨.new ⟨fun _ => 0, 0⟩, [], []⟩
    named named written (by decide)
  obtain ⟨after, answered, _, final, value, _⟩ := served (by decide)
  exact ⟨after, answered, final, value⟩

end GdbServer
