import CkbDebugger.Bytes.LittleEndian
import CkbDebugger.CkbVm.Interface

/-!
# The gdbstub backend

`GdbStubHandler` wraps a machine. It is itself a machine for `execute`: it forwards
every method to the wrapped one and notes the addresses of loads and stores, from
which `step` makes the events that stop the program.
-/
namespace GdbStub

open CkbVm (Machine Decoder Instruction Opcode Op Call Error A7)

inductive ExecMode where
  | step
  | continue
  | rangeStep (start stop : UInt64)
  deriving Repr, DecidableEq

inductive FilteredSyscalls where
  | none
  | all
  | filter (numbers : List UInt64)
  deriving Repr, DecidableEq

def FilteredSyscalls.filtered (number : UInt64) : FilteredSyscalls → Bool
  | .none => false
  | .all => true
  | .filter numbers => numbers.contains number

inductive WatchKind where
  | write
  | read
  | readWrite
  deriving Repr, DecidableEq

inductive VmEvent where
  | incomingData
  | doneStep
  | exited (code : UInt8)
  | break
  | watchWrite (addr : UInt64)
  | watchRead (addr : UInt64)
  | catchSyscall (number : UInt64)
  | error (e : Error)
  deriving Repr, DecidableEq

structure Handler (M : Type) where
  execMode : ExecMode
  machine : M
  decoder : Decoder
  breakpoints : List UInt64
  catchSyscalls : FilteredSyscalls
  watchpoints : List (UInt64 × WatchKind)
  memoryWrites : List UInt64
  memoryReads : List UInt64

def Handler.new {M : Type} (machine : M) : Handler M where
  execMode := .continue
  machine := machine
  decoder := .build
  breakpoints := []
  catchSyscalls := .none
  watchpoints := []
  memoryWrites := []
  memoryReads := []

section Machine

variable {M : Type} (vm : Machine M)

/-! ### The handler as a machine -/

/-- The methods of `Memory`, `CoreMachine` and `Machine`: all are forwarded, and a load
or a store that succeeds is noted. -/
def Handler.perform : Interface.Performer Op Op.Result (Handler M)
  | .load width addr, h =>
    match vm.perform (.load width addr) h.machine with
    | (.ok value, m) => (.ok value, { h with machine := m, memoryReads := h.memoryReads ++ [addr] })
    | (.error e, m) => (.error e, { h with machine := m })
  | .store width addr value, h =>
    match vm.perform (.store width addr value) h.machine with
    | (.ok (), m) => (.ok (), { h with machine := m, memoryWrites := h.memoryWrites ++ [addr] })
    | (.error e, m) => (.error e, { h with machine := m })
  | op, h => ((vm.perform op h.machine).1, { h with machine := (vm.perform op h.machine).2 })

theorem perform_wraps : Interface.Wraps vm.perform (Handler.perform vm) Handler.machine where
  answers := by
    intro op h
    cases op with
    | load width addr =>
      simp only [Handler.perform]
      split <;> simp_all
    | store width addr value =>
      simp only [Handler.perform]
      split <;> simp_all
    | _ => rfl
  forwards := by
    intro op h
    cases op with
    | load width addr =>
      simp only [Handler.perform]
      split <;> simp_all
    | store width addr value =>
      simp only [Handler.perform]
      split <;> simp_all
    | _ => rfl

/-! ### Steps -/

def Handler.clearMemoryOps (h : Handler M) : Handler M := { h with memoryWrites := [], memoryReads := [] }

def Handler.stepInner (h : Handler M) : Except Error Unit × Handler M :=
  match h.decoder.decode vm.toVm h.machine with
  | (.error e, decoder) => (.error e, { h with decoder := decoder })
  | (.ok inst, decoder) =>
    match vm.addCycles (vm.instructionCycleFunc inst) h.machine with
    | (.error e, counted) => (.error e, { h with decoder := decoder, machine := counted })
    | (.ok (), counted) =>
      -- the notes of the instruction before are dropped only here, after its cycles are paid
      (vm.program inst).run (Handler.perform vm)
        ({ h with decoder := decoder, machine := counted } : Handler M).clearMemoryOps

theorem perform_decoder (op : Op) (h : Handler M) : (Handler.perform vm op h).2.decoder = h.decoder := by
  cases op with
  | load width addr =>
    simp only [Handler.perform]
    split <;> rfl
  | store width addr value =>
    simp only [Handler.perform]
    split <;> rfl
  | _ => rfl

/-- For the machine inside and the decoder, a step of the handler is a step of the
machine itself. -/
theorem stepInner_step (h : Handler M) : vm.step h.machine h.decoder =
    ((h.stepInner vm).1, (h.stepInner vm).2.machine, (h.stepInner vm).2.decoder) := by
  simp only [CkbVm.Vm.step, CkbVm.Vm.perform, Handler.stepInner]
  cases decoded : h.decoder.decode vm.toVm h.machine with
  | mk result decoder =>
    cases result with
    | error e => rfl
    | ok inst =>
      cases added : vm.addCycles (vm.instructionCycleFunc inst) h.machine with
      | mk result counted =>
        cases result with
        | error e => simp only [added]
        | ok _ =>
          have run := (perform_wraps vm).run_eq (vm.program inst)
            ({ h with decoder := decoder, machine := counted } : Handler M).clearMemoryOps
          have kept := Interface.run_keeps Handler.decoder (perform_decoder vm) (vm.program inst)
            ({ h with decoder := decoder, machine := counted } : Handler M).clearMemoryOps
          simp only [added, vm.executes, run.1, run.2, kept]
          rfl

def Handler.nextOpcode (h : Handler M) : Option Opcode × Handler M :=
  match h.decoder.decode vm.toVm h.machine with
  | (.ok inst, decoder) => (some inst.opcode, { h with decoder := decoder })
  | (.error _, decoder) => (none, { h with decoder := decoder })

/-- The machine and the decoder after the test of the reset signal. -/
def Handler.refresh (h : Handler M) : Handler M :=
  { h with
    machine := (CkbVm.refresh vm.toVm h.machine h.decoder).1
    decoder := (CkbVm.refresh vm.toVm h.machine h.decoder).2 }

/-- The syscall that the next instruction makes, if it is to be caught. -/
def Handler.caught (h : Handler M) (opcode : Option Opcode) : Option UInt64 :=
  let number := vm.registers h.machine A7
  if opcode = some .ecall ∧ h.catchSyscalls.filtered number then some number else none

/-- What `step` finds after the instruction. The last access is taken off its list. -/
def Handler.stopEvent (h : Handler M) : Option VmEvent × Handler M :=
  let (opcode, h) := h.nextOpcode vm
  match h.caught vm opcode with
  | some number => (some (.catchSyscall number), h)
  | none =>
    if h.breakpoints.contains (vm.pc h.machine) then (some .break, h)
    else
      -- any access is an event: `watchpoints` is not asked
      match h.memoryWrites.getLast? with
      | some addr => (some (.watchWrite addr), { h with memoryWrites := h.memoryWrites.dropLast })
      | none =>
        match h.memoryReads.getLast? with
        | some addr => (some (.watchRead addr), { h with memoryReads := h.memoryReads.dropLast })
        | none => (none, h)

def Handler.step (h : Handler M) : Option VmEvent × Handler M :=
  let h := h.refresh vm
  if vm.running h.machine then
    match h.stepInner vm with
    | (.ok (), h) => h.stopEvent vm
    | (.error e, h) => (some (.error e), h)
  else (some (.exited (vm.exitCode h.machine).toUInt8), h)

/-! ### Runs -/

/-- `run_till_exited`, as far as it gets in a number of rounds. -/
def runTillExitedRound (h : Handler M) : Loop.Round (Handler M) (Except Error Int8 × Handler M) :=
  if vm.running h.machine then
    match h.stepInner vm with
    | (.ok (), h) => .again h
    | (.error e, h) => .leave (.error e, h)
  else .leave (.ok (vm.exitCode h.machine), h)

/-- A loop of `execute`: the handler, the steps so far, in an `i32` that wraps around, and what is
left to poll. -/
structure Executing (M Ω : Type) where
  handler : Handler M
  executed : Int32
  polled : Ω

variable {Ω : Type} (poll : Ω → Bool × Ω)

/-- The body of the loops of `execute`; `inRange` is the test of the program counter
that the mode makes after each step. -/
def executeRound (inRange : UInt64 → Bool) (s : Executing M Ω) :
    Loop.Round (Executing M Ω) (VmEvent × Handler M × Ω) :=
  match s.handler.step vm with
  | (some event, h) => .leave (event, h, s.polled)
  | (none, h) =>
    if !inRange (vm.pc h.machine) then .leave (.doneStep, h, s.polled)
    -- the connection is polled every 1024 steps only
    else if (s.executed + 1) % 1024 = 0 then
      match poll s.polled with
      | (true, polled) => .leave (.incomingData, h, polled)
      | (false, polled) => .again ⟨h, s.executed + 1, polled⟩
    else .again ⟨h, s.executed + 1, s.polled⟩

def continueRound : Executing M Ω → Loop.Round (Executing M Ω) (VmEvent × Handler M × Ω) :=
  executeRound vm poll fun _ => true

def rangeStepRound (start stop : UInt64) :
    Executing M Ω → Loop.Round (Executing M Ω) (VmEvent × Handler M × Ω) :=
  executeRound vm poll fun pc => start ≤ pc ∧ pc < stop

/-- `execute`, as far as it gets in a number of rounds. -/
def Handler.execute (rounds : Nat) (h : Handler M) (polled : Ω) : Option (VmEvent × Handler M × Ω) :=
  -- data that has already come in goes before the first step
  match poll polled with
  | (true, polled) => some (.incomingData, h, polled)
  | (false, polled) =>
    match h.execMode with
    | .step => some (((h.step vm).1.getD .doneStep), (h.step vm).2, polled)
    | .continue => Loop.run (continueRound vm poll) rounds ⟨h, 0, polled⟩
    | .rangeStep start stop => Loop.run (rangeStepRound vm poll start stop) rounds ⟨h, 0, polled⟩

end Machine

/-! ### Requests of the debugger -/

section Requests

variable {M : Type}

/-- `add_sw_breakpoint`. -/
def Handler.addSwBreakpoint (h : Handler M) (addr : UInt64) : Bool × Handler M :=
  (true, { h with breakpoints := h.breakpoints ++ [addr] })

/-- `remove_sw_breakpoint`. -/
def Handler.removeSwBreakpoint (h : Handler M) (addr : UInt64) : Bool × Handler M :=
  match h.breakpoints.findIdx? (· == addr) with
  | none => (false, h)
  | some pos => (true, { h with breakpoints := h.breakpoints.eraseIdx pos })

/-- `add_hw_watchpoint`; the length is not looked at. -/
def Handler.addHwWatchpoint (h : Handler M) (addr _len : UInt64) (kind : WatchKind) : Bool × Handler M :=
  (true, { h with watchpoints := h.watchpoints ++ [(addr, kind)] })

/-- `remove_hw_watchpoint`. The source takes the position of the watchpoint out of
`breakpoints`; `none` is the panic when that list is too short. -/
def Handler.removeHwWatchpoint (h : Handler M) (addr _len : UInt64) (kind : WatchKind) :
    Option (Bool × Handler M) :=
  match h.watchpoints.findIdx? (· == (addr, kind)) with
  | none => some (false, h)
  | some pos =>
    if pos < h.breakpoints.length then
      some (true, { h with breakpoints := h.breakpoints.eraseIdx pos })
    else none

def Handler.enableCatchSyscalls (h : Handler M) (filter : Option (List UInt64)) : Handler M :=
  { h with
    catchSyscalls := match filter with
      | some numbers => .filter numbers
      | none => .all }

def Handler.disableCatchSyscalls (h : Handler M) : Handler M := { h with catchSyscalls := .none }

/-- `resume`, which knows no signals. -/
def Handler.resume (h : Handler M) (signal : Option UInt8) : Except Error Unit × Handler M :=
  match signal with
  | some _ => (.error (.external "no support for continuing with signal"), h)
  | none => (.ok (), { h with execMode := .continue })

def Handler.resumeRangeStep (h : Handler M) (start stop : UInt64) : Handler M :=
  { h with execMode := .rangeStep start stop }

/-- `step` of `SingleThreadSingleStep`, which chooses the mode. -/
def Handler.resumeStep (h : Handler M) (signal : Option UInt8) : Except Error Unit × Handler M :=
  match signal with
  | some _ => (.error (.external "no support for stepping with signal"), h)
  | none => (.ok (), { h with execMode := .step })

end Requests

/-! ### Registers and memory -/

/-- `RiscvRegId` of `gdbstub_arch`; of the ids that the handler refuses only their text matters. -/
inductive RegId where
  | gpr (idx : UInt8)
  | pc
  | other (text : String)
  deriving Repr, DecidableEq

section Access

variable {M : Type} (vm : Machine M)

/-- `update_pc` and `commit_pc`. -/
def movePc (pc : UInt64) (m : M) : M := (vm.perform .commitPc (vm.perform (.updatePc pc) m).2).2

def setRegisters (x : Fin 32 → UInt64) (m : M) : M :=
  (List.finRange 32).foldl (fun m i => (vm.perform (.setRegister i.val (x i)) m).2) m

/-- `write_registers`. -/
def Handler.writeRegisters (h : Handler M) (x : Fin 32 → UInt64) (pc : UInt64) : Handler M :=
  { h with machine := movePc vm pc (setRegisters vm x h.machine) }

/-- `write_register`; `none` is the panic for a value that is longer than a register. -/
def Handler.writeRegister (h : Handler M) (reg : RegId) (val : List UInt8) :
    Option (Except Error Unit × Handler M) :=
  if val.length ≤ 8 then
    match reg with
    | .pc => some (.ok (), { h with machine := movePc vm (.ofNat (Bytes.leValue val)) h.machine })
    | .gpr idx => some (.ok (), { h with
        machine := (vm.perform (.setRegister idx.toNat (.ofNat (Bytes.leValue val))) h.machine).2 })
    | .other text => some (.error (.external ("Invalid register id: " ++ text)), h)
  else none

/-- The loads of `read_addrs`, up to the first that fails. -/
def loadAddrs (start : UInt64) : Nat → M → Except Error (List UInt8) × M
  | 0, m => (.ok [], m)
  | count + 1, m =>
    match vm.perform (.load .w8 start) m with
    | (.error e, m) => (.error e, m)
    | (.ok value, m) =>
      let (others, m) := loadAddrs (start + 1) count m
      (others.map (value.toUInt8 :: ·), m)

/-- `read_addrs`. The memory is that of the machine inside, so nothing is noted. -/
def Handler.readAddrs (h : Handler M) (start : UInt64) (count : Nat) : Except Error (List UInt8) × Handler M :=
  ((loadAddrs vm start count h.machine).1, { h with machine := (loadAddrs vm start count h.machine).2 })

/-- `write_addrs`. -/
def Handler.writeAddrs (h : Handler M) (start : UInt64) (data : List UInt8) : Except Error Unit × Handler M :=
  ((vm.perform (.storeBytes start data) h.machine).1,
    { h with machine := (vm.perform (.storeBytes start data) h.machine).2 })

end Access

end GdbStub
