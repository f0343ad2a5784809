import CkbDebugger.CkbVm.Machine

/-!
# The loops of the command line tool

`machine_step` of `--step`, the loop of the probe mode, and `machine_sget`, which runs a
program up to its n-th exec or spawn before a debugger is attached.
-/
namespace Cli

open CkbVm (Vm Decoder Error Instruction SP A7)

section Machine

variable {M : Type} (vm : Vm M)

/-! ### Single steps -/

/-- The machine and the decoder of a loop, and the lines that it has printed. -/
structure Stepping (M : Type) where
  machine : M
  decoder : Decoder
  printed : List String

/-- The lines before an instruction: none inside the range to skip, and the machine as
well from `--step --step` on. -/
def stepInfo (display : M → String) (skipRange : Option (UInt64 × UInt64)) (level : Nat) (m : M) :
    List String :=
  match skipRange with
  | some (start, stop) => if start ≤ vm.pc m ∧ vm.pc m < stop then [] else info
  | none => info
where
  info := ("PC: 0x" ++ String.ofList (Nat.toDigits 16 (vm.pc m).toNat)) ::
    if level > 1 then ["Machine: " ++ display m] else []

/-- The body of the loop of `machine_step`. -/
def machineStepRound (display : M → String) (skipRange : Option (UInt64 × UInt64)) (level : Nat)
    (s : Stepping M) : Loop.Round (Stepping M) (Except Error Int8 × Stepping M) :=
  if vm.running s.machine then
    let printed := s.printed ++ stepInfo vm display skipRange level s.machine
    match vm.step s.machine s.decoder with
    | (.ok (), m, d) => .again ⟨m, d, printed⟩
    | (.error e, m, d) => .leave (.error e, ⟨m, d, printed⟩)
  else .leave (.ok (vm.exitCode s.machine), s)

/-- The body of the loop of the probe mode. It decodes and executes by itself; the probes
it fires change nothing. -/
def probeRound (s : M × Decoder) : Loop.Round (M × Decoder) (Except Error Int8 × M) :=
  -- unlike `DefaultMachine::run` it never tests the reset signal
  if vm.running s.1 then
    match s.2.decode vm s.1 with
    | (.error e, _) => .leave (.error e, s.1)
    | (.ok inst, d) =>
      match vm.addCycles (vm.instructionCycleFunc inst) s.1 with
      | (.error e, counted) => .leave (.error e, counted)
      | (.ok (), counted) =>
        match vm.execute inst counted with
        | (.error e, m) => .leave (.error e, m)
        | (.ok (), m) => .again (m, d)
  else .leave (.ok (vm.exitCode s.1), s.1)

/-! ### Up to an exec or a spawn -/

/-- `ResumableMachine` of `ckb-script`, with the data `S` of a spawn. -/
inductive ResumableMachine (M S : Type) where
  | initial (machine : M)
  | spawn (machine : M) (data : S)

/-- What `machine_sget` uses of `ckb-script`. `suspends` are the machines that a step puts
on the context's stack, the last one first. -/
structure Host (M S : Type) where
  cycles : M → UInt64
  maxCycles : M → UInt64
  setCycles : UInt64 → M → M
  setMaxCycles : UInt64 → M → M
  suspends : M → List (ResumableMachine M S)
  updateCallerMachine : M → Int8 → UInt64 → S → Except Error Unit × M

/-- The variables of `machine_sget`. `inner` tells the inner loop from the outer one. -/
structure Sget (M S : Type) where
  machine : M
  decoder : Decoder
  specify : Nat
  machineVec : List M
  spawnData : Option S
  suspendedMachines : List (ResumableMachine M S)
  inner : Bool

variable {S : Type} (host : Host M S)

/-- What follows the inner loop: a machine that has stopped gives way to its caller.
`none` is a panic. -/
def Sget.afterInner (s : Sget M S) : Loop.Round (Sget M S) (Option (Except Error M)) :=
  if vm.running s.machine then .again { s with inner := false }
  else
    match s.machineVec, s.spawnData with
    -- the data of the latest spawn is kept, also for callers of an earlier one
    | caller :: callers, some data =>
      match host.updateCallerMachine caller 0 0 data with
      | (.ok (), caller) => .again { s with machine := caller, machineVec := callers, inner := false }
      | (.error _, _) => .leave none
    | _, _ => .leave none

/-- The syscall numbers that the loop looks for. -/
def execSyscall : UInt64 := 2043
def spawnSyscall : UInt64 := 2101

/-- An exec: the machine goes on with the new program. -/
def Sget.onExec (s : Sget M S) (d : Decoder) : Loop.Round (Sget M S) (Option (Except Error M)) :=
  match vm.step s.machine d with
  | (.error e, _, _) => .leave (some (.error e))
  | (.ok (), m, d) =>
    Sget.afterInner vm host
      { s with
        machine := (CkbVm.refresh vm m d).1
        decoder := (CkbVm.refresh vm m d).2
        specify := s.specify - 1
        suspendedMachines := host.suspends s.machine ++ s.suspendedMachines }

/-- A spawn: the machine is left with 500 cycles, so that the child is suspended at its
start and can be taken from the context. -/
def Sget.onSpawn (s : Sget M S) (d : Decoder) : Loop.Round (Sget M S) (Option (Except Error M)) :=
  let cyclesCurrent := host.cycles s.machine
  let limited := host.setCycles (host.maxCycles s.machine - 500) s.machine
  let cyclesDiff := host.cycles limited - cyclesCurrent
  -- the step is meant to run out of cycles, so its error is dropped
  let (_, stepped, d) := vm.step limited d
  let machine := host.setCycles (cyclesCurrent + 500) stepped
  match host.suspends limited ++ s.suspendedMachines with
  | [] => .leave none
  | .spawn child data :: suspended =>
    Sget.afterInner vm host
      { s with
        machine := host.setMaxCycles cyclesDiff child
        decoder := d
        specify := s.specify - 1
        machineVec := machine :: s.machineVec
        spawnData := some data
        suspendedMachines := suspended }
  -- what was popped is dropped, and counts as a spawn all the same
  | .initial _ :: suspended =>
    Sget.afterInner vm host
      { s with machine := machine, decoder := d, specify := s.specify - 1, suspendedMachines := suspended }

/-- The bodies of the two loops of `machine_sget`. -/
def sgetRound (s : Sget M S) : Loop.Round (Sget M S) (Option (Except Error M)) :=
  if s.inner then
    if vm.running s.machine then
      match s.decoder.decode vm s.machine with
      | (.error e, _) => .leave (some (.error e))
      | (.ok inst, d) =>
        if inst.opcode = .ecall ∧ vm.registers s.machine A7 = execSyscall then s.onExec vm host d
        else if inst.opcode = .ecall ∧ vm.registers s.machine A7 = spawnSyscall then s.onSpawn vm host d
        else
          match vm.step s.machine d with
          | (.error e, _, _) => .leave (some (.error e))
          | (.ok (), m, d) =>
            .again { s with
              machine := m
              decoder := d
              suspendedMachines := host.suspends s.machine ++ s.suspendedMachines }
    else s.afterInner vm host
  -- between two rounds of the inner loop the outer one tests the count
  else if s.specify = 0 then .leave (some (.ok s.machine))
  else .again { s with decoder := s.decoder.resetInstructionsCache, inner := true }

/-- The state in which `machine_sget` starts. -/
def Sget.start (machine : M) (specify : Nat) (suspendedMachines : List (ResumableMachine M S)) : Sget M S where
  machine := machine
  decoder := .build
  specify := specify
  machineVec := []
  spawnData := none
  suspendedMachines := suspendedMachines
  inner := false

end Machine

end Cli
