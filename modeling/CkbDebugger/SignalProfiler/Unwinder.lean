import CkbDebugger.CkbVm.Machine
import CkbDebugger.Loop.Basic
import CkbDebugger.SignalProfiler.Report

/-!
# The stack unwinder

At every signal the profiler walks up the stack of the interrupted machine. The rows of the unwind
table say how the registers of a caller are found; `none` is a panic.

What `gimli` and `addr2line` find in a program is data here.
-/
namespace SignalProfiler

/-! ### Debug information -/

/-- A rule of `gimli` for the canonical frame address. Other expressions come with their `Debug` text. -/
inductive CfaRule where
  | registerAndOffset (register : UInt16) (offset : Int64)
  | expression (debug : String)
  deriving Repr, DecidableEq

/-- A rule of `gimli` for a register of the caller. -/
inductive RegisterRule where
  | undefined
  | sameValue
  | offset (n : Int64)
  | valOffset (n : Int64)
  | register (r : UInt16)
  | expression
  | valExpression
  | architectural
  deriving Repr, DecidableEq

structure UnwindTableRow where
  startAddress : UInt64
  endAddress : UInt64
  cfa : CfaRule
  registers : List (UInt16 × RegisterRule)
  deriving Repr, DecidableEq

def UnwindTableRow.contains (row : UnwindTableRow) (address : UInt64) : Bool :=
  decide (row.startAddress ≤ address) && decide (address < row.endAddress)

/-- The result of `fde_for_address`, with that of the `rows` of an entry: the rows up to an error. -/
inductive FdeForAddress where
  | noUnwindInfo
  | error (e : String)
  | noTable (e : String)
  | table (rows : List (Except String UnwindTableRow))
  deriving Repr, DecidableEq

structure Location where
  file : Option String
  line : Option UInt32
  deriving Repr, DecidableEq

/-- What is known of the addresses of a program. The frames of an address come up to an error, with
the demangled names of their functions. -/
structure DebugContext where
  fdeForAddress : UInt64 → FdeForAddress
  findLocation : UInt64 → Except String (Option Location)
  findFrames : UInt64 → Except String (List (Except String (Option (Except String String))))

/-- The name that `sprint_fun` is left with: it ends at the first frame without a function. -/
def sprintFun (s : String) : List (Except String (Option (Except String String))) → Option String
  | [] => some s
  | .error _ :: _ => none
  | .ok none :: _ => some s
  | .ok (some (.error _)) :: _ => none
  | .ok (some (.ok name)) :: frames => sprintFun name frames

/-- Errors of the lookups panic, and so does a location without a file. -/
def extractSymbol (context : DebugContext) (pc : UInt64) : Option Symbol := do
  let loc ← (context.findLocation pc).toOption
  let (file, line) ← match loc with
    | some loc => loc.file.map fun file => (some file, loc.line)
    | none => some (none, none)
  let frames ← (context.findFrames pc).toOption
  let func ← sprintFun "<Unknown>" frames
  return { name := some func, line := line, file := file }

/-! ### Rows -/

/-- The format `{:x}`. -/
def hexText (n : UInt64) : String := String.ofList (Nat.toDigits 16 n.toNat)

/-- The first row for an address, unless reading the table fails before it. -/
def findRow (address : UInt64) : List (Except String UnwindTableRow) → Except String (Option UnwindTableRow)
  | [] => .ok none
  | .error e :: _ => .error ("Error fetching next row: " ++ e)
  | .ok row :: rows => if row.contains address then .ok (some row) else findRow address rows

def unwindInfo (context : DebugContext) (address : UInt64) : Except String (Option UnwindTableRow) :=
  match context.fdeForAddress address with
  | .noUnwindInfo => .ok none
  | .error e => .error ("Error from fde_for_address: \"" ++ e ++ "\", address: " ++ hexText address)
  | .noTable e => .error ("Error creating UnwindTable: \"" ++ e ++ "\", address: " ++ hexText address)
  | .table rows => findRow address rows

/-! ### Registers -/

/-- `RiscV::RA`. -/
def RA : UInt16 := 1

/-- `RiscV::SP`. -/
def SP : UInt16 := 2

abbrev Registers : Type := Fin 32 → Option UInt64

/-- A register is read; `none` is an index that is out of bounds. -/
def Registers.read (registers : Registers) (reg : UInt16) : Option (Option UInt64) :=
  if inside : reg.toNat < 32 then some (registers ⟨reg.toNat, inside⟩) else none

def Registers.write (registers : Registers) (reg : UInt16) (value : Option UInt64) : Option Registers :=
  if inside : reg.toNat < 32 then some (Function.update registers ⟨reg.toNat, inside⟩ value) else none

/-- The machine that was interrupted. -/
structure Machine where
  registers : Fin 32 → UInt64
  pc : UInt64
  load64 : UInt64 → Except CkbVm.Error UInt64

def Machine.initial (machine : Machine) : Registers := fun i => some (machine.registers i)

/-- The value that a rule gives to a register of the caller. -/
def RegisterRule.value (machine : Machine) (registers : Registers) (cfa : UInt64) (reg : UInt16) :
    RegisterRule → Option (Option UInt64)
  | .undefined => none
  | .sameValue => registers.read reg
  | .register r => registers.read r
  | .offset n =>
    match machine.load64 (cfa + n.toUInt64) with
    | .ok value => some (some value)
    | .error _ => none
  | .valOffset n => some (some (cfa + n.toUInt64))
  | .expression => none
  | .valExpression => none
  | .architectural => none

/-- A round of the loop over the rules of a row. The rules read the registers of the callee. -/
def applyRule (machine : Machine) (registers : Registers) (cfa : UInt64) (newregs : Registers)
    (entry : UInt16 × RegisterRule) : Option Registers := do
  if entry.1 = SP then none
  else
    let value ← entry.2.value machine registers cfa entry.1
    newregs.write entry.1 value

/-- The registers of the caller. Without a rule the return address of the caller is unknown. -/
def newRegisters (machine : Machine) (registers : Registers) (row : UnwindTableRow) (cfa : UInt64) :
    Option Registers := do
  let newregs ← registers.write RA none
  let newregs ← row.registers.foldlM (applyRule machine registers cfa) newregs
  newregs.write SP (some cfa)

/-! ### The unwinder -/

structure StackUnwinder where
  registers : Registers
  state : Option (UnwindTableRow × UInt64)
  atStart : Bool

def StackUnwinder.new (machine : Machine) : StackUnwinder where
  registers := machine.initial
  state := none
  atStart := true

def generateState (context : DebugContext) (registers : Registers) (address : UInt64) :
    Option (Except String (Option (UnwindTableRow × UInt64))) :=
  match unwindInfo context address with
  | .error e => some (.error e)
  | .ok none => some (.ok none)
  | .ok (some row) =>
    match row.cfa with
    | .registerAndOffset register offset =>
      match registers.read register with
      | some (some value) => some (.ok (some (row, value + offset.toUInt64)))
      | _ => none
    | .expression debug => some (.error ("Unknown cfa calculation rule: " ++ debug))

/-- The first half of a step: the registers are those of the frame that was found before. -/
def StackUnwinder.advance (machine : Machine) (unwinder : StackUnwinder) : Option Registers :=
  match unwinder.state with
  | some (row, cfa) => newRegisters machine unwinder.registers row cfa
  | none => some unwinder.registers

def StackUnwinder.next (context : DebugContext) (machine : Machine) (unwinder : StackUnwinder) :
    Option (Option Symbol × StackUnwinder) := do
  if unwinder.atStart then
    let symbol ← extractSymbol context machine.pc
    some (some symbol, { unwinder with atStart := false })
  else
    let registers ← unwinder.advance machine
    match ← registers.read RA with
    | some caller =>
      match ← generateState context registers caller with
      | .error _ => none
      | .ok none => some (none, { unwinder with registers := registers, state := none })
      | .ok (some state) =>
        let symbol ← extractSymbol context caller
        some (some symbol, { unwinder with registers := registers, state := some state })
    | none => some (none, { unwinder with registers := registers, state := none })

/-! ### The signal handler -/

structure Profiler where
  context : DebugContext
  report : Report

/-- A round of the loop over the symbols of the unwinder. -/
def stackRound (context : DebugContext) (machine : Machine) (s : StackUnwinder × List Symbol) :
    Loop.Round (StackUnwinder × List Symbol) (Option (List Symbol)) :=
  match s.1.next context machine with
  | none => .leave none
  | some (none, _) => .leave (some s.2)
  | some (some symbol, unwinder) => .again (unwinder, s.2 ++ [symbol])

/-- The stack that the handler collects within a number of rounds. -/
def collectStack (context : DebugContext) (machine : Machine) (rounds : Nat) : Option (Option (List Symbol)) :=
  Loop.run (stackRound context machine) rounds (StackUnwinder.new machine, [])

/-- What a signal does to the profiler. -/
inductive Handled where
  | returned (profiler : Option Profiler)
  | panicked

/-- `perf_signal_handler`, once it has the lock on the profiler. -/
def perfSignalHandler (overflowChecks : Bool) (machine : Machine) (rounds : Nat) : Option Profiler → Option Handled
  | none => some (.returned none)
  | some profiler =>
    match collectStack profiler.context machine rounds with
    | none => none
    | some none => some .panicked
    | some (some symbols) =>
      match profiler.report.record overflowChecks ⟨symbols⟩ with
      | none => some .panicked
      | some report => some (.returned (some { profiler with report := report }))

end SignalProfiler
