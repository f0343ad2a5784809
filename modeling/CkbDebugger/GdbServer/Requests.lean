import CkbDebugger.Bytes.LittleEndian
import CkbDebugger.GdbRemote.Handler
import CkbDebugger.GdbServer.Handler

/-!
# The requests of a client of the gdb server

`GdbHandler` as an implementation of the protocol's `Handler`: the methods that it
defines itself, and the defaults of the trait for the others.
-/
namespace GdbServer

open CkbVm (Vm Error)
open GdbRemote (HandlerCall HandlerError MemoryRegion VCont ThreadId VContFeature)

/-- What the handler does to its machine besides running it. `setPc` is `update_pc` followed
by `commit_pc`. -/
structure Target (M : Type) extends Vm M where
  setRegister : Fin 32 → UInt64 → M → M
  setPc : UInt64 → M → M
  storeBytes : UInt64 → List UInt8 → M → Except Error Unit × M

/-- `RISCV_GENERAL_REGISTER_NUMBER`. -/
def generalRegisterNumber : Nat := 32

def formatRegisterValue (v : UInt64) : List UInt8 := Bytes.leBytes 8 v.toNat

variable {M : Type} (target : Target M)

def Handler.readGeneralRegisters (h : Handler M) : Except HandlerError (List UInt8) :=
  .ok ((List.finRange 32).map fun i => formatRegisterValue (target.registers h.machine i)).flatten

def Handler.readRegister (h : Handler M) (register : UInt64) : Except HandlerError (List UInt8) :=
  if general : register.toNat < generalRegisterNumber then
    .ok (formatRegisterValue (target.registers h.machine ⟨register.toNat, general⟩))
  -- the program counter comes after the general registers
  else if register.toNat = generalRegisterNumber then .ok (formatRegisterValue (target.pc h.machine))
  else .error (.error 1)

/-- `write_register`. The bytes that are not given are zero. -/
def Handler.writeRegister (h : Handler M) (register : UInt64) (contents : List UInt8) :
    Except HandlerError Unit × Handler M :=
  -- the buffer has 8 bytes
  if contents.length > 8 then (.error (.error 2), h)
  else
    let value := UInt64.ofNat (Bytes.leValue contents)
    if general : register.toNat < generalRegisterNumber then
      (.ok (), { h with machine := target.setRegister ⟨register.toNat, general⟩ value h.machine })
    else if register.toNat = generalRegisterNumber then
      (.ok (), { h with machine := target.setPc value h.machine })
    else (.error (.error 2), h)

/-- `write_memory`. What a store that fails has written stays written. -/
def Handler.writeMemory (h : Handler M) (address : UInt64) (bytes : List UInt8) :
    Except HandlerError Unit × Handler M :=
  match target.storeBytes address bytes h.machine with
  | (.ok (), m) => (.ok (), { h with machine := m })
  | (.error _, m) => (.error (.error 4), { h with machine := m })

def supportedVcont : List VContFeature :=
  [.continue, .continueWithSignal, .step, .stepWithSignal, .stop, .rangeStep]

/-- `isize::MAX`, which no allocation may be larger than. -/
def isizeMax : Nat := 2 ^ 63 - 1

/-- The methods of `GdbHandler`. There is no answer after a panic, or when `vcont` is still
running after the given number of rounds. -/
def gdbHandler (rounds : Nat) : GdbRemote.Handler (Handler M) := fun call h =>
  match call with
  | .attached _ => some (.ok .created, h)
  | .haltReason => some (.ok (.signal 2), h)
  | .readGeneralRegisters => some (h.readGeneralRegisters target, h)
  | .readRegister register => some (h.readRegister target register, h)
  | .writeRegister register contents => some (h.writeRegister target register contents)
  | .readMemory region => some (readMemory target.toVm h.machine region, h)
  | .writeMemory address bytes => some (h.writeMemory target address bytes)
  | .querySupportedVcont => some (.ok supportedVcont, h)
  | .vcont request => (h.vcont target.toVm rounds request).join
  | .insertSoftwareBreakpoint breakpoint => some (.ok (), h.insertSoftwareBreakpoint breakpoint)
  | .removeSoftwareBreakpoint breakpoint => some (.ok (), h.removeSoftwareBreakpoint breakpoint)
  | .insertWriteWatchpoint watchpoint =>
    -- the copy of the region is allocated at once, and `resize` panics if it is too large
    if watchpoint.nBytes.toNat ≤ isizeMax then some (.ok (), h.insertWriteWatchpoint watchpoint) else none
  | .removeWriteWatchpoint wp => some (.ok (), h.removeWriteWatchpoint wp)
  -- the defaults of the trait
  | .querySupportedFeatures => some ([], h)
  | .currentThread => some (.ok none, h)
  | .setPassSignals _ => some (.ok (), h)
  | .setProgramSignals _ => some (.ok (), h)
  | .fs => some (false, h)
  | .detach _ => some (.error .unimplemented, h)
  | .kill _ => some (.error .unimplemented, h)
  | .pingThread _ => some (.error .unimplemented, h)
  | .writeGeneralRegisters _ => some (.error .unimplemented, h)
  | .readBytes .. => some (.error .unimplemented, h)
  | .setCurrentThread .. => some (.error .unimplemented, h)
  | .searchMemory .. => some (.error .unimplemented, h)
  | .invoke _ => some (.error .unimplemented, h)
  | .setAddressRandomization _ => some (.error .unimplemented, h)
  | .catchSyscalls _ => some (.error .unimplemented, h)
  | .threadInfo _ => some (.error .unimplemented, h)
  | .threadList _ => some (.error .unimplemented, h)
  | .insertHardwareBreakpoint _ => some (.error .unimplemented, h)
  | .insertReadWatchpoint _ => some (.error .unimplemented, h)
  | .insertAccessWatchpoint _ => some (.error .unimplemented, h)
  | .removeHardwareBreakpoint _ => some (.error .unimplemented, h)
  | .removeReadWatchpoint _ => some (.error .unimplemented, h)
  | .removeAccessWatchpoint _ => some (.error .unimplemented, h)
  | .processSymbol .. => some (.error .unimplemented, h)
  -- never called: there is no file system
  | .hostOpen .. => some (none, h)
  | .hostClose _ => some (none, h)
  | .hostPread .. => some (none, h)
  | .hostPwrite .. => some (none, h)
  | .hostFstat _ => some (none, h)
  | .hostUnlink _ => some (none, h)
  | .hostReadlink _ => some (none, h)
  | .hostSetfs _ => some (none, h)

end GdbServer
