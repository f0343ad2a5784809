import CkbDebugger.Nom.Basic

/-!
# Data model of the GDB remote serial protocol

The values that travel between the packet parser, the handler and the reply
writer. Names follow `ckb-gdb-remote-protocol`; the crate is modelled with its
default features, that is without `all_stop` and `lldb`.
-/
namespace GdbRemote

export Nom (Bytes ascii)

def maxPacketSize : Nat := 64 * 1024

/-- The bytes of a Rust string. -/
def utf8 (s : String) : Bytes := s.toUTF8.data.toList

/-- `str::from_utf8`. -/
def fromUtf8 (bytes : Bytes) : Option String := String.fromUTF8? ⟨bytes.toArray⟩

inductive Packet where
  | ack
  | nack
  | interrupt
  | data (bytes : Bytes) (checksum : UInt8)
  deriving Repr, DecidableEq

/-! ### Features announced by the client -/

inductive GDBFeature where
  | multiprocess
  | xmlRegisters
  | qRelocInsn
  | swbreak
  | hwbreak
  | forkEvents
  | vforkEvents
  | execEvents
  | vContSupported
  | noResumed
  | QThreadEvents
  deriving Repr, DecidableEq

/-- `GDBFeature::from_str`, as derived with the `serialize` names. -/
def GDBFeature.fromStr : String → Option GDBFeature
  | "multiprocess" => some .multiprocess
  | "xmlRegisters" => some .xmlRegisters
  | "qRelocInsn" => some .qRelocInsn
  | "swbreak" => some .swbreak
  | "hwbreak" => some .hwbreak
  | "fork-events" => some .forkEvents
  | "vfork-events" => some .vforkEvents
  | "exec-events" => some .execEvents
  | "vContSupported" => some .vContSupported
  | "no-resumed" => some .noResumed
  | "QThreadEvents" => some .QThreadEvents
  | _ => none

inductive Known where
  | yes (feature : GDBFeature)
  | no (name : String)
  deriving Repr, DecidableEq

inductive FeatureSupported where
  | yes
  | no
  | maybe
  | value (text : String)
  deriving Repr, DecidableEq

structure GDBFeatureSupported where
  feature : Known
  supported : FeatureSupported
  deriving Repr, DecidableEq

/-! ### Arguments of requests -/

inductive SetThreadFor where
  | continue
  | readRegister
  deriving Repr, DecidableEq

inductive Id where
  | id (num : UInt32)
  | all
  | any
  deriving Repr, DecidableEq

structure ThreadId where
  pid : Id
  tid : Id
  deriving Repr, DecidableEq

structure Watchpoint where
  addr : UInt64
  nBytes : UInt64
  deriving Repr, DecidableEq

structure Bytecode where
  bytecode : Bytes
  deriving Repr, DecidableEq

structure Breakpoint where
  addr : UInt64
  kind : UInt64
  conditions : Option (List Bytecode)
  commands : Option (List Bytecode)
  deriving Repr, DecidableEq

structure MemoryRegion where
  address : UInt64
  length : UInt64
  deriving Repr, DecidableEq

inductive VContFeature where
  | continue
  | continueWithSignal
  | step
  | stepWithSignal
  | stop
  | rangeStep
  deriving Repr, DecidableEq

inductive VCont where
  | continue
  | continueWithSignal (signal : UInt8)
  | step
  | stepWithSignal (signal : UInt8)
  | stop
  | rangeStep (start stop : UInt64)
  deriving Repr, DecidableEq

inductive Query where
  | attached (pid : Option UInt64)
  | currentThread
  | searchMemory (address length : UInt64) (bytes : Bytes)
  | supportedFeatures (features : List GDBFeatureSupported)
  | startNoAckMode
  | invoke (command : Bytes)
  | addressRandomization (enable : Bool)
  | catchSyscalls (syscalls : Option (List UInt64))
  | passSignals (signals : List UInt64)
  | programSignals (signals : List UInt64)
  | threadInfo (thread : ThreadId)
  | threadList (reset : Bool)
  | readBytes (object annex : String) (offset length : UInt64)
  | symbol (value name : String)
  deriving Repr, DecidableEq

inductive Command where
  | detach (pid : Option UInt64)
  | enableExtendedMode
  | targetHaltReason
  | readGeneralRegisters
  | writeGeneralRegisters (contents : Bytes)
  | readRegister (register : UInt64)
  | writeRegister (register : UInt64) (contents : Bytes)
  | kill (pid : Option UInt64)
  | readMemory (region : MemoryRegion)
  | writeMemory (region : MemoryRegion) (bytes : Bytes)
  | query (q : Query)
  | reset
  | pingThread (thread : ThreadId)
  | ctrlC
  | unknownVCommand
  | setCurrentThread (purpose : SetThreadFor) (thread : ThreadId)
  | insertSoftwareBreakpoint (breakpoint : Breakpoint)
  | insertHardwareBreakpoint (breakpoint : Breakpoint)
  | insertWriteWatchpoint (watchpoint : Watchpoint)
  | insertReadWatchpoint (watchpoint : Watchpoint)
  | insertAccessWatchpoint (watchpoint : Watchpoint)
  | removeSoftwareBreakpoint (breakpoint : Breakpoint)
  | removeHardwareBreakpoint (breakpoint : Breakpoint)
  | removeWriteWatchpoint (watchpoint : Watchpoint)
  | removeReadWatchpoint (watchpoint : Watchpoint)
  | removeAccessWatchpoint (watchpoint : Watchpoint)
  | vContSupported
  | vCont (actions : List (VCont × Option ThreadId))
  | hostOpen (filename : Bytes) (flags mode : UInt64)
  | hostClose (fd : UInt64)
  | hostPRead (fd count offset : UInt64)
  | hostPWrite (fd offset : UInt64) (data : Bytes)
  | hostFStat (fd : UInt64)
  | hostUnlink (filename : Bytes)
  | hostReadlink (filename : Bytes)
  | hostSetFS (pid : UInt64)
  deriving Repr, DecidableEq

/-! ### Values returned by handlers -/

/-- `Error` of a handler method: a code for the client, or a request the
handler does not implement. -/
inductive HandlerError where
  | error (code : UInt8)
  | unimplemented
  deriving Repr, DecidableEq

inductive ProcessType where
  | attached
  | created
  deriving Repr, DecidableEq

inductive StopReason where
  | signal (signo : UInt8)
  | exited (pid : UInt64) (status : UInt8)
  | exitedWithSignal (pid : UInt64) (status : UInt8)
  | threadExited (thread : ThreadId) (status : UInt64)
  | noMoreThreads
  deriving Repr, DecidableEq

inductive SymbolLookupResponse where
  | ok
  | symbol (name : String)
  deriving Repr, DecidableEq

inductive HostErrno where
  | EPERM | ENOENT | EINTR | EBADF | EACCES | EFAULT | EBUSY | EEXIST | ENODEV | ENOTDIR
  | EISDIR | EINVAL | ENFILE | EMFILE | EFBIG | ENOSPC | ESPIPE | EROFS | ENAMETOOLONG | EUNKNOWN
  deriving Repr, DecidableEq

/-- `errno as u32`. -/
def HostErrno.code : HostErrno → Nat
  | .EPERM => 1 | .ENOENT => 2 | .EINTR => 4 | .EBADF => 9 | .EACCES => 13 | .EFAULT => 14
  | .EBUSY => 16 | .EEXIST => 17 | .ENODEV => 19 | .ENOTDIR => 20 | .EISDIR => 21 | .EINVAL => 22
  | .ENFILE => 23 | .EMFILE => 24 | .EFBIG => 27 | .ENOSPC => 28 | .ESPIPE => 29 | .EROFS => 30
  | .ENAMETOOLONG => 91 | .EUNKNOWN => 9999

structure HostMode where
  bits : UInt32
  deriving Repr, DecidableEq

/-- All bits of `HostMode`: regular file, directory and the nine permissions. -/
def HostMode.all : UInt32 := 0o140777

def HostMode.fromBitsTruncate (bits : UInt32) : HostMode := ⟨bits &&& HostMode.all⟩

structure HostOpenFlags where
  bits : UInt32
  deriving Repr, DecidableEq

/-- All bits of `HostOpenFlags`: write-only, read-write, append, create, truncate, exclusive. -/
def HostOpenFlags.all : UInt32 := 0xe0b

def HostOpenFlags.fromBitsTruncate (bits : UInt32) : HostOpenFlags := ⟨bits &&& HostOpenFlags.all⟩

structure HostStat where
  stDev : UInt32
  stIno : UInt32
  stMode : HostMode
  stNlink : UInt32
  stUid : UInt32
  stGid : UInt32
  stRdev : UInt32
  stSize : UInt64
  stBlksize : UInt64
  stBlocks : UInt64
  stAtime : UInt32
  stMtime : UInt32
  stCtime : UInt32
  deriving Repr, DecidableEq

/-- `IOResult`: `none` when the operation is not implemented. -/
abbrev IOResult (α : Type) := Option (Except HostErrno α)

end GdbRemote
