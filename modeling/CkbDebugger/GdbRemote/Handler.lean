import CkbDebugger.GdbRemote.Command
import CkbDebugger.GdbRemote.Response

/-!
# Handling one packet

A handler is any implementation of the source's `Handler` trait together with
the file system it may offer: it answers each call from a state of its own, or
panics. The server logs the calls and collects the bytes it writes, so that two
ways of serving a client can be compared by what they did.
-/
namespace GdbRemote

/-- The methods of `Handler` and of the `FileSystem` it hands out, with their
arguments. -/
inductive HandlerCall where
  | querySupportedFeatures
  | attached (pid : Option UInt64)
  | detach (pid : Option UInt64)
  | kill (pid : Option UInt64)
  | pingThread (id : ThreadId)
  | readMemory (region : MemoryRegion)
  | writeMemory (address : UInt64) (bytes : Bytes)
  | readRegister (register : UInt64)
  | writeRegister (register : UInt64) (contents : Bytes)
  | readGeneralRegisters
  | writeGeneralRegisters (contents : Bytes)
  | readBytes (object annex : String) (offset length : UInt64)
  | currentThread
  | setCurrentThread (purpose : SetThreadFor) (id : ThreadId)
  | searchMemory (address length : UInt64) (bytes : Bytes)
  | haltReason
  | invoke (command : Bytes)
  | setAddressRandomization (enable : Bool)
  | catchSyscalls (syscalls : Option (List UInt64))
  | setPassSignals (signals : List UInt64)
  | setProgramSignals (signals : List UInt64)
  | threadInfo (thread : ThreadId)
  | threadList (reset : Bool)
  | insertSoftwareBreakpoint (breakpoint : Breakpoint)
  | insertHardwareBreakpoint (breakpoint : Breakpoint)
  | insertWriteWatchpoint (watchpoint : Watchpoint)
  | insertReadWatchpoint (watchpoint : Watchpoint)
  | insertAccessWatchpoint (watchpoint : Watchpoint)
  | removeSoftwareBreakpoint (breakpoint : Breakpoint)
  | removeHardwareBreakpoint (breakpoint : Breakpoint)
  | removeWriteWatchpoint (watchpoint : Watchpoint)
  | removeReadWatchpoint (watchpoint : Watchpoint)
  | removeAccessWatchpoint (watchpoint : Watchpoint)
  | querySupportedVcont
  | vcont (request : List (VCont × Option ThreadId))
  | fs
  | processSymbol (value name : String)
  | hostOpen (filename : Bytes) (flags : HostOpenFlags) (mode : HostMode)
  | hostClose (fd : UInt64)
  | hostPread (fd count offset : UInt64)
  | hostPwrite (fd offset : UInt64) (data : Bytes)
  | hostFstat (fd : UInt64)
  | hostUnlink (filename : Bytes)
  | hostReadlink (filename : Bytes)
  | hostSetfs (pid : UInt64)
  deriving Repr, DecidableEq

/-- What each method returns. `fs` returns whether there is a file system. -/
@[reducible] def HandlerCall.Result : HandlerCall → Type
  | .querySupportedFeatures => List String
  | .attached _ => Except HandlerError ProcessType
  | .readMemory _ => Except HandlerError Bytes
  | .readRegister _ => Except HandlerError Bytes
  | .readGeneralRegisters => Except HandlerError Bytes
  | .readBytes .. => Except HandlerError (Bytes × Bool)
  | .currentThread => Except HandlerError (Option ThreadId)
  | .searchMemory .. => Except HandlerError (Option UInt64)
  | .haltReason => Except HandlerError StopReason
  | .invoke _ => Except HandlerError String
  | .threadInfo _ => Except HandlerError String
  | .threadList _ => Except HandlerError (List ThreadId)
  | .querySupportedVcont => Except HandlerError (List VContFeature)
  | .vcont _ => Except HandlerError StopReason
  | .fs => Bool
  | .processSymbol .. => Except HandlerError SymbolLookupResponse
  | .hostOpen .. => IOResult UInt64
  | .hostClose _ => IOResult Unit
  | .hostPread .. => IOResult Bytes
  | .hostPwrite .. => IOResult UInt64
  | .hostFstat _ => IOResult HostStat
  | .hostUnlink _ => IOResult Unit
  | .hostReadlink _ => IOResult Bytes
  | .hostSetfs _ => IOResult Unit
  | _ => Except HandlerError Unit

/-- A handler with state `σ`; `none` is a panic. -/
def Handler (σ : Type) : Type := (call : HandlerCall) → σ → Option (call.Result × σ)

structure Server (σ : Type) where
  handler : σ
  calls : List HandlerCall
  output : Bytes

/-- Code that serves a client and may panic; what it did before stays done. -/
abbrev Service (σ : Type) := OptionT (StateM (Server σ))

variable {σ : Type}

/-- The last state of the server and whether it got there without a panic. -/
def Service.runOn {α : Type} (service : Service σ α) (server : Server σ) : Option α × Server σ :=
  StateT.run (OptionT.run service) server

def write (bytes : Bytes) : Service σ Unit :=
  modify fun server => { server with output := server.output ++ bytes }

def Handler.call (h : Handler σ) (call : HandlerCall) : Service σ call.Result := do
  -- the call is on record also if it panics
  modify fun server => { server with calls := server.calls ++ [call] }
  match h call (← get).handler with
  | some (result, state) =>
    modify fun server => { server with handler := state }
    return result
  | none => failure

@[simp] theorem runOn_pure {α : Type} (a : α) (server : Server σ) :
    (pure a : Service σ α).runOn server = (some a, server) := rfl

@[simp] theorem runOn_write (bytes : Bytes) (server : Server σ) :
    (write bytes).runOn server = (some (), { server with output := server.output ++ bytes }) := rfl

theorem runOn_bind {α β : Type} (first : Service σ α) (next : α → Service σ β) (server : Server σ) :
    (first >>= next).runOn server =
      match first.runOn server with
      | (some a, after) => (next a).runOn after
      | (none, after) => (none, after) := by
  unfold Service.runOn
  simp only [OptionT.run_bind, Option.elimM, StateT.run_bind]
  cases StateT.run (OptionT.run first) server with
  | mk result after => cases result <;> rfl

theorem runOn_bind_some {α β : Type} {first : Service σ α} {next : α → Service σ β}
    {server after : Server σ} {b : β} (returned : (first >>= next).runOn server = (some b, after)) :
    ∃ a middle, first.runOn server = (some a, middle) ∧ (next a).runOn middle = (some b, after) := by
  rw [runOn_bind] at returned
  split at returned
  next a middle done => exact ⟨a, middle, done, returned⟩
  next => cases returned

theorem runOn_call (h : Handler σ) (call : HandlerCall) (server : Server σ) :
    (h.call call).runOn server =
      match h call server.handler with
      | some (result, state) => (some result, ⟨state, server.calls ++ [call], server.output⟩)
      | none => (none, ⟨server.handler, server.calls ++ [call], server.output⟩) := by
  have unfolded : (h.call call).runOn server = Service.runOn
      (match h call server.handler with
      | some (result, state) => do
        modify fun server => { server with handler := state }
        return result
      | none => failure : Service σ call.Result) { server with calls := server.calls ++ [call] } := rfl
  rw [unfolded]
  cases h call server.handler with
  | none => rfl
  | some answer => rfl

/-! ### Replies to requests -/

def handleSupportedFeatures (h : Handler σ) : Service σ Response := do
  let features := ["PacketSize=" ++ String.ofList (Nat.toDigits 16 maxPacketSize), "QStartNoAckMode+",
    "multiprocess+", "QDisableRandomization+", "QCatchSyscalls+", "QPassSignals+", "QProgramSignals+"]
  let newFeatures ← h.call .querySupportedFeatures
  return .string (";".intercalate (features ++ newFeatures))

/-- `handler.fs().and_then(..)`: without a file system nothing is supported. -/
def fsAndThen {α : Type} (h : Handler σ) (operation : Service σ (IOResult α)) :
    Service σ (IOResult α) := do
  if ← h.call .fs then operation else return none

def handleQuery (h : Handler σ) : Query → Service σ Response
  | .attached pid => return .fromResult .processType (← h.call (.attached pid))
  | .currentThread => return .fromResult .currentThread (← h.call .currentThread)
  | .invoke cmd =>
    return .fromResult (fun val => if val.isEmpty then .ok else .output val) (← h.call (.invoke cmd))
  | .searchMemory address length bytes =>
    return .fromResult .searchResult (← h.call (.searchMemory address length bytes))
  | .supportedFeatures _ => handleSupportedFeatures h
  -- the loop turns the acknowledgements off, when this reply has been written
  | .startNoAckMode => return .ok
  | .addressRandomization randomize =>
    return .fromResult (fun _ => .ok) (← h.call (.setAddressRandomization randomize))
  | .catchSyscalls calls => return .fromResult (fun _ => .ok) (← h.call (.catchSyscalls calls))
  | .passSignals signals => return .fromResult (fun _ => .ok) (← h.call (.setPassSignals signals))
  | .programSignals signals =>
    return .fromResult (fun _ => .ok) (← h.call (.setProgramSignals signals))
  | .threadInfo threadInfo => return .fromResult .string (← h.call (.threadInfo threadInfo))
  | .threadList reset => return .fromResult .threadList (← h.call (.threadList reset))
  | .readBytes object annex offset length =>
    return .fromResult (fun (data, eof) => .bytesOrEof data eof)
      (← h.call (.readBytes object annex offset length))
  | .symbol symValue symName =>
    return .fromResult .fromSymbolLookup (← h.call (.processSymbol symValue symName))

def handleCommand (h : Handler σ) : Command → Service σ Response
  | .enableExtendedMode => return .ok
  | .targetHaltReason => return .fromResult .stopped (← h.call .haltReason)
  | .readGeneralRegisters => return .fromResult .bytes (← h.call .readGeneralRegisters)
  | .writeGeneralRegisters bytes =>
    return .fromResult (fun _ => .ok) (← h.call (.writeGeneralRegisters bytes))
  | .kill none => do
    -- the `k` packet requires no response: the result is dropped
    let _ ← h.call (.kill none)
    return .empty
  | .kill (some pid) => return .fromResult (fun _ => .ok) (← h.call (.kill (some pid)))
  -- like an unknown packet
  | .reset => return .empty
  | .readRegister regno => return .fromResult .bytes (← h.call (.readRegister regno))
  | .writeRegister regno bytes =>
    return .fromResult (fun _ => .ok) (← h.call (.writeRegister regno bytes))
  | .readMemory region => return .fromResult .bytes (← h.call (.readMemory region))
  | .writeMemory region bytes =>
    -- the length that the packet declares is the length of its data
    if region.length.toNat ≠ bytes.length then return .error 1
    else return .fromResult (fun _ => .ok) (← h.call (.writeMemory region.address bytes))
  | .setCurrentThread f threadId =>
    return .fromResult (fun _ => .ok) (← h.call (.setCurrentThread f threadId))
  | .detach pid => return .fromResult (fun _ => .ok) (← h.call (.detach pid))
  | .query q => handleQuery h q
  | .pingThread threadId => return .fromResult (fun _ => .ok) (← h.call (.pingThread threadId))
  | .ctrlC => return .empty
  | .unknownVCommand => return .empty
  | .insertSoftwareBreakpoint bp =>
    return .fromResult (fun _ => .ok) (← h.call (.insertSoftwareBreakpoint bp))
  | .insertHardwareBreakpoint bp =>
    return .fromResult (fun _ => .ok) (← h.call (.insertHardwareBreakpoint bp))
  | .insertWriteWatchpoint wp =>
    return .fromResult (fun _ => .ok) (← h.call (.insertWriteWatchpoint wp))
  | .insertReadWatchpoint wp =>
    return .fromResult (fun _ => .ok) (← h.call (.insertReadWatchpoint wp))
  | .insertAccessWatchpoint wp =>
    return .fromResult (fun _ => .ok) (← h.call (.insertAccessWatchpoint wp))
  | .removeSoftwareBreakpoint bp =>
    return .fromResult (fun _ => .ok) (← h.call (.removeSoftwareBreakpoint bp))
  | .removeHardwareBreakpoint bp =>
    return .fromResult (fun _ => .ok) (← h.call (.removeHardwareBreakpoint bp))
  | .removeWriteWatchpoint wp =>
    return .fromResult (fun _ => .ok) (← h.call (.removeWriteWatchpoint wp))
  | .removeReadWatchpoint wp =>
    return .fromResult (fun _ => .ok) (← h.call (.removeReadWatchpoint wp))
  | .removeAccessWatchpoint wp =>
    return .fromResult (fun _ => .ok) (← h.call (.removeAccessWatchpoint wp))
  | .vContSupported => return .fromResult .vContFeatures (← h.call .querySupportedVcont)
  | .vCont list => return .fromResult .stopped (← h.call (.vcont list))
  | .hostOpen filename flags mode =>
    return .fromIOResult .integer (← fsAndThen h (h.call (.hostOpen filename
      (.fromBitsTruncate flags.toUInt32) (.fromBitsTruncate mode.toUInt32))))
  | .hostClose fd => return .fromIOResult (fun _ => .ok) (← fsAndThen h (h.call (.hostClose fd)))
  | .hostPRead fd count offset =>
    return .fromIOResult .data (← fsAndThen h (h.call (.hostPread fd count offset)))
  | .hostPWrite fd offset data =>
    return .fromIOResult .integer (← fsAndThen h (h.call (.hostPwrite fd offset data)))
  | .hostFStat fd => return .fromIOResult .stat (← fsAndThen h (h.call (.hostFstat fd)))
  | .hostUnlink filename =>
    return .fromIOResult (fun _ => .ok) (← fsAndThen h (h.call (.hostUnlink filename)))
  | .hostReadlink filename =>
    return .fromIOResult .data (← fsAndThen h (h.call (.hostReadlink filename)))
  | .hostSetFS pid => return .fromIOResult (fun _ => .ok) (← fsAndThen h (h.call (.hostSetfs pid)))

/-- The payload asks for the mode without acknowledgements. -/
def startsNoAckMode (data : Bytes) : Bool :=
  match command data with
  | .done _ (.query .startNoAckMode) => true
  | _ => false

/-- `handle_packet`: serves one payload and returns whether it asked for the mode
without acknowledgements. -/
def handlePacket (h : Handler σ) (data : Bytes) : Service σ Bool :=
  match command data with
  | .panic => failure
  | .done _ cmd => do
    let response ← handleCommand h cmd
    write (writeResponse response)
    return cmd = .query .startNoAckMode
  -- nothing known, or not enough of it
  | _ => do
    write (writeResponse .empty)
    return false

end GdbRemote
