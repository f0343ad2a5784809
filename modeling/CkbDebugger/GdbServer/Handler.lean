import CkbDebugger.CkbVm.Machine
import CkbDebugger.GdbRemote.Types

/-!
# The handler of the gdb server

`GdbHandler` serves the packets of the remote protocol with a machine, a list of
breakpoints and a list of write watchpoints. `vcont` runs the machine until one of
them is hit.
-/
namespace GdbServer

open CkbVm (Vm Decoder Error)
open GdbRemote (Breakpoint Watchpoint MemoryRegion VCont ThreadId StopReason HandlerError)

/-- A watchpoint with the contents of its region when it was last looked at. -/
structure WatchPointStatus where
  watchpoint : Watchpoint
  data : List UInt8
  hasData : Bool
  deriving Repr, DecidableEq

def WatchPointStatus.new (wp : Watchpoint) : WatchPointStatus where
  watchpoint := wp
  data := List.replicate wp.nBytes.toNat 0
  hasData := false

structure Handler (M : Type) where
  machine : M
  breakpoints : List Breakpoint
  watchpoints : List WatchPointStatus

def Handler.new {M : Type} (machine : M) : Handler M := ⟨machine, [], []⟩

section Machine

variable {M : Type} (vm : Vm M)

/-! ### Memory -/

/-- The loop of `read_memory` over a number of addresses. -/
def readBytes (m : M) : Nat → UInt64 → Except HandlerError (List UInt8)
  | 0, _ => .ok []
  | count + 1, address =>
    match vm.load8 m address with
    | .error _ => .error (.error 3)
    | .ok value =>
      match readBytes m count (address + 1) with
      | .error e => .error e
      | .ok values => .ok (value :: values)

/-- `read_memory`. The end of the range wraps around. -/
def readMemory (m : M) (region : MemoryRegion) : Except HandlerError (List UInt8) :=
  readBytes vm m ((region.address + region.length).toNat - region.address.toNat) region.address

/-! ### Breakpoints and watchpoints -/

def Handler.atBreakpoint (h : Handler M) : Bool :=
  h.breakpoints.any fun b => b.addr == vm.pc h.machine

/-- `has_change`, with the status that is left. The first look at a region never finds
a change. -/
def WatchPointStatus.hasChange (status : WatchPointStatus) (m : M) :
    Except HandlerError Bool × WatchPointStatus :=
  match readMemory vm m ⟨status.watchpoint.addr, status.watchpoint.nBytes⟩ with
  | .error e => (.error e, status)
  | .ok newContent =>
    (.ok (status.hasData && newContent != status.data), { status with data := newContent, hasData := true })

/-- `at_watchpoint`: look at every region, up to the first that cannot be read. -/
def atWatchpoint (m : M) : List WatchPointStatus → Except HandlerError Bool × List WatchPointStatus
  | [] => (.ok false, [])
  | status :: rest =>
    match status.hasChange vm m with
    | (.error e, status) => (.error e, status :: rest)
    | (.ok changed, status) =>
      -- a change does not end the loop: the regions after it are brought up to date too
      match atWatchpoint m rest with
      | (.error e, rest) => (.error e, status :: rest)
      | (.ok result, rest) => (.ok (changed || result), status :: rest)

/-! ### Running -/

/-- The answer of `vcont` when its loop ends. -/
def stopReason (m : M) : StopReason :=
  if vm.running m then .signal 5 else .exited 0 (vm.exitCode m).toUInt8

/-- One instruction, after the test of the reset signal. -/
def stepOn (m : M) (d : Decoder) : Except Error Unit × M × Decoder :=
  vm.step (CkbVm.refresh vm m d).1 (CkbVm.refresh vm m d).2

/-- The body of the loops of `vcont`; `inRange` is the test of the program counter in a
range step. An error of the machine is shown and reported as a trap. -/
def vcontRound (inRange : UInt64 → Bool) (state : Handler M × Decoder) :
    Loop.Round (Handler M × Decoder) (Except HandlerError StopReason × Handler M) :=
  let (h, d) := state
  if inRange (vm.pc h.machine) && !h.atBreakpoint vm && vm.running h.machine then
    match atWatchpoint vm h.machine h.watchpoints with
    | (.error e, watchpoints) => .leave (.error e, { h with watchpoints := watchpoints })
    | (.ok true, watchpoints) =>
      .leave (.ok (stopReason vm h.machine), { h with watchpoints := watchpoints })
    | (.ok false, watchpoints) =>
      -- the looks above count also when the instruction fails
      match stepOn vm h.machine d with
      | (.error _, m, _) => .leave (.ok (.signal 5), { h with machine := m, watchpoints := watchpoints })
      | (.ok (), m, d) => .again ({ h with machine := m, watchpoints := watchpoints }, d)
  else .leave (.ok (stopReason vm h.machine), h)

/-- What a round can do, with what it has seen on the way. -/
inductive VcontRound (inRange : UInt64 → Bool) (h : Handler M) (d : Decoder) :
    Loop.Round (Handler M × Decoder) (Except HandlerError StopReason × Handler M) → Prop where
  | halted : VcontRound inRange h d (.leave (.ok (stopReason vm h.machine), h))
  | unreadable {e : HandlerError} {looked : List WatchPointStatus}
      (looks : atWatchpoint vm h.machine h.watchpoints = (.error e, looked)) :
      VcontRound inRange h d (.leave (.error e, { h with watchpoints := looked }))
  | fired {looked : List WatchPointStatus}
      (looks : atWatchpoint vm h.machine h.watchpoints = (.ok true, looked)) :
      VcontRound inRange h d (.leave (.ok (stopReason vm h.machine), { h with watchpoints := looked }))
  | failed {looked : List WatchPointStatus} {e : Error} {m : M} {d' : Decoder}
      (looks : atWatchpoint vm h.machine h.watchpoints = (.ok false, looked))
      (stepped : stepOn vm h.machine d = (.error e, m, d')) :
      VcontRound inRange h d (.leave (.ok (.signal 5), { h with machine := m, watchpoints := looked }))
  | again {looked : List WatchPointStatus} {m : M} {d' : Decoder}
      (looks : atWatchpoint vm h.machine h.watchpoints = (.ok false, looked))
      (stepped : stepOn vm h.machine d = (.ok (), m, d')) :
      VcontRound inRange h d (.again ({ h with machine := m, watchpoints := looked }, d'))

theorem vcontRound_cases (inRange : UInt64 → Bool) (h : Handler M) (d : Decoder) :
    VcontRound vm inRange h d (vcontRound vm inRange (h, d)) := by
  simp only [vcontRound]
  split
  · split
    next looks => exact .unreadable looks
    next looks => exact .fired looks
    next looks =>
      split
      next stepped => exact .failed looks stepped
      next stepped => exact .again looks stepped
  · exact .halted

/-- The first instruction of a resume, and the loop after it. -/
def vcontLoop (inRange : UInt64 → Bool) (rounds : Nat) (h : Handler M) :
    Option (Except HandlerError StopReason × Handler M) :=
  match stepOn vm h.machine .build with
  | (.error _, m, _) => some (.ok (.signal 5), { h with machine := m })
  | (.ok (), m, d) => Loop.run (vcontRound vm inRange) rounds ({ h with machine := m }, d)

/-- `vcont`, as far as it gets in a number of rounds. The answer `none` is the panic on
an empty request. -/
def Handler.vcont (rounds : Nat) (h : Handler M) (request : List (VCont × Option ThreadId)) :
    Option (Option (Except HandlerError StopReason × Handler M)) :=
  -- only the first action is looked at, and its thread is not
  match request with
  | [] => some none
  | (.continue, _) :: _ => (vcontLoop vm (fun _ => true) rounds h).map some
  | (.step, _) :: _ =>
    if vm.running h.machine then
      match stepOn vm h.machine .build with
      | (.error _, m, _) => some (some (.ok (.signal 5), { h with machine := m }))
      | (.ok (), m, _) => some (some (.ok (stopReason vm m), { h with machine := m }))
    else some (some (.ok (stopReason vm h.machine), h))
  | (.rangeStep start stop, _) :: _ =>
    (vcontLoop vm (fun pc => start ≤ pc ∧ pc < stop) rounds h).map some
  | _ => some (some (.error (.error 5), h))

end Machine

/-! ### Requests -/

section Requests

variable {M : Type}

def Handler.insertSoftwareBreakpoint (h : Handler M) (breakpoint : Breakpoint) : Handler M :=
  { h with breakpoints := h.breakpoints ++ [breakpoint] }

def Handler.removeSoftwareBreakpoint (h : Handler M) (breakpoint : Breakpoint) : Handler M :=
  { h with breakpoints := h.breakpoints.filter (· != breakpoint) }

def Handler.insertWriteWatchpoint (h : Handler M) (watchpoint : Watchpoint) : Handler M :=
  { h with watchpoints := h.watchpoints ++ [.new watchpoint] }

def Handler.removeWriteWatchpoint (h : Handler M) (wp : Watchpoint) : Handler M :=
  { h with
    -- unlike a breakpoint, it is not compared as a whole
    watchpoints := h.watchpoints.filter fun b =>
      b.watchpoint.addr != wp.addr || b.watchpoint.nBytes != wp.nBytes }

end Requests

end GdbServer
