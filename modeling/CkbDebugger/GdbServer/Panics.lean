import CkbDebugger.GdbServer.Requests
import CkbDebugger.GdbServer.Resume

/-!
# Packets that panic

What can panic while `GdbHandler` serves a packet: the index of the first action, the allocation of
the copy of a watched region, the borrows of its cells, and, in a build with overflow checks, the end
of a memory region. A build without the checks wraps around.
-/
namespace GdbServer

open CkbVm (Vm Decoder)
open GdbRemote (HandlerCall HandlerError MemoryRegion VCont ThreadId StopReason Command Query Service Server
  handlePacket handleCommand)

/-! ### Borrows -/

inductive Cell where
  | machine
  | breakpoints
  | watchpoints
  deriving Repr, DecidableEq

/-- A borrow of a cell, and the borrows that are made while it lasts. -/
structure Borrow where
  cell : Cell
  exclusive : Bool
  during : List (Cell × Bool)
  deriving Repr, DecidableEq

def Borrow.allowed (borrow : Borrow) : Bool :=
  borrow.during.all fun (cell, exclusive) => cell != borrow.cell || (!borrow.exclusive && !exclusive)

/-- The borrows of each method; those of a loop are listed once. -/
def borrows : HandlerCall → List Borrow
  | .readGeneralRegisters => [⟨.machine, false, []⟩]
  | .readRegister _ => [⟨.machine, false, []⟩]
  | .writeRegister .. => [⟨.machine, true, []⟩]
  | .readMemory _ => [⟨.machine, true, []⟩]
  | .writeMemory .. => [⟨.machine, true, []⟩]
  | .vcont _ =>
    -- the arguments of `build_decoder`, `reset_signal` and `step`, and the last tests
    [⟨.machine, false, [(.machine, false)]⟩, ⟨.machine, true, []⟩, ⟨.machine, false, []⟩,
    -- the condition of the loop, which holds on to the first borrow while it calls `at_breakpoint`
      ⟨.machine, false, [(.machine, false), (.breakpoints, false)]⟩,
    -- `at_watchpoint`, which calls `read_memory` for each watchpoint
      ⟨.watchpoints, true, [(.machine, true)]⟩]
  | .insertSoftwareBreakpoint _ => [⟨.breakpoints, true, []⟩]
  | .removeSoftwareBreakpoint _ => [⟨.breakpoints, true, []⟩]
  | .insertWriteWatchpoint _ => [⟨.watchpoints, true, []⟩]
  | .removeWriteWatchpoint _ => [⟨.watchpoints, true, []⟩]
  | _ => []

/-- No method borrows a cell that is in use. -/
theorem borrows_allowed (call : HandlerCall) : (borrows call).all Borrow.allowed = true := by
  cases call <;> rfl

/-! ### Overflow checks -/

/-- `region.address + region.length` does not fit. -/
def overflows (region : MemoryRegion) : Bool := 2 ^ 64 ≤ region.address.toNat + region.length.toNat

def WatchPointStatus.region (status : WatchPointStatus) : MemoryRegion :=
  ⟨status.watchpoint.addr, status.watchpoint.nBytes⟩

section Machine

variable {M : Type}

section Resume

variable (vm : Vm M) (checks : Bool)

/-- `at_watchpoint` gets to a region whose end overflows. -/
def lookOverflows (m : M) : List WatchPointStatus → Bool
  | [] => false
  | status :: rest =>
    overflows status.region ||
      match status.hasChange vm m with
      | (.error _, _) => false
      | (.ok _, _) => lookOverflows m rest

/-- A round of the loops of `vcont` with the panic in `at_watchpoint`, which is the result `none`. -/
def checkedRound (inRange : UInt64 → Bool) (s : Handler M × Decoder) :
    Loop.Round (Handler M × Decoder) (Option (Except HandlerError StopReason × Handler M)) :=
  if checks && entersRound vm inRange s.1 && lookOverflows vm s.1.machine s.1.watchpoints then .leave none
  else
    match vcontRound vm inRange s with
    | .again next => .again next
    | .leave result => .leave (some result)

def checkedLoop (inRange : UInt64 → Bool) (rounds : Nat) (h : Handler M) :
    Option (Option (Except HandlerError StopReason × Handler M)) :=
  match stepOn vm h.machine .build with
  | (.error _, m, _) => some (some (.ok (.signal 5), { h with machine := m }))
  | (.ok (), m, d) => Loop.run (checkedRound vm checks inRange) rounds ({ h with machine := m }, d)

/-- `vcont` in a build with or without the checks. -/
def Handler.checkedVcont (rounds : Nat) (h : Handler M) (request : List (VCont × Option ThreadId)) :
    Option (Option (Except HandlerError StopReason × Handler M)) :=
  match request with
  | [] => some none
  | (action, thread) :: others =>
    match loopRange action with
    | some inRange => checkedLoop vm checks inRange rounds h
    | none => h.vcont vm rounds ((action, thread) :: others)

end Resume

variable (target : Target M) (checks : Bool) (rounds : Nat)

/-- `GdbHandler` with everything that can panic. -/
def checkedHandler : GdbRemote.Handler (Handler M) := fun call h =>
  if (borrows call).all Borrow.allowed then
    match call with
    | .readMemory region =>
      if checks && overflows region then none else gdbHandler target rounds (.readMemory region) h
    | .vcont request => (h.checkedVcont target.toVm checks rounds request).join
    | call => gdbHandler target rounds call h
  else none

theorem checkedRound_release (vm : Vm M) (inRange : UInt64 → Bool) (rounds : Nat) (s : Handler M × Decoder) :
    Loop.run (checkedRound vm false inRange) rounds s = (Loop.run (vcontRound vm inRange) rounds s).map some := by
  induction rounds generalizing s with
  | zero => rfl
  | succ rounds ih =>
    simp only [Loop.run, checkedRound, Bool.false_and, Bool.false_eq_true, if_false]
    cases vcontRound vm inRange s with
    | again next => exact ih next
    | leave result => rfl

/-- Without the overflow checks these are the methods as they stand. -/
theorem checkedHandler_release (call : HandlerCall) (h : Handler M) :
    checkedHandler target false rounds call h = gdbHandler target rounds call h := by
  cases call with
  | vcont request =>
    -- the loops are the same, the other actions are not touched
    have same : h.checkedVcont target.toVm false rounds request = h.vcont target.toVm rounds request := by
      cases request with
      | nil => rfl
      | cons first others =>
        obtain ⟨action, thread⟩ := first
        simp only [Handler.checkedVcont]
        cases loops : loopRange action with
        | none => rfl
        | some inRange =>
          rw [vcont_of_loopRange target.toVm loops]
          simp only [checkedLoop, vcontLoop]
          rcases stepOn target.toVm h.machine .build with ⟨result, m, d⟩
          cases result with
          | error e => rfl
          | ok _ => exact checkedRound_release target.toVm inRange rounds _
    exact congrArg Option.join same
  | _ => rfl

/-! ### The method that a packet calls -/

/-- The method that is called for a query, if any. -/
def queryCall : Query → Option HandlerCall
  | .attached pid => some (.attached pid)
  | .currentThread => some .currentThread
  | .invoke cmd => some (.invoke cmd)
  | .searchMemory address length bytes => some (.searchMemory address length bytes)
  | .supportedFeatures _ => some .querySupportedFeatures
  | .startNoAckMode => none
  | .addressRandomization randomize => some (.setAddressRandomization randomize)
  | .catchSyscalls calls => some (.catchSyscalls calls)
  | .passSignals signals => some (.setPassSignals signals)
  | .programSignals signals => some (.setProgramSignals signals)
  | .threadInfo thread => some (.threadInfo thread)
  | .threadList reset => some (.threadList reset)
  | .readBytes object annex offset length => some (.readBytes object annex offset length)
  | .symbol value name => some (.processSymbol value name)

/-- The method that is called for a command, if any; operations on files stop at `fs`. -/
def commandCall : Command → Option HandlerCall
  | .enableExtendedMode => none
  | .targetHaltReason => some .haltReason
  | .readGeneralRegisters => some .readGeneralRegisters
  | .writeGeneralRegisters bytes => some (.writeGeneralRegisters bytes)
  | .kill pid => some (.kill pid)
  | .reset => none
  | .readRegister regno => some (.readRegister regno)
  | .writeRegister regno bytes => some (.writeRegister regno bytes)
  | .readMemory region => some (.readMemory region)
  | .writeMemory region bytes =>
    if region.length.toNat ≠ bytes.length then none else some (.writeMemory region.address bytes)
  | .setCurrentThread f thread => some (.setCurrentThread f thread)
  | .detach pid => some (.detach pid)
  | .query q => queryCall q
  | .pingThread thread => some (.pingThread thread)
  | .ctrlC => none
  | .unknownVCommand => none
  | .insertSoftwareBreakpoint bp => some (.insertSoftwareBreakpoint bp)
  | .insertHardwareBreakpoint bp => some (.insertHardwareBreakpoint bp)
  | .insertWriteWatchpoint wp => some (.insertWriteWatchpoint wp)
  | .insertReadWatchpoint wp => some (.insertReadWatchpoint wp)
  | .insertAccessWatchpoint wp => some (.insertAccessWatchpoint wp)
  | .removeSoftwareBreakpoint bp => some (.removeSoftwareBreakpoint bp)
  | .removeHardwareBreakpoint bp => some (.removeHardwareBreakpoint bp)
  | .removeWriteWatchpoint wp => some (.removeWriteWatchpoint wp)
  | .removeReadWatchpoint wp => some (.removeReadWatchpoint wp)
  | .removeAccessWatchpoint wp => some (.removeAccessWatchpoint wp)
  | .vContSupported => some .querySupportedVcont
  | .vCont list => some (.vcont list)
  | .hostOpen .. => some .fs
  | .hostClose _ => some .fs
  | .hostPRead .. => some .fs
  | .hostPWrite .. => some .fs
  | .hostFStat _ => some .fs
  | .hostUnlink _ => some .fs
  | .hostReadlink _ => some .fs
  | .hostSetFS _ => some .fs

/-- The handler that a method leaves; none after a panic. -/
def callEffect (handler : GdbRemote.Handler (Handler M)) (call : Option HandlerCall) (h : Handler M) :
    Option (Handler M) :=
  match call with
  | none => some h
  | some call => (handler call h).map Prod.snd

/-- The handler that a service leaves; none after a panic. -/
def serviceEffect {α : Type} (service : Service (Handler M) α) (server : Server (Handler M)) :
    Option (Handler M) :=
  (service.runOn server).1.map fun _ => (service.runOn server).2.handler

variable {handler : GdbRemote.Handler (Handler M)}

@[simp] theorem serviceEffect_pure {α : Type} (a : α) (server : Server (Handler M)) :
    serviceEffect (pure a) server = some server.handler := rfl

theorem serviceEffect_call {α : Type} (call : HandlerCall) (answer : call.Result → α)
    (server : Server (Handler M)) :
    serviceEffect (handler.call call >>= fun result => pure (answer result)) server =
      callEffect handler (some call) server.handler := by
  simp only [serviceEffect, callEffect, GdbRemote.runOn_bind, GdbRemote.runOn_call]
  cases handler call server.handler <;> rfl

/-- What follows a service without a call of its own does not count. -/
theorem serviceEffect_bind {α β : Type} {service : Service (Handler M) α} {next : α → Service (Handler M) β}
    (quiet : ∀ a server, serviceEffect (next a) server = some server.handler) (server : Server (Handler M)) :
    serviceEffect (service >>= next) server = serviceEffect service server := by
  simp only [serviceEffect, GdbRemote.runOn_bind]
  rcases service.runOn server with ⟨result, after⟩
  cases result with
  | none => rfl
  | some a => exact quiet a after

theorem handleQuery_effect (q : Query) (server : Server (Handler M)) :
    serviceEffect (GdbRemote.handleQuery handler q) server = callEffect handler (queryCall q) server.handler := by
  cases q with
  | startNoAckMode => rfl
  | _ => exact serviceEffect_call _ _ server

/-- A command calls one method, if it calls any; there is no file system to go on with. -/
theorem handleCommand_effect (noFiles : ∀ h, handler .fs h = some (false, h)) (cmd : Command)
    (server : Server (Handler M)) :
    serviceEffect (handleCommand handler cmd) server = callEffect handler (commandCall cmd) server.handler := by
  -- `fs` answers that there is no file system, and the operation is not called
  have files {α : Type} (operation : Service (Handler M) (GdbRemote.IOResult α))
      (answer : GdbRemote.IOResult α → GdbRemote.Response) :
      serviceEffect (GdbRemote.fsAndThen handler operation >>= fun result => pure (answer result)) server =
        callEffect handler (some .fs) server.handler := by
    have called := GdbRemote.runOn_call handler .fs server
    rw [noFiles] at called
    rw [serviceEffect_bind fun _ _ => rfl]
    simp only [GdbRemote.fsAndThen, serviceEffect, callEffect, GdbRemote.runOn_bind, noFiles]
    rw [called]
    rfl
  cases cmd with
  | enableExtendedMode => rfl
  | reset => rfl
  | ctrlC => rfl
  | unknownVCommand => rfl
  | query q => exact handleQuery_effect q server
  | kill pid => cases pid <;> exact serviceEffect_call _ _ server
  | writeMemory region bytes =>
    simp only [handleCommand, commandCall]
    split
    · rfl
    · exact serviceEffect_call _ _ server
  | hostOpen filename flags mode => exact files _ _
  | hostClose fd => exact files _ _
  | hostPRead fd count offset => exact files _ _
  | hostPWrite fd offset data => exact files _ _
  | hostFStat fd => exact files _ _
  | hostUnlink filename => exact files _ _
  | hostReadlink filename => exact files _ _
  | hostSetFS pid => exact files _ _
  | _ => exact serviceEffect_call _ _ server

theorem handlePacket_effect (noFiles : ∀ h, handler .fs h = some (false, h)) {data rest : GdbRemote.Bytes}
    {cmd : Command} (accepted : GdbRemote.command data = .done rest cmd) (server : Server (Handler M)) :
    serviceEffect (handlePacket handler data) server = callEffect handler (commandCall cmd) server.handler := by
  rw [← handleCommand_effect noFiles, handlePacket, accepted]
  exact serviceEffect_bind (fun _ _ => rfl) server

/-! ### Regions that overflow -/

section Regions

variable (vm : Vm M)

/-- Looking at the watchpoints does not change their regions. -/
theorem atWatchpoint_regions (m : M) (watchpoints : List WatchPointStatus) :
    (atWatchpoint vm m watchpoints).2.map WatchPointStatus.region =
      watchpoints.map WatchPointStatus.region := by
  have same := congrArg (List.map fun wp : GdbRemote.Watchpoint => (⟨wp.addr, wp.nBytes⟩ : MemoryRegion))
    (atWatchpoint_watchpoints vm m watchpoints)
  rw [List.map_map, List.map_map] at same
  exact same

/-- A round leaves the watched regions as they are. -/
theorem vcontRound_regions (inRange : UInt64 → Bool) (s : Handler M × Decoder) :
    (∀ next, vcontRound vm inRange s = .again next →
      next.1.watchpoints.map WatchPointStatus.region = s.1.watchpoints.map WatchPointStatus.region) ∧
    ∀ answer after, vcontRound vm inRange s = .leave (answer, after) →
      after.watchpoints.map WatchPointStatus.region = s.1.watchpoints.map WatchPointStatus.region := by
  have regions := atWatchpoint_regions vm s.1.machine s.1.watchpoints
  have round := vcontRound_cases vm inRange s.1 s.2
  constructor
  · intro next went
    rw [went] at round
    cases round with
    | again looks stepped =>
      rw [looks] at regions
      exact regions
  · intro answer after left
    rw [left] at round
    cases round with
    | halted => rfl
    | unreadable looks | fired looks | failed looks _ =>
      rw [looks] at regions
      exact regions

end Regions

/-- With the checks on, no watched region overflows. -/
def Handler.Fits (checks : Bool) (h : Handler M) : Prop :=
  checks = true → ∀ region ∈ h.watchpoints.map WatchPointStatus.region, overflows region = false

theorem lookOverflows_of_fits (vm : Vm M) (m : M) {watchpoints : List WatchPointStatus}
    (fits : ∀ region ∈ watchpoints.map WatchPointStatus.region, overflows region = false) :
    lookOverflows vm m watchpoints = false := by
  induction watchpoints with
  | nil => rfl
  | cons status rest ih =>
    simp only [List.map_cons, List.mem_cons, forall_eq_or_imp] at fits
    simp only [lookOverflows, fits.1, Bool.false_or]
    split
    · rfl
    · exact ih fits.2

theorem checkedRound_of_fits {vm : Vm M} {checks : Bool} {inRange : UInt64 → Bool} {s : Handler M × Decoder}
    (fits : s.1.Fits checks) :
    checkedRound vm checks inRange s =
      match vcontRound vm inRange s with
      | .again next => .again next
      | .leave result => .leave (some result) := by
  rw [checkedRound, if_neg]
  cases checks with
  | false => simp
  | true => simp [lookOverflows_of_fits vm s.1.machine (fits rfl)]

theorem checkedRound_fits {vm : Vm M} {checks : Bool} {inRange : UInt64 → Bool} {s next : Handler M × Decoder}
    (fits : s.1.Fits checks) (went : checkedRound vm checks inRange s = .again next) : next.1.Fits checks := by
  rw [checkedRound_of_fits fits] at went
  split at went
  next next' round =>
    cases went
    intro on
    rw [(vcontRound_regions vm inRange s).1 _ round]
    exact fits on
  · cases went

/-- A resume of a handler that fits does not panic, and the handler still fits. -/
theorem checkedLoop_fits {vm : Vm M} {checks : Bool} {inRange : UInt64 → Bool} {rounds : Nat} {h : Handler M}
    (fits : h.Fits checks) {result : Option (Except HandlerError StopReason × Handler M)}
    (returned : checkedLoop vm checks inRange rounds h = some result) :
    ∃ answer after, result = some (answer, after) ∧ after.Fits checks := by
  simp only [checkedLoop] at returned
  rcases stepped : stepOn vm h.machine .build with ⟨succeeded, m, d⟩
  rw [stepped] at returned
  cases succeeded with
  | error e =>
    cases returned
    exact ⟨_, _, rfl, fits⟩
  | ok _ =>
    obtain ⟨last, reached, left⟩ := (Loop.exists_run_iff _ _).mp ⟨rounds, returned⟩
    -- no round changes the regions, so the checks of the sums pass in all of them
    have kept : (fun s : Handler M × Decoder => s.1.Fits checks) last :=
      reached.invariant fits fun s next before went => checkedRound_fits before went
    rw [checkedRound_of_fits kept] at left
    split at left
    · cases left
    next result' round =>
      cases left
      obtain ⟨answer, after⟩ := result'
      refine ⟨answer, after, rfl, fun on => ?_⟩
      rw [(vcontRound_regions vm inRange last).2 _ _ round]
      exact kept on

/-! ### Packets -/

/-- The commands that panic: no action to resume with, a watched region that is too large to be
copied, and, with the checks, memory up to and beyond the end of the address space. -/
def Crashes (checks : Bool) : Command → Prop
  | .vCont [] => True
  | .insertWriteWatchpoint wp => isizeMax < wp.nBytes.toNat
  | .readMemory region => checks = true ∧ overflows region = true
  | _ => False

/-- The commands that make a later resume panic. -/
def Poisons (checks : Bool) : Command → Prop
  | .insertWriteWatchpoint wp => checks = true ∧ overflows ⟨wp.addr, wp.nBytes⟩ = true
  | _ => False

/-- The handlers that a client gets to with packets that neither panic nor make a later one
panic. -/
inductive Served (start : M) : Handler M → Prop where
  | new : Served start (.new start)
  | packet {h after : Handler M} {data : GdbRemote.Bytes} (served : Served start h)
      (harmless : ∀ rest cmd, GdbRemote.command data = .done rest cmd → ¬Crashes checks cmd ∧ ¬Poisons checks cmd)
      (rounds : Nat) (calls : List HandlerCall) (output : GdbRemote.Bytes)
      (returned : serviceEffect (handlePacket (checkedHandler target checks rounds) data) ⟨h, calls, output⟩ =
        some after) : Served start after

theorem checkedVcont_fits {vm : Vm M} {checks : Bool} {rounds : Nat} {h : Handler M} (fits : h.Fits checks)
    {request : List (VCont × Option ThreadId)} (some_action : request ≠ [])
    {result : Option (Except HandlerError StopReason × Handler M)}
    (returned : h.checkedVcont vm checks rounds request = some result) :
    ∃ answer after, result = some (answer, after) ∧ after.Fits checks := by
  cases request with
  | nil => exact absurd rfl some_action
  | cons first others =>
    obtain ⟨action, thread⟩ := first
    simp only [Handler.checkedVcont] at returned
    cases loops : loopRange action with
    | some inRange =>
      rw [loops] at returned
      exact checkedLoop_fits fits returned
    | none =>
      rw [loops] at returned
      cases action with
      | «continue» => cases loops
      | rangeStep start stop => cases loops
      | step =>
        simp only [Handler.vcont] at returned
        split at returned
        · split at returned
          · cases returned
            exact ⟨_, _, rfl, fits⟩
          · cases returned
            exact ⟨_, _, rfl, fits⟩
        · cases returned
          exact ⟨_, _, rfl, fits⟩
      | continueWithSignal signal =>
        cases returned
        exact ⟨_, _, rfl, fits⟩
      | stepWithSignal signal =>
        cases returned
        exact ⟨_, _, rfl, fits⟩
      | stop =>
        cases returned
        exact ⟨_, _, rfl, fits⟩

theorem checkedHandler_fs (h : Handler M) : checkedHandler target checks rounds .fs h = some (false, h) := rfl

/-- The effect of a method that is called for a harmless command. -/
theorem callEffect_fits {target : Target M} {checks : Bool} {rounds : Nat} {h after : Handler M}
    (fits : h.Fits checks) {cmd : Command} (safe : ¬Crashes checks cmd) (clean : ¬Poisons checks cmd)
    (left : callEffect (checkedHandler target checks rounds) (commandCall cmd) h = some after) :
    after.Fits checks := by
  cases cmd with
  | query q => cases q <;> cases left <;> exact fits
  | writeMemory region bytes =>
    simp only [commandCall] at left
    split at left
    · cases left
      exact fits
    · simp only [callEffect, Option.map_eq_some_iff] at left
      obtain ⟨⟨_, _⟩, written, rfl⟩ := left
      simp only [checkedHandler, borrows_allowed, if_true, gdbHandler, Handler.writeMemory, Option.some.injEq]
        at written
      split at written <;> cases written <;> exact fits
  | writeRegister regno bytes =>
    simp only [commandCall, callEffect, Option.map_eq_some_iff] at left
    obtain ⟨⟨_, _⟩, written, rfl⟩ := left
    simp only [checkedHandler, borrows_allowed, if_true, gdbHandler, Handler.writeRegister, Option.some.injEq]
      at written
    split at written
    · cases written
      exact fits
    · split at written
      · cases written
        exact fits
      · split at written <;> cases written <;> exact fits
  | readMemory region =>
    simp only [commandCall, callEffect, Option.map_eq_some_iff] at left
    obtain ⟨⟨_, _⟩, answered, rfl⟩ := left
    simp only [checkedHandler, borrows_allowed, if_true] at answered
    split at answered
    · cases answered
    · cases answered
      exact fits
  | insertWriteWatchpoint wp =>
    simp only [commandCall, callEffect, Option.map_eq_some_iff] at left
    obtain ⟨⟨_, _⟩, inserted, rfl⟩ := left
    simp only [checkedHandler, borrows_allowed, if_true, gdbHandler] at inserted
    split at inserted
    · cases inserted
      intro on region member
      simp only [Handler.insertWriteWatchpoint, List.map_append, List.mem_append] at member
      rcases member with old | new
      -- the new region is the only one that has to be looked at
      · exact fits on region old
      · rw [List.mem_singleton.mp new]
        exact Bool.eq_false_iff.mpr fun wraps => clean ⟨on, wraps⟩
    · cases inserted
  | removeWriteWatchpoint wp =>
    cases left
    intro on region member
    obtain ⟨status, kept, rfl⟩ := List.mem_map.mp member
    exact fits on _ (List.mem_map_of_mem (List.mem_of_mem_filter kept))
  | vCont request =>
    simp only [commandCall, callEffect, Option.map_eq_some_iff] at left
    obtain ⟨⟨_, _⟩, resumed, rfl⟩ := left
    simp only [checkedHandler, borrows_allowed, if_true, Option.join_eq_some_iff] at resumed
    have some_action : request ≠ [] := by
      rintro rfl
      exact safe trivial
    obtain ⟨_, _, same, still⟩ := checkedVcont_fits fits some_action resumed
    cases same
    exact still
  | _ =>
    cases left
    exact fits

theorem served_fits {target : Target M} {checks : Bool} {start : M} {h : Handler M}
    (served : Served target checks start h) : h.Fits checks := by
  induction served with
  | new => exact fun _ region member => absurd member List.not_mem_nil
  | @packet h after data _ harmless rounds calls output returned fits =>
    cases parsed : GdbRemote.command data with
    | done rest cmd =>
      rw [handlePacket_effect (checkedHandler_fs target checks rounds) parsed] at returned
      exact callEffect_fits fits (harmless rest cmd parsed).1 (harmless rest cmd parsed).2 returned
    | error =>
      rw [handlePacket, parsed] at returned
      cases returned
      exact fits
    | incomplete =>
      rw [handlePacket, parsed] at returned
      cases returned
      exact fits
    | panic =>
      rw [handlePacket, parsed] at returned
      cases returned

/-- The packet is answered, after some number of rounds. -/
def Answers (server : Server (Handler M)) (data : GdbRemote.Bytes) : Prop :=
  ∃ rounds result after, (handlePacket (checkedHandler target checks rounds) data).runOn server =
    (some result, after)

/-- The program that the packet resumes runs for ever. -/
def RunsOn (vm : Vm M) (h : Handler M) (cmd : Command) : Prop :=
  ∃ request, cmd = .vCont request ∧ ∀ rounds, h.checkedVcont vm checks rounds request = none

theorem answers_iff {target : Target M} {checks : Bool} {server : Server (Handler M)}
    {data rest : GdbRemote.Bytes} {cmd : Command} (accepted : GdbRemote.command data = .done rest cmd) :
    Answers target checks server data ↔ ∃ rounds,
      (callEffect (checkedHandler target checks rounds) (commandCall cmd) server.handler).isSome = true := by
  refine exists_congr fun rounds => ?_
  rw [← handlePacket_effect (checkedHandler_fs target checks rounds) accepted, serviceEffect]
  rcases (handlePacket (checkedHandler target checks rounds) data).runOn server with ⟨result, after⟩
  cases result <;> simp

/-- A resume that is not answered and does not panic runs for ever. -/
theorem vcont_answers_or_runsOn {target : Target M} {checks : Bool} {h : Handler M} (fits : h.Fits checks)
    {request : List (VCont × Option ThreadId)} (some_action : request ≠ []) :
    (∃ rounds, (callEffect (checkedHandler target checks rounds) (some (.vcont request)) h).isSome = true) ∨
      RunsOn checks target.toVm h (.vCont request) := by
  by_cases ended : ∃ rounds result, h.checkedVcont target.toVm checks rounds request = some result
  · obtain ⟨rounds, result, returned⟩ := ended
    obtain ⟨answer, after, rfl, _⟩ := checkedVcont_fits fits some_action returned
    refine .inl ⟨rounds, ?_⟩
    simp only [callEffect, checkedHandler, borrows_allowed, if_true, returned]
    rfl
  · refine .inr ⟨request, rfl, fun rounds => ?_⟩
    exact Option.eq_none_iff_forall_ne_some.mpr fun result returned => ended ⟨rounds, result, returned⟩

end Machine

/-- A running program, whose machine is the program counter. -/
def advancingTarget : Target UInt64 where
  toVm := advancing
  setRegister := fun _ _ m => m
  setPc := fun pc _ => pc
  storeBytes := fun _ _ m => (.ok (), m)

end GdbServer
