import CkbDebugger.GdbStub.Handler

/-!
# Watch events

Which watch event a step returns depends on the accesses of the instruction only;
the watchpoints that the debugger has installed are never looked at.
-/
namespace GdbStub

open CkbVm (Machine Decoder Op Call Error)

section Machine

variable {M : Type} (vm : Machine M)

/-! ### The accesses of an instruction -/

theorem perform_reads (op : Op) (h : Handler M) :
    (Handler.perform vm op h).2.memoryReads =
      h.memoryReads ++ Call.loaded ⟨op, (Handler.perform vm op h).1⟩ := by
  cases op with
  | load width addr =>
    simp only [Handler.perform]
    split <;> simp [Call.loaded]
  | store width addr value =>
    simp only [Handler.perform]
    split <;> simp [Call.loaded]
  | _ => simp [Handler.perform, Call.loaded]

theorem perform_writes (op : Op) (h : Handler M) :
    (Handler.perform vm op h).2.memoryWrites =
      h.memoryWrites ++ Call.stored ⟨op, (Handler.perform vm op h).1⟩ := by
  cases op with
  | load width addr =>
    simp only [Handler.perform]
    split <;> simp [Call.stored]
  | store width addr value =>
    simp only [Handler.perform]
    split <;> simp [Call.stored]
  | _ => simp [Handler.perform, Call.stored]

/-- The calls that the instruction at the program counter makes on the machine. -/
def Handler.calls (h : Handler M) : List Call :=
  match h.decoder.decode vm.toVm h.machine with
  | (.error _, _) => []
  | (.ok inst, _) =>
    match vm.addCycles (vm.instructionCycleFunc inst) h.machine with
    | (.error _, _) => []
    | (.ok (), counted) => (vm.program inst).calls vm.perform counted

/-- The addresses that the next step's instruction loads from. -/
def Handler.loads (h : Handler M) : List UInt64 := ((h.refresh vm).calls vm).flatMap Call.loaded

/-- The addresses that the next step's instruction stores to. -/
def Handler.stores (h : Handler M) : List UInt64 := ((h.refresh vm).calls vm).flatMap Call.stored

/-- After an instruction the lists hold its accesses and nothing else. -/
theorem stepInner_accesses {h after : Handler M} (stepped : h.stepInner vm = (.ok (), after)) :
    after.memoryReads = (h.calls vm).flatMap Call.loaded ∧
      after.memoryWrites = (h.calls vm).flatMap Call.stored := by
  simp only [Handler.stepInner] at stepped
  split at stepped
  · cases stepped
  next inst decoder decoded =>
    split at stepped
    · cases stepped
    next counted added =>
      have calls := (perform_wraps vm).calls_eq (vm.program inst)
        ({ h with decoder := decoder, machine := counted } : Handler M).clearMemoryOps
      have reads := Interface.run_log Handler.memoryReads Call.loaded (perform_reads vm) (vm.program inst)
        ({ h with decoder := decoder, machine := counted } : Handler M).clearMemoryOps
      have writes := Interface.run_log Handler.memoryWrites Call.stored (perform_writes vm)
        (vm.program inst) ({ h with decoder := decoder, machine := counted } : Handler M).clearMemoryOps
      rw [stepped, calls] at reads writes
      simp only [Handler.calls, decoded, added]
      exact ⟨reads, writes⟩

/-- A step of the handler against `DefaultMachine::step` on the machine inside: the same result,
the same machine and decoder, and after a success the accesses that the instruction makes on
that machine, in their order. -/
structure Transparent (h : Handler M) : Prop where
  result : (h.stepInner vm).1 = (vm.step h.machine h.decoder).1
  machine : (h.stepInner vm).2.machine = (vm.step h.machine h.decoder).2.1
  decoder : (h.stepInner vm).2.decoder = (vm.step h.machine h.decoder).2.2
  reads : (h.stepInner vm).1 = .ok () →
    (h.stepInner vm).2.memoryReads = (h.calls vm).flatMap Call.loaded
  writes : (h.stepInner vm).1 = .ok () →
    (h.stepInner vm).2.memoryWrites = (h.calls vm).flatMap Call.stored

/-- Whatever the instructions do and in whatever state, the handler does not show in the machine,
and it notes the accesses of the latest instruction only. -/
theorem stepInner_transparent (h : Handler M) : Transparent vm h := by
  have same := stepInner_step vm h
  -- the lists are cleared before the instruction, so nothing is left over from earlier ones
  have accesses (succeeded : (h.stepInner vm).1 = .ok ()) :
      (h.stepInner vm).2.memoryReads = (h.calls vm).flatMap Call.loaded ∧
        (h.stepInner vm).2.memoryWrites = (h.calls vm).flatMap Call.stored :=
    stepInner_accesses vm (Prod.ext succeeded rfl)
  constructor
  · rw [same]
  · rw [same]
  · rw [same]
  · exact fun succeeded => (accesses succeeded).1
  · exact fun succeeded => (accesses succeeded).2

/-! ### The event of a step -/

/-- The step ran no instruction, or an instruction that failed, or it stopped for a
reason that comes before the watch events. -/
def Interrupts : Option VmEvent → Prop
  | some (.exited _) => True
  | some (.error _) => True
  | some (.catchSyscall _) => True
  | some .break => True
  | _ => False

/-- The watch event of an instruction with the given stores and loads. -/
def watchEvent (stores loads : List UInt64) : Option VmEvent :=
  match stores.getLast? with
  | some addr => some (.watchWrite addr)
  | none => loads.getLast?.map .watchRead

theorem stopEvent_event {h : Handler M} (quiet : ¬Interrupts (h.stopEvent vm).1) :
    (h.stopEvent vm).1 = watchEvent h.memoryWrites h.memoryReads := by
  have writes : (h.nextOpcode vm).2.memoryWrites = h.memoryWrites := by
    simp only [Handler.nextOpcode]
    split <;> rfl
  have reads : (h.nextOpcode vm).2.memoryReads = h.memoryReads := by
    simp only [Handler.nextOpcode]
    split <;> rfl
  simp only [Handler.stopEvent, watchEvent] at quiet ⊢
  rw [← writes, ← reads]
  cases caught : (h.nextOpcode vm).2.caught vm (h.nextOpcode vm).1 with
  | some number =>
    simp only [caught] at quiet
    exact absurd trivial quiet
  | none =>
    simp only [caught] at quiet ⊢
    by_cases here : (h.nextOpcode vm).2.breakpoints.contains (vm.pc (h.nextOpcode vm).2.machine) = true
    · rw [if_pos here] at quiet
      exact absurd trivial quiet
    · rw [if_neg here]
      cases (h.nextOpcode vm).2.memoryWrites.getLast? with
      | some addr => rfl
      | none =>
        cases (h.nextOpcode vm).2.memoryReads.getLast? with
        | some addr => rfl
        | none => rfl

/-- A step that nothing else stops returns the last store of its instruction, or the last
load of one that stores nothing. -/
theorem step_event {h : Handler M} (quiet : ¬Interrupts (h.step vm).1) :
    (h.step vm).1 = watchEvent (h.stores vm) (h.loads vm) := by
  simp only [Handler.step] at quiet ⊢
  split
  next running =>
    rw [if_pos running] at quiet
    split
    next after stepped =>
      rw [stepped] at quiet
      obtain ⟨reads, writes⟩ := stepInner_accesses vm stepped
      rw [stopEvent_event vm quiet, reads, writes, Handler.loads, Handler.stores]
    next e after failed =>
      rw [failed] at quiet
      exact absurd trivial quiet
  next stopped =>
    rw [if_neg stopped] at quiet
    exact absurd trivial quiet

/-! ### Watchpoints that the debugger has installed -/

def WatchKind.onWrite : WatchKind → Bool
  | .read => false
  | _ => true

def WatchKind.onRead : WatchKind → Bool
  | .write => false
  | _ => true

/-- The backend with the watchpoints that the debugger has put in and not taken out. -/
structure Session (M : Type) where
  handler : Handler M
  installed : List (UInt64 × WatchKind)

def Session.WatchesWrite (s : Session M) (addr : UInt64) : Prop :=
  ∃ kind, (addr, kind) ∈ s.installed ∧ kind.onWrite = true

def Session.WatchesRead (s : Session M) (addr : UInt64) : Prop :=
  ∃ kind, (addr, kind) ∈ s.installed ∧ kind.onRead = true

/-- One request of the debugger. A request that panics leads nowhere. -/
inductive Session.Request : Session M → Session M → Prop where
  | addSwBreakpoint {s : Session M} (addr : UInt64) :
      Request s { s with handler := (s.handler.addSwBreakpoint addr).2 }
  | removeSwBreakpoint {s : Session M} (addr : UInt64) :
      Request s { s with handler := (s.handler.removeSwBreakpoint addr).2 }
  | addHwWatchpoint {s : Session M} (addr len : UInt64) (kind : WatchKind) :
      Request s ⟨(s.handler.addHwWatchpoint addr len kind).2, (addr, kind) :: s.installed⟩
  | removeHwWatchpoint {s : Session M} (addr len : UInt64) (kind : WatchKind) (found : Bool)
      (h : Handler M) (removed : s.handler.removeHwWatchpoint addr len kind = some (found, h)) :
      Request s ⟨h, s.installed.erase (addr, kind)⟩
  | enableCatchSyscalls {s : Session M} (filter : Option (List UInt64)) :
      Request s { s with handler := s.handler.enableCatchSyscalls filter }
  | disableCatchSyscalls {s : Session M} :
      Request s { s with handler := s.handler.disableCatchSyscalls }
  | resume {s : Session M} (signal : Option UInt8) :
      Request s { s with handler := (s.handler.resume signal).2 }
  | resumeRangeStep {s : Session M} (start stop : UInt64) :
      Request s { s with handler := s.handler.resumeRangeStep start stop }
  | resumeStep {s : Session M} (signal : Option UInt8) :
      Request s { s with handler := (s.handler.resumeStep signal).2 }
  -- reads and writes of registers and memory go to the machine itself
  | touch {s : Session M} (op : Op) :
      Request s { s with handler := { s.handler with machine := (vm.perform op s.handler.machine).2 } }
  | execute {s : Session M} {Ω : Type} (poll : Ω → Bool × Ω) (rounds : Nat) (polled left : Ω)
      (event : VmEvent) (h : Handler M)
      (stopped : s.handler.execute vm poll rounds polled = some (event, h, left)) :
      Request s { s with handler := h }

/-- The states that requests lead to, from a handler without watchpoints. -/
inductive Session.Reachable (machine : M) : Session M → Prop where
  | start : Reachable machine ⟨.new machine, []⟩
  | request {s next : Session M} (reached : Reachable machine s)
      (made : Session.Request vm s next) : Reachable machine next

/-- The watch event of a step is one that the debugger has asked for, and there is one
when the instruction makes an access that is watched. -/
structure WatchesExactly (s : Session M) (event : Option VmEvent) : Prop where
  write : ∀ a, event = some (.watchWrite a) → a ∈ s.handler.stores vm ∧ s.WatchesWrite a
  read : ∀ a, event = some (.watchRead a) → a ∈ s.handler.loads vm ∧ s.WatchesRead a
  complete : (∃ a ∈ s.handler.stores vm, s.WatchesWrite a) ∨ (∃ a ∈ s.handler.loads vm, s.WatchesRead a) →
    ∃ a, event = some (.watchWrite a) ∨ event = some (.watchRead a)

/-- The last store of the instruction, or the last load of one that stores nothing, is
at an address that is watched for it. -/
def LastAccessWatched (s : Session M) : Prop :=
  (∀ a, (s.handler.stores vm).getLast? = some a → s.WatchesWrite a) ∧
    (s.handler.stores vm = [] → ∀ a, (s.handler.loads vm).getLast? = some a → s.WatchesRead a)

theorem watchesExactly_iff (s : Session M) :
    WatchesExactly vm s (watchEvent (s.handler.stores vm) (s.handler.loads vm)) ↔
      LastAccessWatched vm s := by
  -- a store hides every load, so the loads matter only in the second case
  cases stored : (s.handler.stores vm).getLast? with
  | some last =>
    have member := List.mem_of_getLast? stored
    have some_store : s.handler.stores vm ≠ [] := List.ne_nil_of_mem member
    have event : watchEvent (s.handler.stores vm) (s.handler.loads vm) = some (.watchWrite last) := by
      rw [watchEvent, stored]
    rw [event]
    constructor
    · intro exact
      refine ⟨fun a same => ?_, fun empty => absurd empty some_store⟩
      obtain rfl := Option.some.inj (stored.symm.trans same)
      exact (exact.write last rfl).2
    · intro watched
      refine ⟨fun a same => ?_, nofun, fun _ => ⟨last, .inl rfl⟩⟩
      cases same
      exact ⟨member, watched.1 last stored⟩
  | none =>
    have no_store : s.handler.stores vm = [] := List.getLast?_eq_none_iff.mp stored
    cases loaded : (s.handler.loads vm).getLast? with
    | some last =>
      have event : watchEvent (s.handler.stores vm) (s.handler.loads vm) = some (.watchRead last) := by
        rw [watchEvent, stored, loaded]
        rfl
      rw [event]
      constructor
      · intro exact
        refine ⟨fun a same => ?_, fun _ a same => ?_⟩
        · rw [stored] at same
          cases same
        · obtain rfl := Option.some.inj (loaded.symm.trans same)
          exact (exact.read last rfl).2
      · intro watched
        refine ⟨nofun, fun a same => ?_, fun _ => ⟨last, .inr rfl⟩⟩
        cases same
        exact ⟨List.mem_of_getLast? loaded, watched.2 no_store last loaded⟩
    | none =>
      have no_load : s.handler.loads vm = [] := List.getLast?_eq_none_iff.mp loaded
      have event : watchEvent (s.handler.stores vm) (s.handler.loads vm) = none := by
        rw [watchEvent, stored, loaded]
        rfl
      rw [event]
      constructor
      · intro _
        refine ⟨fun a same => ?_, fun _ a same => ?_⟩
        · rw [stored] at same
          cases same
        · rw [loaded] at same
          cases same
      · intro _
        refine ⟨nofun, nofun, ?_⟩
        rintro (⟨a, member, _⟩ | ⟨a, member, _⟩)
        · rw [no_store] at member
          cases member
        · rw [no_load] at member
          cases member

/-! ### Running on -/

def IsWatch : VmEvent → Prop
  | .watchWrite _ => True
  | .watchRead _ => True
  | _ => False

/-- A step returns a watch event when nothing else stops it and its instruction makes
an access. -/
theorem step_isWatch_iff (h : Handler M) :
    (∃ event, (h.step vm).1 = some event ∧ IsWatch event) ↔
      ¬Interrupts (h.step vm).1 ∧ ¬(h.stores vm = [] ∧ h.loads vm = []) := by
  have without : watchEvent (h.stores vm) (h.loads vm) = none ↔ h.stores vm = [] ∧ h.loads vm = [] := by
    cases stored : (h.stores vm).getLast? with
    | some last =>
      have some_store := List.ne_nil_of_mem (List.mem_of_getLast? stored)
      simp [watchEvent, stored, some_store]
    | none => simp [watchEvent, List.getLast?_eq_none_iff.mp stored]
  constructor
  · rintro ⟨event, same, watch⟩
    -- no event of an access is one that interrupts
    have quiet : ¬Interrupts (h.step vm).1 := by
      rw [same]
      cases event <;> first | exact watch.elim | exact not_false
    refine ⟨quiet, fun none => ?_⟩
    rw [step_event vm quiet, without.mpr none] at same
    cases same
  · rintro ⟨quiet, accessed⟩
    have event := step_event vm quiet
    cases kind : watchEvent (h.stores vm) (h.loads vm) with
    | none => exact absurd (without.mp kind) accessed
    | some event' =>
      refine ⟨event', event.trans kind, ?_⟩
      simp only [watchEvent] at kind
      split at kind
      · cases kind
        trivial
      · obtain ⟨addr, _, rfl⟩ := Option.map_eq_some_iff.mp kind
        trivial

section Continue

variable {Ω : Type} (poll : Ω → Bool × Ω)

theorem continueRound_leaves_watch_iff (s : Executing M Ω) :
    (∃ event h left, continueRound vm poll s = .leave (event, h, left) ∧ IsWatch event) ↔
      ∃ event, (s.handler.step vm).1 = some event ∧ IsWatch event := by
  cases stepped : s.handler.step vm with
  | mk event h =>
    cases event with
    | some event => simp [continueRound, executeRound, stepped]
    | none =>
      simp only [continueRound, executeRound, stepped, Bool.not_true, Bool.false_eq_true, if_false]
      constructor
      · rintro ⟨event, h', left, went, watch⟩
        split at went
        · split at went
          · cases went
            exact watch.elim
          · cases went
        · cases went
      · rintro ⟨event, same, _⟩
        cases same

/-- Running on stops for no access exactly when no instruction on the way that nothing
else stops makes one. -/
theorem continue_no_watch_iff (h : Handler M) (polled : Ω) :
    (∀ rounds event h' left, (h.resume none).2.execute vm poll rounds polled = some (event, h', left) →
      ¬IsWatch event) ↔
    ((poll polled).1 = false → ∀ s, Loop.Reaches (continueRound vm poll)
      ⟨(h.resume none).2, 0, (poll polled).2⟩ s → ¬Interrupts (s.handler.step vm).1 →
      s.handler.stores vm = [] ∧ s.handler.loads vm = []) := by
  cases first : poll polled with
  | mk ready polled' =>
    cases ready with
    | true =>
      simp only [Handler.execute, first]
      constructor
      · intro _ impossible
        cases impossible
      · rintro _ rounds event h' left same watch
        cases same
        exact watch
    | false =>
      have loop : ∀ rounds, (h.resume none).2.execute vm poll rounds polled =
          Loop.run (continueRound vm poll) rounds ⟨(h.resume none).2, 0, polled'⟩ := by
        intro rounds
        simp only [Handler.execute, first]
        rfl
      simp only [loop]
      constructor
      -- an access on the way would end the loop in its own round
      · intro never _ s reached quiet
        by_contra accessed
        have watch := (step_isWatch_iff vm s.handler).mpr ⟨quiet, accessed⟩
        obtain ⟨event, h', left, went, watch⟩ := (continueRound_leaves_watch_iff vm poll s).mpr watch
        obtain ⟨rounds, returned⟩ := (Loop.exists_run_iff _ _).mpr ⟨s, reached, went⟩
        exact never rounds event h' left returned watch
      -- the loop is left from a state it reaches, and there only for an access
      · intro none rounds event h' left returned watch
        obtain ⟨s, reached, went⟩ := (Loop.exists_run_iff _ _).mp ⟨rounds, returned⟩
        have stopped := (continueRound_leaves_watch_iff vm poll s).mp ⟨event, h', left, went, watch⟩
        obtain ⟨quiet, accessed⟩ := (step_isWatch_iff vm s.handler).mp stopped
        exact accessed (none trivial s reached quiet)

end Continue

theorem lastAccessWatched_none_iff (h : Handler M) :
    LastAccessWatched vm ⟨h, []⟩ ↔ h.stores vm = [] ∧ h.loads vm = [] := by
  constructor
  · rintro ⟨writes, reads⟩
    have no_store : h.stores vm = [] := by
      rw [← List.getLast?_eq_none_iff]
      refine Option.eq_none_iff_forall_ne_some.mpr fun a last => ?_
      obtain ⟨kind, member, _⟩ := writes a last
      cases member
    refine ⟨no_store, ?_⟩
    rw [← List.getLast?_eq_none_iff]
    refine Option.eq_none_iff_forall_ne_some.mpr fun a last => ?_
    obtain ⟨kind, member, _⟩ := reads no_store a last
    cases member
  · rintro ⟨no_store, no_load⟩
    simp [LastAccessWatched, no_store, no_load]

/-- In every state that a debugger can bring about, a step that nothing else stops
returns exactly the watch event asked for if and only if the last access of its
instruction is watched; and with no watchpoint installed, running on stops for no
access if and only if that holds of every step on the way. -/
theorem watch_events_exact_iff (machine : M) (s : Session M) (_reached : Session.Reachable vm machine s) :
    (¬Interrupts (s.handler.step vm).1 →
      (WatchesExactly vm s (s.handler.step vm).1 ↔ LastAccessWatched vm s)) ∧
    (s.installed = [] → ∀ (Ω : Type) (poll : Ω → Bool × Ω) (polled : Ω),
      (∀ rounds event h left,
        (s.handler.resume none).2.execute vm poll rounds polled = some (event, h, left) →
          ¬IsWatch event) ↔
      ((poll polled).1 = false → ∀ t, Loop.Reaches (continueRound vm poll)
        ⟨(s.handler.resume none).2, 0, (poll polled).2⟩ t →
        ¬Interrupts (t.handler.step vm).1 → LastAccessWatched vm ⟨t.handler, []⟩)) := by
  constructor
  · intro quiet
    rw [step_event vm quiet]
    exact watchesExactly_iff vm s
  · intro _ Ω poll polled
    simp only [lastAccessWatched_none_iff]
    exact continue_no_watch_iff vm poll s.handler polled

end Machine

/-! ### A load that nobody watches -/

/-- A machine of one instruction, a load of the word at `0x2000`; its state is the
program counter and a word of memory. -/
def oneLoad : Machine (UInt64 × UInt64) where
  pc := Prod.fst
  registers := fun _ _ => 0
  isa := fun _ => 0
  version := fun _ => 2
  running := fun _ => true
  setRunning := fun _ m => m
  exitCode := fun _ => 0
  resetSignal := fun m => (false, m)
  load8 := fun m _ => .ok m.2.toUInt8
  instructionCycleFunc := fun _ => 1
  addCycles := fun _ m => (.ok (), m)
  fetch := fun _ _ => .ok ⟨.other, 4, 0, CkbVm.ZERO, 0x3⟩
  slot := UInt64.toNat
  execs := fun _ => 0
  perform
    | .pc, m => (m.1, m)
    | .updatePc pc, m => ((), (pc, m.2))
    | .load _ _, m => (.ok m.2, m)
    | .store _ _ value, m => (.ok (), (m.1, value))
    | op, m => (op.zero, m)
  execute := fun _ m => (.ok (), (m.1 + 4, m.2))
  program := fun _ =>
    .call (.load .w64 0x2000) fun _ => .call .pc fun pc => .call (.updatePc (pc + 4)) fun _ =>
      .done (.ok ())
  executes := fun _ _ => rfl

/-- Without a watchpoint, the first step of a load stops with a watch event. -/
theorem unwatched_load_stops :
    Session.Reachable oneLoad (0x1000, 7) ⟨.new (0x1000, 7), []⟩ ∧
    ¬Interrupts ((Handler.new (0x1000, 7)).step oneLoad).1 ∧
    ((Handler.new (0x1000, 7)).step oneLoad).1 = some (.watchRead 0x2000) ∧
    ¬WatchesExactly oneLoad ⟨.new (0x1000, 7), []⟩ ((Handler.new (0x1000, 7)).step oneLoad).1 := by
  have event : ((Handler.new (0x1000, 7)).step oneLoad).1 = some (.watchRead 0x2000) := rfl
  refine ⟨.start, ?_, event, fun exact => ?_⟩
  · rw [event]
    exact not_false
  · obtain ⟨_, kind, member, _⟩ := exact.read 0x2000 event
    cases member

/-- With a watchpoint at the address of the load, the event is the one asked for. -/
theorem watched_load_exact : ∃ s : Session (UInt64 × UInt64),
    Session.Reachable oneLoad (0x1000, 7) s ∧ s.installed = [(0x2000, .read)] ∧
      (s.handler.step oneLoad).1 = some (.watchRead 0x2000) ∧
      WatchesExactly oneLoad s (s.handler.step oneLoad).1 := by
  have reached : Session.Reachable oneLoad (0x1000, 7)
      ⟨((Handler.new (0x1000, 7)).addHwWatchpoint 0x2000 8 .read).2, [(0x2000, .read)]⟩ :=
    .request .start (.addHwWatchpoint 0x2000 8 .read)
  refine ⟨_, reached, rfl, rfl, ((watch_events_exact_iff oneLoad (0x1000, 7) _ reached).1 ?_).mpr ⟨?_, ?_⟩⟩
  · exact not_false
  · intro a last
    cases last
  · intro _ a last
    cases last
    exact ⟨.read, List.mem_singleton_self _, rfl⟩

end GdbStub
