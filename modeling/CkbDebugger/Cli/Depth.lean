import CkbDebugger.Cli.Spawn

/-!
# The n-th exec or spawn

What a program does, seen as a tree of processes: a process runs until it starts another one by an
exec or a spawn, or exits to its caller. Execs and spawns that start a process are the events of the
tree, numbered as they happen. `machine_sget` counts them to find the process to be debugged.
-/
namespace Cli

open CkbVm (Vm Decoder Error A7)

section Machine

variable {M S : Type} (vm : Vm M) (host : Host M S)

/-! ### The tree -/

/-- The running process and those that wait for it. -/
structure Tree (M S : Type) where
  machine : M
  decoder : Decoder
  processes : List (Process M S)

/-- What happens next. The tree ends with the exit of its first process, with an instruction that
fails, or with a caller that cannot be resumed. -/
inductive Move (M S : Type) where
  | step (next : Tree M S)
  | event (next : Tree M S)
  | resume (next : Tree M S)
  | ended
  | failed (e : Error)
  | unresumed (e : Error)

/-- The machine with the cycles that are left to a spawn, so that the child is seen at its start. -/
def Host.limit (m : M) : M := host.setCycles (host.maxCycles m - 500) m

/-- An exec that starts no program leaves the reset signal down. -/
def Tree.exec (t : Tree M S) (d : Decoder) : Move M S :=
  match vm.step t.machine d with
  | (.error e, _, _) => .failed e
  | (.ok (), m, d) =>
    if (vm.resetSignal m).1 then
      .event { t with machine := (vm.resetSignal m).2, decoder := d.resetInstructionsCache }
    else .step { t with machine := (vm.resetSignal m).2, decoder := d }

/-- A spawn starts the process that it leaves suspended, and waits for it. -/
def Tree.spawn (t : Tree M S) (d : Decoder) : Move M S :=
  let (_, stepped, d) := vm.step (host.limit t.machine) d
  let caller := host.setCycles (host.cycles t.machine + 500) stepped
  match host.suspends (host.limit t.machine) with
  | .spawn child data :: _ =>
    .event {
      machine := host.setMaxCycles (host.cycles (host.limit t.machine) - host.cycles t.machine) child
      decoder := d.resetInstructionsCache
      processes := spawnInto t.processes (some (caller, data)) }
  | _ => .step { t with machine := caller, decoder := d }

/-- A process that has exited gives its exit code to its caller, which goes on with the data of the
spawn that made the process. -/
def Tree.exit (t : Tree M S) : Move M S :=
  match t.processes with
  | [] => .ended
  | process :: above =>
    match host.updateCallerMachine process.caller (vm.exitCode t.machine) 0 process.data with
    | (.ok (), caller) =>
      .resume { machine := caller, decoder := t.decoder.resetInstructionsCache, processes := above }
    | (.error e, _) => .unresumed e

def Tree.next (t : Tree M S) : Move M S :=
  if vm.running t.machine then
    match t.decoder.decode vm t.machine with
    | (.error e, _) => .failed e
    | (.ok inst, d) =>
      if inst.opcode = .ecall ∧ vm.registers t.machine A7 = execSyscall then t.exec vm d
      else if inst.opcode = .ecall ∧ vm.registers t.machine A7 = spawnSyscall then t.spawn vm host d
      else
        match vm.step t.machine d with
        | (.error e, _, _) => .failed e
        | (.ok (), m, d) => .step { t with machine := m, decoder := d }
  else t.exit vm host

/-- The first process before its first instruction. -/
def Tree.root (machine : M) : Tree M S := ⟨machine, .build, []⟩

/-- The states of the tree, with the number of events so far. -/
inductive Tree.Reached (start : Tree M S) : Tree M S → Nat → Prop where
  | start : Reached start start 0
  | step {t next : Tree M S} {events : Nat} (reached : Reached start t events)
      (went : t.next vm host = .step next) : Reached start next events
  | event {t next : Tree M S} {events : Nat} (reached : Reached start t events)
      (went : t.next vm host = .event next) : Reached start next (events + 1)
  | resume {t next : Tree M S} {events : Nat} (reached : Reached start t events)
      (went : t.next vm host = .resume next) : Reached start next events

/-- The n-th event starts a process. Nothing has to happen for the first one of all. -/
def Tree.StartedBy (start : Tree M S) : Nat → Tree M S → Prop
  | 0, t => t = start
  | events + 1, t => ∃ before, Tree.Reached vm host start before events ∧ before.next vm host = .event t

/-! ### What `machine_sget` follows -/

/-- The instruction is the syscall with the given number; `d` is the decoder that has it. -/
def Tree.Calls (t : Tree M S) (number : UInt64) (d : Decoder) : Prop :=
  ∃ inst, t.decoder.decode vm t.machine = (.ok inst, d) ∧ inst.opcode = .ecall ∧
    vm.registers t.machine A7 = number

/-- Every exec and every spawn starts a process that runs, a spawn leaves that process suspended and
nothing else, and a process exits to its caller with 0 and with no other data below it than its own. -/
structure Tree.Followed (t : Tree M S) : Prop where
  execs : ∀ d m d', t.Calls vm execSyscall d → vm.step t.machine d = (.ok (), m, d') →
    (vm.resetSignal m).1 = true
  spawns : ∀ d, t.Calls vm spawnSyscall d →
    ∃ child data, host.suspends (host.limit t.machine) = [.spawn child data]
  starts : ∀ next, t.next vm host = .event next → vm.running next.machine = true
  exits : vm.running t.machine = false → ∀ process above, t.processes = process :: above →
    vm.exitCode t.machine = 0 ∧ ∀ data, process.lastBelow = some data → data = process.data

/-- The variables of the loop for a tree: the processes, and the events that are still to come. -/
structure Follows (specify : Nat) (t : Tree M S) (events : Nat) (s : Sget M S) : Prop where
  machine : s.machine = t.machine
  tree : TreeOf s t.processes
  count : s.specify + events = specify

/-- In the inner loop. -/
structure Inner (specify : Nat) (t : Tree M S) (events : Nat) (s : Sget M S) : Prop
    extends Follows specify t events s where
  inner : s.inner = true
  decoder : s.decoder = t.decoder

/-- Between two rounds of the outer loop, which resets the decoder. -/
structure Outer (specify : Nat) (t : Tree M S) (events : Nat) (s : Sget M S) : Prop
    extends Follows specify t events s where
  inner : s.inner = false
  decoder : s.decoder.resetInstructionsCache = t.decoder

/-- The round that goes with a move. -/
def RoundOf (specify events : Nat) : Move M S → Loop.Round (Sget M S) (Option (Except Error M)) → Prop
  | .step next, round => ∃ s, round = .again s ∧ Inner specify next events s
  | .event next, round => ∃ s, round = .again s ∧ Outer specify next (events + 1) s
  | .resume next, round => ∃ s, round = .again s ∧ Outer specify next events s
  | .ended, round => round = .leave none
  | .unresumed _, round => round = .leave none
  | .failed e, round => round = .leave (some (.error e))

variable {vm host} {specify events : Nat} {t : Tree M S} {s : Sget M S}

theorem afterInner_of_running (running : vm.running s.machine = true) :
    s.afterInner vm host = .again { s with inner := false } := by
  rw [afterInner_eq, if_pos running]

theorem round_exit (here : Inner specify t events s) (followed : t.Followed vm host)
    (exited : vm.running t.machine = false) :
    RoundOf specify events (t.exit vm host) (s.afterInner vm host) := by
  have stopped : ¬ vm.running s.machine = true := by simp [here.machine, exited]
  unfold Tree.exit Sget.afterInner
  rw [if_neg stopped, here.tree.callers]
  rcases processes : t.processes with _ | ⟨process, above⟩
  · rfl
  · -- the variable holds the data of the process, since nothing else was spawned below it
    obtain ⟨code, own⟩ := followed.exits exited process above processes
    have latest := here.tree.latest process (processes ▸ List.mem_cons_self)
    have data : process.lastBelow.getD process.data = process.data := by
      rcases below : process.lastBelow with _ | last
      · rfl
      · exact own last below
    rw [data] at latest
    simp only [List.map_cons, latest, code]
    rcases updated : host.updateCallerMachine process.caller 0 0 process.data with ⟨result, caller⟩
    cases result with
    | error e => rfl
    | ok _ =>
      refine ⟨_, rfl, ⟨rfl, ⟨rfl, ?_⟩, here.count⟩, rfl, ?_⟩
      · intro other member
        exact latest.symm.trans (here.tree.latest other (processes ▸ List.mem_cons_of_mem _ member))
      · rw [here.decoder]

theorem round_exec (here : Inner specify t events s) (followed : t.Followed vm host) (left : events < specify)
    {d : Decoder} (calls : t.Calls vm execSyscall d) (next : t.next vm host = t.exec vm d) :
    RoundOf specify events (t.exec vm d) (s.onExec vm host d) := by
  have starts := followed.starts
  rw [next] at starts
  unfold Sget.onExec
  unfold Tree.exec at starts ⊢
  rw [here.machine]
  rcases stepped : vm.step t.machine d with ⟨result, m, d'⟩
  cases result with
  | error e => rfl
  | ok _ =>
    have signal := followed.execs d m d' calls stepped
    simp only [stepped, signal, if_true, Move.event.injEq, forall_eq'] at starts ⊢
    rw [afterInner_of_running (by simpa [CkbVm.refresh] using starts)]
    refine ⟨_, rfl, ⟨rfl, ⟨here.tree.callers, here.tree.latest⟩, ?_⟩, rfl, ?_⟩
    · have count := here.count
      simp only
      omega
    · simp only [CkbVm.refresh, signal, if_true]
      rfl

theorem round_spawn (here : Inner specify t events s) (followed : t.Followed vm host) (left : events < specify)
    {d : Decoder} (calls : t.Calls vm spawnSyscall d) (next : t.next vm host = t.spawn vm host d) :
    RoundOf specify events (t.spawn vm host d) (s.onSpawn vm host d) := by
  have starts := followed.starts
  rw [next] at starts
  obtain ⟨child, data, suspended⟩ := followed.spawns d calls
  unfold Tree.spawn at starts ⊢
  simp only [suspended, Move.event.injEq, forall_eq'] at starts ⊢
  -- the child is what the loop takes from the context
  unfold Sget.onSpawn
  rw [here.machine]
  rw [Host.limit] at suspended starts ⊢
  simp only [suspended, List.cons_append]
  rw [afterInner_of_running starts]
  refine ⟨_, rfl, ⟨rfl, ?_, ?_⟩, rfl, rfl⟩
  · simp only
    apply here.tree.spawnInto
    exact ⟨rfl, rfl⟩
  · have count := here.count
    simp only
    omega

/-- Every move of the tree is a round of the inner loop. -/
theorem round_of_inner (here : Inner specify t events s) (followed : t.Followed vm host)
    (left : events < specify) : RoundOf specify events (t.next vm host) (sgetRound vm host s) := by
  unfold sgetRound
  rw [if_pos here.inner, here.machine]
  rcases alive : vm.running t.machine with _ | _
  · have next : t.next vm host = t.exit vm host := by simp [Tree.next, alive]
    rw [next, if_neg Bool.false_ne_true]
    exact round_exit here followed alive
  · rw [if_pos rfl, here.decoder]
    rcases decoded : t.decoder.decode vm t.machine with ⟨result, d⟩
    cases result with
    | error e =>
      have next : t.next vm host = .failed e := by simp [Tree.next, alive, decoded]
      rw [next]
      rfl
    | ok inst =>
      simp only
      by_cases exec : inst.opcode = .ecall ∧ vm.registers t.machine A7 = execSyscall
      · have next : t.next vm host = t.exec vm d := by simp [Tree.next, alive, decoded, exec]
        rw [if_pos exec, next]
        exact round_exec here followed left ⟨inst, decoded, exec⟩ next
      · by_cases spawn : inst.opcode = .ecall ∧ vm.registers t.machine A7 = spawnSyscall
        · have next : t.next vm host = t.spawn vm host d := by
            simp only [Tree.next, alive, decoded, if_true, if_neg exec, if_pos spawn]
          rw [if_neg exec, if_pos spawn, next]
          exact round_spawn here followed left ⟨inst, decoded, spawn⟩ next
        · simp only [Tree.next, alive, decoded, if_true, if_neg exec, if_neg spawn]
          rcases vm.step t.machine d with ⟨result, m, d'⟩
          cases result with
          | error e => rfl
          | ok _ => exact ⟨_, rfl, ⟨rfl, ⟨here.tree.callers, here.tree.latest⟩, here.count⟩, here.inner, rfl⟩

/-- The outer loop enters the inner one while there are events to come. -/
theorem round_of_outer (here : Outer specify t events s) (left : events < specify) :
    ∃ next, sgetRound vm host s = .again next ∧ Inner specify t events next := by
  have more : s.specify ≠ 0 := by
    have count := here.count
    omega
  refine ⟨{ s with decoder := s.decoder.resetInstructionsCache, inner := true }, ?_, ?_⟩
  · simp [sgetRound, here.inner, more]
  · exact ⟨⟨here.machine, ⟨here.tree.callers, here.tree.latest⟩, here.count⟩, rfl, here.decoder⟩

/-- The outer loop returns the process once there are none. -/
theorem round_of_last (here : Outer specify t specify s) :
    sgetRound vm host s = .leave (some (.ok t.machine)) := by
  have last : s.specify = 0 := by
    have count := here.count
    omega
  simp [sgetRound, here.inner, last, here.machine]

/-! ### Runs -/

variable (vm host)

/-- A tree that ends here. -/
def Tree.Ends (t : Tree M S) : Prop :=
  t.next vm host = .ended ∨ (∃ e, t.next vm host = .failed e) ∨ ∃ e, t.next vm host = .unresumed e

/-- The loop returns the process that the n-th event starts, before that has run to its end. If the
tree ends with fewer events, it returns without a panic. -/
structure Selects (machine : M) (specify : Nat) (suspended : List (ResumableMachine M S)) : Prop where
  returned : ∀ t, Tree.StartedBy vm host (.root machine) specify t →
    ∃ rounds, Loop.run (sgetRound vm host) rounds (.start machine specify suspended) = some (some (.ok t.machine))
  alive : 0 < specify → ∀ t, Tree.StartedBy vm host (.root machine) specify t → vm.running t.machine = true
  noPanic : ∀ t events, Tree.Reached vm host (.root machine) t events → events < specify → t.Ends vm host →
    ∃ rounds result, Loop.run (sgetRound vm host) rounds (.start machine specify suspended) = some (some result)

/-- In all states before the n-th event. -/
def AllBefore (machine : M) (specify : Nat) (P : Tree M S → Prop) : Prop :=
  ∀ t events, Tree.Reached vm host (.root machine) t events → events < specify → P t

variable {vm host} {machine : M} (suspended : List (ResumableMachine M S))

theorem outer_start : Outer specify (.root machine) 0 (.start machine specify suspended) :=
  ⟨⟨rfl, ⟨rfl, fun _ member => absurd member List.not_mem_nil⟩, rfl⟩, rfl, rfl⟩

/-- Up to the n-th event the loop is where the tree is. -/
theorem reaches_inner (followed : AllBefore vm host machine specify (Tree.Followed vm host))
    (reached : Tree.Reached vm host (.root machine) t events) (left : events < specify) :
    ∃ s, Loop.Reaches (sgetRound vm host) (.start machine specify suspended) s ∧ Inner specify t events s := by
  -- from between two rounds of the outer loop
  have enter {t : Tree M S} {events : Nat} {s : Sget M S} (left : events < specify)
      (before : Loop.Reaches (sgetRound vm host) (.start machine specify suspended) s)
      (here : Outer specify t events s) :
      ∃ s, Loop.Reaches (sgetRound vm host) (.start machine specify suspended) s ∧ Inner specify t events s := by
    obtain ⟨next, went, inner⟩ := round_of_outer here left
    exact ⟨next, .again before went, inner⟩
  induction reached with
  | start => exact enter left .start (outer_start suspended)
  | @step before next events reached went ih =>
    obtain ⟨s, reaches, here⟩ := ih left
    have round := round_of_inner here (followed _ _ reached left) left
    rw [went] at round
    obtain ⟨s', again, inner⟩ := round
    exact ⟨s', .again reaches again, inner⟩
  | @event before next events reached went ih =>
    have earlier : events < specify := by omega
    obtain ⟨s, reaches, here⟩ := ih earlier
    have round := round_of_inner here (followed _ _ reached earlier) earlier
    rw [went] at round
    obtain ⟨s', again, outer⟩ := round
    exact enter left (.again reaches again) outer
  | @resume before next events reached went ih =>
    obtain ⟨s, reaches, here⟩ := ih left
    have round := round_of_inner here (followed _ _ reached left) left
    rw [went] at round
    obtain ⟨s', again, outer⟩ := round
    exact enter left (.again reaches again) outer

/-- The round that it is in goes with the move of the tree. -/
theorem reaches_move (followed : AllBefore vm host machine specify (Tree.Followed vm host))
    (reached : Tree.Reached vm host (.root machine) t events) (left : events < specify) :
    ∃ s, Loop.Reaches (sgetRound vm host) (.start machine specify suspended) s ∧
      RoundOf specify events (t.next vm host) (sgetRound vm host s) := by
  obtain ⟨s, reaches, here⟩ := reaches_inner suspended followed reached left
  exact ⟨s, reaches, round_of_inner here (followed _ _ reached left) left⟩

theorem reaches_started (followed : AllBefore vm host machine specify (Tree.Followed vm host))
    (started : Tree.StartedBy vm host (.root machine) specify t) :
    ∃ s, Loop.Reaches (sgetRound vm host) (.start machine specify suspended) s ∧ Outer specify t specify s := by
  cases specify with
  | zero =>
    obtain rfl : t = .root machine := started
    exact ⟨_, .start, outer_start suspended⟩
  | succ events =>
    obtain ⟨before, reached, went⟩ := started
    obtain ⟨s, reaches, round⟩ := reaches_move suspended followed reached (Nat.lt_succ_self events)
    rw [went] at round
    obtain ⟨s', again, outer⟩ := round
    exact ⟨s', .again reaches again, outer⟩

/-- A run that has a result has no other. -/
theorem no_panic_of_leave {s : Sget M S}
    (reaches : Loop.Reaches (sgetRound vm host) (.start machine specify suspended) s)
    (left : sgetRound vm host s = .leave none) {rounds : Nat} {result : Except Error M} :
    Loop.run (sgetRound vm host) rounds (.start machine specify suspended) ≠ some (some result) := by
  intro ran
  obtain ⟨other, panicked⟩ := (Loop.exists_run_iff _ none).mpr ⟨s, reaches, left⟩
  cases (Loop.run_unique ran panicked).1

/-- If every step up to the n-th event can be followed, `machine_sget` finds the process if and only
if on the way the first process does not exit and every caller can be resumed. -/
theorem selects_iff (vm : Vm M) (host : Host M S) (machine : M) (specify : Nat)
    (suspended : List (ResumableMachine M S))
    (followed : AllBefore vm host machine specify (Tree.Followed vm host)) :
    Selects vm host machine specify suspended ↔
      AllBefore vm host machine specify fun t =>
        t.next vm host ≠ .ended ∧ ∀ e, t.next vm host ≠ .unresumed e := by
  constructor
  · intro selects t events reached left
    obtain ⟨s, reaches, round⟩ := reaches_move suspended followed reached left
    constructor
    · intro ended
      rw [ended] at round
      obtain ⟨rounds, result, ran⟩ := selects.noPanic t events reached left (.inl ended)
      exact no_panic_of_leave suspended reaches round ran
    · intro e unresumed
      rw [unresumed] at round
      obtain ⟨rounds, result, ran⟩ := selects.noPanic t events reached left (.inr (.inr ⟨e, unresumed⟩))
      exact no_panic_of_leave suspended reaches round ran
  · intro goes
    refine ⟨?returned, ?alive, ?noPanic⟩
    case returned =>
      intro t started
      obtain ⟨s, reaches, outer⟩ := reaches_started suspended followed started
      exact (Loop.exists_run_iff _ _).mpr ⟨s, reaches, round_of_last outer⟩
    case alive =>
      intro positive t started
      obtain ⟨events, rfl⟩ := Nat.exists_eq_succ_of_ne_zero (Nat.pos_iff_ne_zero.mp positive)
      obtain ⟨before, reached, went⟩ := started
      exact (followed before events reached (Nat.lt_succ_self events)).starts t went
    case noPanic =>
      rintro t events reached left (ended | ⟨e, failed⟩ | ⟨e, unresumed⟩)
      · exact absurd ended (goes t events reached left).1
      · -- the error of the instruction is that of the loop
        obtain ⟨s, reaches, round⟩ := reaches_move suspended followed reached left
        rw [failed] at round
        obtain ⟨rounds, ran⟩ := (Loop.exists_run_iff _ _).mpr ⟨s, reaches, round⟩
        exact ⟨rounds, .error e, ran⟩
      · exact absurd unresumed ((goes t events reached left).2 e)

end Machine

/-! ### A spawn, an exit and an exec -/

/-- A (0) is at a spawn, B (1) at a syscall with which it exits (2). A goes on (3) with an exec of
E (4). -/
def errand : Vm Nat where
  pc := fun _ => 0x1000
  registers := fun m _ => if m = 0 then spawnSyscall else if m = 3 then execSyscall else 93
  isa := fun _ => 0
  version := fun _ => 2
  running := fun m => decide (m ≠ 2)
  setRunning := fun _ m => m
  exitCode := fun _ => 0
  resetSignal := fun m => (decide (m = 4), m)
  load8 := fun _ _ => .ok 0
  instructionCycleFunc := fun _ => 1
  addCycles := fun _ m => (.ok (), m)
  fetch := fun _ _ => .ok ⟨.ecall, 4, 0, CkbVm.ZERO, 0x73⟩
  execute := fun _ m => (.ok (), if m = 1 then 2 else if m = 3 then 4 else m)
  slot := UInt64.toNat
  execs := fun _ => 0

def errandHost : Host Nat String where
  cycles := fun _ => 0
  maxCycles := fun _ => 1000000
  setCycles := fun _ m => m
  setMaxCycles := fun _ m => m
  suspends := fun m => if m = 0 then [.spawn 1 "B"] else []
  updateCallerMachine := fun m _ _ _ => (.ok (), m + 3)

/-- The states up to the exec: A spawns B, B exits, and A goes on. -/
structure Errand (b exited resumed e : Tree Nat String) : Prop where
  spawns : (Tree.root 0).next errand errandHost = .event b
  exits : b.next errand errandHost = .step exited
  resumes : exited.next errand errandHost = .resume resumed
  execs : resumed.next errand errandHost = .event e
  machines : b.machine = 1 ∧ exited.machine = 2 ∧ resumed.machine = 3 ∧ e.machine = 4
  processes : b.processes = [⟨0, "B", none⟩] ∧ exited.processes = [⟨0, "B", none⟩] ∧ resumed.processes = []

theorem exists_errand : ∃ b exited resumed e, Errand b exited resumed e :=
  ⟨_, _, _, _, rfl, rfl, rfl, rfl, ⟨rfl, rfl, rfl, rfl⟩, rfl, rfl, rfl⟩

theorem Errand.reached {b exited resumed e : Tree Nat String} (run : Errand b exited resumed e)
    {t : Tree Nat String} {events : Nat} (reached : Tree.Reached errand errandHost (.root 0) t events) :
    t = .root 0 ∧ events = 0 ∨ (t = b ∨ t = exited ∨ t = resumed) ∧ events = 1 ∨ 2 ≤ events := by
  obtain ⟨spawns, exits, resumes, execs, -, -⟩ := run
  induction reached with
  | start => exact .inl ⟨rfl, rfl⟩
  | step _ went ih =>
    rcases ih with ⟨rfl, rfl⟩ | ⟨rfl | rfl | rfl, rfl⟩ | later
    all_goals simp_all
  | event _ went ih =>
    rcases ih with ⟨rfl, rfl⟩ | ⟨rfl | rfl | rfl, rfl⟩ | later
    all_goals simp_all
    omega
  | resume _ went ih =>
    rcases ih with ⟨rfl, rfl⟩ | ⟨rfl | rfl | rfl, rfl⟩ | later
    all_goals simp_all

theorem errand_step {m m' : Nat} {d d' : Decoder} (stepped : errand.step m d = (.ok (), m', d')) :
    m' = if m = 1 then 2 else if m = 3 then 4 else m := by
  unfold Vm.step at stepped
  rcases decoded : d.decode errand m with ⟨_ | inst, decoder⟩
  · rw [decoded] at stepped
    cases stepped
  · rw [decoded] at stepped
    exact (congrArg (fun result => result.2.1) stepped).symm

/-- Every state can be followed whose process is started while it runs, and exits with nothing else
spawned below it. -/
theorem errand_followed {t : Tree Nat String}
    (starts : ∀ next, t.next errand errandHost = .event next → next.machine ≠ 2)
    (exits : ∀ process above, t.processes = process :: above → process.lastBelow = none) :
    t.Followed errand errandHost where
  execs := by
    rintro d m d' ⟨inst, -, -, number⟩ stepped
    have exec : t.machine = 3 := by
      by_contra other
      simp only [errand, if_neg other] at number
      split at number <;> exact absurd number (by decide)
    rw [errand_step stepped, exec]
    rfl
  spawns := by
    rintro d ⟨inst, -, -, number⟩
    have spawn : t.machine = 0 := by
      by_contra other
      simp only [errand, if_neg other] at number
      split at number <;> exact absurd number (by decide)
    exact ⟨1, "B", if_pos spawn⟩
  starts := fun next went => decide_eq_true (starts next went)
  exits := by
    intro _ process above processes
    refine ⟨rfl, fun data below => ?_⟩
    rw [exits process above processes] at below
    cases below

theorem Errand.followed {b exited resumed e : Tree Nat String} (run : Errand b exited resumed e) :
    AllBefore errand errandHost 0 2 (Tree.Followed errand errandHost) := by
  intro t events reached left
  obtain ⟨isB, -, -, isE⟩ := run.machines
  obtain ⟨ofB, ofExited, ofResumed⟩ := run.processes
  rcases run.reached reached with ⟨rfl, -⟩ | ⟨rfl | rfl | rfl, -⟩ | late
  · exact errand_followed (by simp [run.spawns, isB]) (by simp [Tree.root])
  · exact errand_followed (by simp [run.exits]) (by simp [ofB])
  · exact errand_followed (by simp [run.resumes]) (by simp [ofExited])
  · exact errand_followed (by simp [run.execs, isE]) (by simp [ofResumed])
  · omega

/-- The second event is the exec, whose program is returned. -/
theorem exec_after_spawn_selected :
    ∃ rounds, Loop.run (sgetRound errand errandHost) rounds (.start 0 2 []) = some (some (.ok 4)) := by
  obtain ⟨b, exited, resumed, e, run⟩ := exists_errand
  have goes : AllBefore errand errandHost 0 2 fun t =>
      t.next errand errandHost ≠ .ended ∧ ∀ error, t.next errand errandHost ≠ .unresumed error := by
    intro t events reached left
    rcases run.reached reached with ⟨rfl, -⟩ | ⟨rfl | rfl | rfl, -⟩ | late
    · simp [run.spawns]
    · simp [run.exits]
    · simp [run.resumes]
    · simp [run.execs]
    · omega
  have selects := (selects_iff errand errandHost 0 2 [] run.followed).mpr goes
  rw [← run.machines.2.2.2]
  exact selects.returned e ⟨resumed, .resume (.step (.event .start run.spawns) run.exits) run.resumes, run.execs⟩

/-- B by itself exits without an exec or a spawn, and there is no caller to go on with. -/
theorem early_exit_panics : ¬ Selects errand errandHost 1 1 ([] : List (ResumableMachine Nat String)) := by
  intro selects
  obtain ⟨exited, exits, ended⟩ : ∃ exited : Tree Nat String,
      (Tree.root 1).next errand errandHost = .step exited ∧ exited.next errand errandHost = .ended :=
    ⟨_, rfl, rfl⟩
  obtain ⟨rounds, result, ran⟩ :=
    selects.noPanic exited 0 (.step .start exits) Nat.zero_lt_one (.inl ended)
  have panicked : Loop.run (sgetRound errand errandHost) 3 (.start 1 1 []) = some none := rfl
  cases (Loop.run_unique ran panicked).1

end Cli
