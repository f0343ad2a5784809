import Mathlib.Data.List.Basic
import CkbDebugger.GdbServer.Watchpoint

/-!
# Resuming the program

`vcont` with an action that continues or steps through a range executes one instruction and then
loops. Where the loop stops, what is left of the target when it returns an error, and what it does
to a program that has exited.
-/
namespace GdbServer

open CkbVm (Vm Decoder Error Instruction)
open GdbRemote (Watchpoint VCont ThreadId StopReason HandlerError)

/-- The actions that loop, with their test of the program counter. -/
def loopRange : VCont → Option (UInt64 → Bool)
  | .continue => some fun _ => true
  | .rangeStep start stop => some fun pc => start ≤ pc ∧ pc < stop
  | _ => none

section Machine

variable {M : Type} (vm : Vm M)

theorem vcont_of_loopRange {action : VCont} {inRange : UInt64 → Bool} (loops : loopRange action = some inRange)
    (rounds : Nat) (h : Handler M) (thread : Option ThreadId) (others : List (VCont × Option ThreadId)) :
    h.vcont vm rounds ((action, thread) :: others) = (vcontLoop vm inRange rounds h).map some := by
  cases action <;> cases loops <;> rfl

/-- The loop is not left before the watchpoints are looked at. -/
def entersRound (inRange : UInt64 → Bool) (h : Handler M) : Bool :=
  inRange (vm.pc h.machine) && !h.atBreakpoint vm && vm.running h.machine

/-! ### The first stopping point -/

/-- A number of steps from a machine, with the result of the last one. Nothing is executed
after a step that fails. -/
def stepsFrom (m : M) : Nat → Except Error Unit × M × Decoder
  | 0 => (.ok (), m, .build)
  | k + 1 =>
    match stepsFrom m k with
    | (.ok (), m, d) => stepOn vm m d
    | (.error e, m, d) => (.error e, m, d)

/-- The handler with its machine after a number of steps. -/
def Handler.stepped (h : Handler M) (k : Nat) : Handler M :=
  { h with machine := (stepsFrom vm h.machine k).2.1 }

/-- After `k` steps there is a reason to stop: the last one has failed, or the program counter is
at a breakpoint, or the machine has stopped, or the range is left. -/
def StopsAfter (inRange : UInt64 → Bool) (h : Handler M) (k : Nat) : Prop :=
  (∃ e, (stepsFrom vm h.machine k).1 = .error e) ∨ (h.stepped vm k).atBreakpoint vm = true ∨
    vm.running (h.stepped vm k).machine = false ∨ inRange (vm.pc (h.stepped vm k).machine) = false

/-- The reply after a number of steps. -/
def replyAfter (m : M) (k : Nat) : StopReason :=
  match stepsFrom vm m k with
  | (.error _, _, _) => .signal 5
  | (.ok (), m, _) => if vm.running m then .signal 5 else .exited 0 (vm.exitCode m).toUInt8

/-- The machines and decoders on which a resume calls `step`, one after the other. -/
def Handler.stepCalls (inRange : UInt64 → Bool) (rounds : Nat) (h : Handler M) : List (M × Decoder) :=
  (h.machine, .build) ::
    match stepOn vm h.machine .build with
    | (.error _, _, _) => []
    | (.ok (), m, d) =>
      ((Loop.states (vcontRound vm inRange) rounds ({ h with machine := m }, d)).filter fun s =>
        entersRound vm inRange s.1 && (atWatchpoint vm s.1.machine s.1.watchpoints).1 == .ok false).map
        fun s => (s.1.machine, s.2)

/-- Without watchpoints a round steps, or it leaves. -/
theorem vcontRound_unwatched (inRange : UInt64 → Bool) {h : Handler M} (d : Decoder)
    (unwatched : h.watchpoints = []) :
    vcontRound vm inRange (h, d) =
      if entersRound vm inRange h then
        match stepOn vm h.machine d with
        | (.error _, m, _) => .leave (.ok (.signal 5), { h with machine := m })
        | (.ok (), m, d) => .again ({ h with machine := m }, d)
      else .leave (.ok (stopReason vm h.machine), h) := by
  obtain ⟨machine, breakpoints, watchpoints⟩ := h
  obtain rfl : watchpoints = [] := unwatched
  rfl

theorem stepsFrom_succ {m m' : M} {d : Decoder} {k : Nat} (before : stepsFrom vm m k = (.ok (), m', d)) :
    stepsFrom vm m (k + 1) = stepOn vm m' d := by
  rw [stepsFrom, before]

/-- The tests of the loop after a number of steps that have succeeded. -/
theorem stopsAfter_iff {inRange : UInt64 → Bool} {h : Handler M} {k : Nat} {m : M} {d : Decoder}
    (ok : stepsFrom vm h.machine k = (.ok (), m, d)) :
    StopsAfter vm inRange h k ↔ entersRound vm inRange { h with machine := m } = false := by
  simp only [StopsAfter, Handler.stepped, ok, reduceCtorEq, exists_false, false_or, entersRound]
  cases inRange (vm.pc m) <;> cases vm.running m <;>
    cases Handler.atBreakpoint vm { h with machine := m } <;> simp

section Unwatched

variable {inRange : UInt64 → Bool} {h : Handler M} {k : Nat} (unwatched : h.watchpoints = [])
  (stops : StopsAfter vm inRange h k) (first : ∀ j, 1 ≤ j → j < k → ¬StopsAfter vm inRange h j)

include unwatched stops first

/-- From the state after `j` steps on, the loop makes the steps up to the `k`-th one. -/
theorem loop_stops_first (left j : Nat) (sum : j + left = k) (positive : 1 ≤ j) {m : M} {d : Decoder}
    (ok : stepsFrom vm h.machine j = (.ok (), m, d)) (rounds : Nat) (enough : left < rounds) :
    Loop.run (vcontRound vm inRange) rounds ({ h with machine := m }, d) =
        some (.ok (replyAfter vm h.machine k), h.stepped vm k) ∧
      ((Loop.states (vcontRound vm inRange) rounds ({ h with machine := m }, d)).filter fun s =>
        entersRound vm inRange s.1 && (atWatchpoint vm s.1.machine s.1.watchpoints).1 == .ok false).map
          (fun s => (s.1.machine, s.2)) =
        (List.range left).map fun i => (stepsFrom vm h.machine (j + i)).2 := by
  have round := vcontRound_unwatched vm inRange (h := { h with machine := m }) d unwatched
  have unchanged : ∀ m, (atWatchpoint vm m h.watchpoints).1 = .ok false := by
    intro m
    rw [unwatched]
    rfl
  -- on the number of steps that are left
  induction left generalizing j m d rounds with
  | zero =>
    obtain rfl : j = k := by omega
    obtain ⟨rounds, rfl⟩ : ∃ more, rounds = more + 1 := ⟨rounds - 1, by omega⟩
    have leaves := (stopsAfter_iff vm ok).mp stops
    rw [if_neg (by simp [leaves])] at round
    simp only [Loop.run, Loop.states, round, List.filter_cons, leaves, Bool.false_and, Bool.false_eq_true,
      if_false, List.filter_nil, List.map_nil, List.range_zero, replyAfter, Handler.stepped, ok, stopReason,
      and_self]
  | succ left ih =>
    obtain ⟨rounds, rfl⟩ : ∃ more, rounds = more + 1 := ⟨rounds - 1, by omega⟩
    have enters : entersRound vm inRange { h with machine := m } = true := by
      have goes := (stopsAfter_iff vm ok).not.mp (first j positive (by omega))
      simpa using goes
    rw [if_pos enters] at round
    have next := stepsFrom_succ vm ok
    simp only [Loop.run, Loop.states, round, List.filter_cons, enters, unchanged, List.range_succ_eq_map,
      List.map_cons, List.map_map]
    rcases stepped : stepOn vm m d with ⟨result, m', d'⟩
    rw [stepped] at next
    cases result with
    | error e =>
      -- a step that fails is a stopping point, so it is the last one
      have last : j + 1 = k := by
        by_contra other
        exact first (j + 1) (by omega) (by omega) (.inl ⟨e, by rw [next]⟩)
      obtain rfl : left = 0 := by omega
      subst last
      simp [replyAfter, Handler.stepped, next, ok]
    | ok _ =>
      have rest := ih (j + 1) (by omega) (by omega) next rounds (by omega)
        (vcontRound_unwatched vm inRange (h := { h with machine := m' }) d' unwatched)
      simp only [rest.1, true_and]
      simp only [beq_self_eq_true, Bool.and_self, if_true, List.map_cons, rest.2, ok, Nat.add_zero]
      congr 1
      apply List.map_congr_left
      intro i _
      simp only [Function.comp_apply, Nat.succ_eq_add_one, Nat.add_assoc, Nat.add_comm 1 i]

end Unwatched

/-- A resume without watchpoints makes exactly the steps up to the first stopping point, and replies
with a trap if the last one has failed or the machine still runs, and otherwise with the exit. -/
theorem resume_stops_first {action : VCont} {inRange : UInt64 → Bool} (loops : loopRange action = some inRange)
    (h : Handler M) (unwatched : h.watchpoints = []) (thread : Option ThreadId)
    (others : List (VCont × Option ThreadId)) (k : Nat) (positive : 1 ≤ k)
    (stops : StopsAfter vm inRange h k) (first : ∀ j, 1 ≤ j → j < k → ¬StopsAfter vm inRange h j)
    (rounds : Nat) (enough : k ≤ rounds) :
    h.vcont vm rounds ((action, thread) :: others) =
        some (some (.ok (replyAfter vm h.machine k), h.stepped vm k)) ∧
      h.stepCalls vm inRange rounds = (List.range k).map fun j => (stepsFrom vm h.machine j).2 := by
  obtain ⟨left, rfl⟩ : ∃ left, k = left + 1 := ⟨k - 1, by omega⟩
  rw [vcont_of_loopRange vm loops, vcontLoop, Handler.stepCalls, List.range_succ_eq_map]
  have one := stepsFrom_succ vm (m := h.machine) (k := 0) rfl
  rcases stepped : stepOn vm h.machine .build with ⟨result, m, d⟩
  rw [stepped] at one
  cases result with
  | error e =>
    have last : left = 0 := by
      by_contra other
      exact first 1 (by omega) (by omega) (.inl ⟨e, by rw [one]⟩)
    subst last
    simp [replyAfter, Handler.stepped, stepsFrom, stepped]
  | ok _ =>
    obtain ⟨ran, calls⟩ := loop_stops_first vm unwatched stops first left 1 (by omega) (by omega) one rounds
      (by omega)
    refine ⟨by simp only [ran, Option.map_some], ?_⟩
    simp only [calls, List.map_cons, List.map_map, stepsFrom]
    congr 1
    apply List.map_congr_left
    intro i _
    simp only [Function.comp_apply, Nat.succ_eq_add_one, Nat.add_comm 1 i]

/-! ### A program that has exited -/

/-- A machine that counts the instructions that it executes. -/
def counting : Vm (M × Nat) where
  pc := fun m => vm.pc m.1
  registers := fun m => vm.registers m.1
  isa := fun m => vm.isa m.1
  version := fun m => vm.version m.1
  running := fun m => vm.running m.1
  setRunning := fun running m => (vm.setRunning running m.1, m.2)
  exitCode := fun m => vm.exitCode m.1
  resetSignal := fun m => ((vm.resetSignal m.1).1, (vm.resetSignal m.1).2, m.2)
  load8 := fun m => vm.load8 m.1
  instructionCycleFunc := vm.instructionCycleFunc
  addCycles := fun cycles m => ((vm.addCycles cycles m.1).1, (vm.addCycles cycles m.1).2, m.2)
  fetch := fun m => vm.fetch m.1
  execute := fun inst m => ((vm.execute inst m.1).1, (vm.execute inst m.1).2, m.2 + 1)
  slot := vm.slot
  execs := fun m => vm.execs m.1

/-- No step lowers the count, and one that succeeds has executed an instruction. -/
theorem stepOn_count (m : M × Nat) (d : Decoder) :
    m.2 ≤ (stepOn (counting vm) m d).2.1.2 ∧
      ((stepOn (counting vm) m d).1 = .ok () → m.2 < (stepOn (counting vm) m d).2.1.2) := by
  have refreshed : (CkbVm.refresh (counting vm) m d).1.2 = m.2 := rfl
  simp only [stepOn, Vm.step]
  rw [← refreshed]
  split
  · exact ⟨Nat.le_refl _, by simp⟩
  next inst decoder decoded =>
    simp only [Vm.perform]
    have added : ∀ cycles m, ((counting vm).addCycles cycles m).2.2 = m.2 := fun _ _ => rfl
    rcases counted : (counting vm).addCycles ((counting vm).instructionCycleFunc inst)
      (CkbVm.refresh (counting vm) m d).1 with ⟨result, after⟩
    have same := added ((counting vm).instructionCycleFunc inst) (CkbVm.refresh (counting vm) m d).1
    rw [counted] at same
    cases result with
    | error e => exact ⟨Nat.le_of_eq same.symm, by simp⟩
    | ok _ =>
      have executed : ((counting vm).execute inst after).2.2 = after.2 + 1 := rfl
      simp only at same
      simp only [executed]
      omega

theorem vcontRound_count {inRange : UInt64 → Bool} {s : Handler (M × Nat) × Decoder} :
    (∀ next, vcontRound (counting vm) inRange s = .again next → s.1.machine.2 ≤ next.1.machine.2) ∧
      ∀ answer h, vcontRound (counting vm) inRange s = .leave (answer, h) → s.1.machine.2 ≤ h.machine.2 := by
  have count := (stepOn_count vm s.1.machine s.2).1
  have round := vcontRound_cases (counting vm) inRange s.1 s.2
  constructor
  · intro next went
    rw [went] at round
    cases round with
    | again looks stepped =>
      rw [stepped] at count
      exact count
  · intro answer h left
    rw [left] at round
    cases round with
    | failed looks stepped =>
      rw [stepped] at count
      exact count
    | _ => exact Nat.le_refl _

/-- A resume that loops does not execute an instruction only if its first step fails. -/
theorem vcontLoop_count {inRange : UInt64 → Bool} {rounds : Nat} {h after : Handler (M × Nat)}
    {answer : Except HandlerError StopReason}
    (returned : vcontLoop (counting vm) inRange rounds h = some (answer, after)) :
    answer = .ok (.signal 5) ∨ h.machine.2 < after.machine.2 := by
  have count := (stepOn_count vm h.machine .build).2
  simp only [vcontLoop] at returned
  rcases stepped : stepOn (counting vm) h.machine .build with ⟨result, m, d⟩
  rw [stepped] at returned count
  cases result with
  | error e =>
    cases returned
    exact .inl rfl
  | ok _ =>
    right
    obtain ⟨last, reached, left⟩ := (Loop.exists_run_iff _ _).mp ⟨rounds, returned⟩
    have grown : (fun s : Handler (M × Nat) × Decoder => m.2 ≤ s.1.machine.2) last :=
      reached.invariant (Nat.le_refl _) fun s next before went =>
        Nat.le_trans before ((vcontRound_count vm).1 next went)
    exact Nat.lt_of_lt_of_le (count rfl) (Nat.le_trans grown ((vcontRound_count vm).2 _ _ left))

/-- The request leaves the handler and the count of executed instructions as they are, and is
answered with the exit code. -/
def StaysExited (h : Handler (M × Nat)) (request : List (VCont × Option ThreadId)) : Prop :=
  ∃ rounds, h.vcont (counting vm) rounds request =
    some (some (.ok (.exited 0 (vm.exitCode h.machine.1).toUInt8), h))

/-- Of the requests to resume a program that has exited, those that step leave it alone, and
those that continue or step through a range do not: they test for the exit too late. -/
theorem exited_stays_iff (h : Handler (M × Nat)) (exited : vm.running h.machine.1 = false) (action : VCont)
    (resumes : action = .step ∨ (loopRange action).isSome) (thread : Option ThreadId)
    (others : List (VCont × Option ThreadId)) :
    StaysExited vm h ((action, thread) :: others) ↔ action = .step := by
  constructor
  · rintro ⟨rounds, returned⟩
    rcases resumes with step | loops
    · exact step
    · obtain ⟨inRange, loops⟩ := Option.isSome_iff_exists.mp loops
      rw [vcont_of_loopRange _ loops] at returned
      obtain ⟨_, looped, same⟩ := Option.map_eq_some_iff.mp returned
      cases same
      rcases vcontLoop_count vm looped with trap | executed
      · cases trap
      · exact absurd executed (Nat.lt_irrefl _)
  · rintro rfl
    have stopped : (counting vm).running h.machine = false := exited
    refine ⟨0, ?_⟩
    simp only [Handler.vcont, stopped, Bool.false_eq_true, if_false, stopReason]
    rfl

/-! ### A resume that fails -/

/-- Whether a byte of memory can be read depends on the size of the memory alone, and nothing
changes that. -/
structure FixedMemory : Prop where
  execute : ∀ inst m addr, (vm.load8 (vm.execute inst m).2 addr).isOk = (vm.load8 m addr).isOk
  addCycles : ∀ cycles m addr, (vm.load8 (vm.addCycles cycles m).2 addr).isOk = (vm.load8 m addr).isOk
  resetSignal : ∀ m addr, (vm.load8 (vm.resetSignal m).2 addr).isOk = (vm.load8 m addr).isOk

theorem FixedMemory.perform (fixed : FixedMemory vm) (inst : Instruction) (m : M) (addr : UInt64) :
    (vm.load8 (vm.perform inst m).2 addr).isOk = (vm.load8 m addr).isOk := by
  have counted := fixed.addCycles (vm.instructionCycleFunc inst) m addr
  simp only [Vm.perform]
  split
  next e after added =>
    rw [added] at counted
    exact counted
  next after added =>
    rw [added] at counted
    exact (fixed.execute inst after addr).trans counted

theorem FixedMemory.stepOn (fixed : FixedMemory vm) (m : M) (d : Decoder) (addr : UInt64) :
    (vm.load8 (stepOn vm m d).2.1 addr).isOk = (vm.load8 m addr).isOk := by
  have refreshed := fixed.resetSignal m addr
  simp only [GdbServer.stepOn, Vm.step, CkbVm.refresh]
  split
  · exact refreshed
  next inst decoder decoded => exact (fixed.perform vm inst _ addr).trans refreshed

theorem readBytes_isOk_succ (m : M) (count : Nat) (address : UInt64) :
    (readBytes vm m (count + 1) address).isOk =
      ((vm.load8 m address).isOk && (readBytes vm m count (address + 1)).isOk) := by
  simp only [readBytes]
  cases vm.load8 m address with
  | error e => rfl
  | ok value => cases readBytes vm m count (address + 1) <;> rfl

theorem readBytes_isOk_congr {m m' : M} (same : ∀ addr, (vm.load8 m' addr).isOk = (vm.load8 m addr).isOk)
    (count : Nat) (address : UInt64) :
    (readBytes vm m' count address).isOk = (readBytes vm m count address).isOk := by
  induction count generalizing address with
  | zero => rfl
  | succ count ih => rw [readBytes_isOk_succ, readBytes_isOk_succ, same, ih]

/-- All watched regions can be read. -/
def Watchable (m : M) (watchpoints : List WatchPointStatus) : Prop :=
  ∀ status ∈ watchpoints, (read vm status.watchpoint m).isOk = true

/-- Looking at the watchpoints does not change what they watch. -/
theorem atWatchpoint_watchpoints (m : M) (watchpoints : List WatchPointStatus) :
    (atWatchpoint vm m watchpoints).2.map WatchPointStatus.watchpoint =
      watchpoints.map WatchPointStatus.watchpoint := by
  induction watchpoints with
  | nil => rfl
  | cons status rest ih =>
    have kept : (status.hasChange vm m).2.watchpoint = status.watchpoint := by
      simp only [WatchPointStatus.hasChange]
      split <;> rfl
    simp only [atWatchpoint]
    rcases looks : status.hasChange vm m with ⟨result, looked⟩
    rw [looks] at kept
    simp only at kept
    cases result with
    | error e => simp only [List.map_cons, kept]
    | ok changed =>
      rcases others : atWatchpoint vm m rest with ⟨result, after⟩
      rw [others] at ih
      cases result <;> simp only [List.map_cons, kept, ih]

theorem hasChange_isOk (m : M) (status : WatchPointStatus) :
    (status.hasChange vm m).1.isOk = (read vm status.watchpoint m).isOk := by
  simp only [WatchPointStatus.hasChange, read]
  split
  next e failed =>
    rw [failed]
    rfl
  next bytes now =>
    rw [now]
    rfl

/-- Looking at the watchpoints fails if one of the regions cannot be read. -/
theorem atWatchpoint_isOk_iff (m : M) (watchpoints : List WatchPointStatus) :
    (atWatchpoint vm m watchpoints).1.isOk = true ↔ Watchable vm m watchpoints := by
  induction watchpoints with
  | nil => exact ⟨fun _ _ member => absurd member List.not_mem_nil, fun _ => rfl⟩
  | cons status rest ih =>
    rw [Watchable, List.forall_mem_cons, ← hasChange_isOk]
    rw [Watchable] at ih
    rw [← ih, atWatchpoint]
    rcases status.hasChange vm m with ⟨result, looked⟩
    cases result with
    | error e => simp [Except.isOk, Except.toBool]
    | ok changed =>
      rcases atWatchpoint vm m rest with ⟨result, after⟩
      cases result <;> simp [Except.isOk, Except.toBool]

/-- The machine is as it was before a request that is answered with an error. -/
def Untouched (h : Handler M) (request : List (VCont × Option ThreadId)) : Prop :=
  ∀ rounds e after, h.vcont vm rounds request = some (some (.error e, after)) → after.machine = h.machine

/-- The first instruction fails, changes nothing, or ends where the loop is left at once. -/
def FirstEnds (inRange : UInt64 → Bool) (h : Handler M) : Prop :=
  ∀ m d, stepOn vm h.machine .build = (.ok (), m, d) →
    m = h.machine ∨ entersRound vm inRange { h with machine := m } = false

section Failing

variable (fixed : FixedMemory vm)

include fixed

/-- A step does not change which regions can be read, nor do looks at the watchpoints. -/
theorem watchable_stepOn (m : M) (d : Decoder) {watchpoints after : List WatchPointStatus}
    (same : after.map WatchPointStatus.watchpoint = watchpoints.map WatchPointStatus.watchpoint) :
    Watchable vm (stepOn vm m d).2.1 after ↔ Watchable vm m watchpoints := by
  have regions (m : M) (watchpoints : List WatchPointStatus) : Watchable vm m watchpoints ↔
      ∀ wp ∈ watchpoints.map WatchPointStatus.watchpoint, (read vm wp m).isOk = true := by
    rw [Watchable, List.forall_mem_map]
  rw [regions, regions, same]
  refine forall₂_congr fun wp _ => ?_
  rw [read, read, readMemory, readMemory, readBytes_isOk_congr vm (fixed.stepOn vm m d)]

/-- A round of a handler whose regions can be read does not return an error. -/
theorem vcontRound_of_watchable {inRange : UInt64 → Bool} {s : Handler M × Decoder}
    (watchable : Watchable vm s.1.machine s.1.watchpoints) :
    (∀ next, vcontRound vm inRange s = .again next → Watchable vm next.1.machine next.1.watchpoints) ∧
      ∀ e after, vcontRound vm inRange s ≠ .leave (.error e, after) := by
  have readable := (atWatchpoint_isOk_iff vm s.1.machine s.1.watchpoints).mpr watchable
  have same := atWatchpoint_watchpoints vm s.1.machine s.1.watchpoints
  have round := vcontRound_cases vm inRange s.1 s.2
  constructor
  · intro next went
    rw [went] at round
    cases round with
    | again looks stepped =>
      rw [looks] at same
      have kept := (watchable_stepOn vm fixed s.1.machine s.2 same).mpr watchable
      rw [stepped] at kept
      exact kept
  · intro e after left
    rw [left] at round
    cases round with
    | unreadable looks =>
      rw [looks] at readable
      cases readable

theorem vcontLoop_of_watchable {inRange : UInt64 → Bool} {h : Handler M}
    (watchable : Watchable vm h.machine h.watchpoints) (rounds : Nat) (e : HandlerError) (after : Handler M) :
    vcontLoop vm inRange rounds h ≠ some (.error e, after) := by
  intro returned
  have kept := (watchable_stepOn vm fixed h.machine .build rfl).mpr watchable
  simp only [vcontLoop] at returned
  rcases stepped : stepOn vm h.machine .build with ⟨result, m, d⟩
  rw [stepped] at returned kept
  cases result with
  | error e => cases returned
  | ok _ =>
    obtain ⟨last, reached, left⟩ := (Loop.exists_run_iff _ _).mp ⟨rounds, returned⟩
    have readable : (fun s : Handler M × Decoder => Watchable vm s.1.machine s.1.watchpoints) last :=
      reached.invariant kept fun s next before went => (vcontRound_of_watchable vm fixed before).1 next went
    exact (vcontRound_of_watchable vm fixed readable).2 e after left

/-- With a region that cannot be read, the round after the first instruction fails, if there is
one. -/
theorem vcontRound_of_not_watchable (inRange : UInt64 → Bool) {h : Handler M}
    (unreadable : ¬Watchable vm h.machine h.watchpoints) {m : M} {d : Decoder}
    (stepped : stepOn vm h.machine .build = (.ok (), m, d)) :
    (entersRound vm inRange { h with machine := m } = true →
      ∃ e after, vcontRound vm inRange ({ h with machine := m }, d) = .leave (.error e, after) ∧
        after.machine = m) ∧
    (entersRound vm inRange { h with machine := m } = false →
      vcontRound vm inRange ({ h with machine := m }, d) =
        .leave (.ok (stopReason vm m), { h with machine := m })) := by
  have still := (watchable_stepOn vm fixed h.machine .build rfl).not.mpr unreadable
  rw [stepped] at still
  obtain ⟨e, after, looked⟩ : ∃ e after, atWatchpoint vm m h.watchpoints = (.error e, after) := by
    rcases looks : atWatchpoint vm m h.watchpoints with ⟨_ | fired, after⟩
    · exact ⟨_, after, rfl⟩
    · refine absurd ((atWatchpoint_isOk_iff vm m h.watchpoints).mp ?_) still
      rw [looks]
      rfl
  simp only [entersRound]
  constructor
  · intro enters
    refine ⟨e, { h with machine := m, watchpoints := after }, ?_, rfl⟩
    simp only [vcontRound, enters, if_true, looked]
  · intro leaves
    simp only [vcontRound, leaves, Bool.false_eq_true, if_false]

/-- A loop that fails while it cannot read what is watched fails in its first round. -/
theorem machine_of_failed_loop {inRange : UInt64 → Bool} {h : Handler M} {rounds : Nat} {e : HandlerError}
    {after : Handler M} (unreadable : ¬Watchable vm h.machine h.watchpoints) (ends : FirstEnds vm inRange h)
    (looped : vcontLoop vm inRange rounds h = some (.error e, after)) : after.machine = h.machine := by
  simp only [vcontLoop] at looped
  rcases stepped : stepOn vm h.machine .build with ⟨result, m, d⟩
  rw [stepped] at looped
  cases result with
  | error e => cases looped
  | ok _ =>
    obtain ⟨fails, leaves⟩ := vcontRound_of_not_watchable vm fixed inRange unreadable stepped
    cases rounds with
    | zero => cases looped
    | succ rounds =>
      simp only [Loop.run] at looped
      cases enters : entersRound vm inRange { h with machine := m } with
      | true =>
        obtain ⟨e', after', left, machine⟩ := fails enters
        rw [left] at looped
        cases looped
        have unchanged := (ends m d stepped).resolve_right (by simp [enters])
        rw [machine, unchanged]
      | false =>
        rw [leaves enters] at looped
        cases looped

end Failing

/-- A step does not fail, and what is not supported is not begun. -/
theorem machine_of_unlooped {h : Handler M} {action : VCont} {thread : Option ThreadId}
    {others : List (VCont × Option ThreadId)} {rounds : Nat} {e : HandlerError} {after : Handler M}
    (loops : loopRange action = none)
    (returned : h.vcont vm rounds ((action, thread) :: others) = some (some (.error e, after))) :
    after.machine = h.machine := by
  cases action with
  | «continue» => cases loops
  | rangeStep start stop => cases loops
  | step =>
    simp only [Handler.vcont] at returned
    split at returned
    · split at returned <;> cases returned
    · cases returned
  | continueWithSignal signal =>
    cases returned
    rfl
  | stepWithSignal signal =>
    cases returned
    rfl
  | stop =>
    cases returned
    rfl

/-- A request that fails has left the machine alone, for every request other than to continue or to
step through a range; for those, exactly if all watched regions can be read or the loop
is over after the first instruction. -/
theorem failed_resume_untouched_iff (fixed : FixedMemory vm) (h : Handler M) (action : VCont)
    (thread : Option ThreadId) (others : List (VCont × Option ThreadId)) :
    Untouched vm h ((action, thread) :: others) ↔
      ∀ inRange, loopRange action = some inRange →
        Watchable vm h.machine h.watchpoints ∨ FirstEnds vm inRange h := by
  constructor
  · intro untouched inRange loops
    by_cases watchable : Watchable vm h.machine h.watchpoints
    · exact .inl watchable
    · refine .inr fun m d stepped => ?_
      by_cases enters : entersRound vm inRange { h with machine := m } = true
      · left
        obtain ⟨e, after, left, machine⟩ := (vcontRound_of_not_watchable vm fixed inRange watchable stepped).1 enters
        have returned : h.vcont vm 1 ((action, thread) :: others) = some (some (.error e, after)) := by
          rw [vcont_of_loopRange vm loops, vcontLoop, stepped]
          simp only [Loop.run, left, Option.map_some]
        rw [← machine, untouched 1 e after returned]
      · exact .inr (Bool.eq_false_iff.mpr enters)
  · intro condition rounds e after returned
    cases loops : loopRange action with
    | none => exact machine_of_unlooped vm loops returned
    | some inRange =>
      rw [vcont_of_loopRange vm loops] at returned
      obtain ⟨_, looped, same⟩ := Option.map_eq_some_iff.mp returned
      cases same
      by_cases watchable : Watchable vm h.machine h.watchpoints
      · exact absurd looped (vcontLoop_of_watchable vm fixed watchable rounds e after)
      · exact machine_of_failed_loop vm fixed watchable ((condition inRange loops).resolve_left watchable) looped

end Machine

/-- A program at `0x1000` with breakpoints there and at `0x1008`. -/
def betweenBreakpoints : Handler (UInt64 × UInt8) :=
  ⟨(0x1000, 0), [⟨0x1000, 4, none, none⟩, ⟨0x1008, 4, none, none⟩], []⟩

/-- The breakpoint that the program stands at does not stop it, and the next one does. -/
theorem continue_to_next_breakpoint :
    betweenBreakpoints.vcont storeOnce 2 [(.continue, none)] =
      some (some (.ok (.signal 5), { betweenBreakpoints with machine := (0x1008, 1) })) ∧
    (betweenBreakpoints.stepCalls storeOnce (fun _ => true) 2).length = 2 := by
  have onTheWay : ∀ j, 1 ≤ j → j < 2 → ¬StopsAfter storeOnce (fun _ => true) betweenBreakpoints j := by
    intro j positive below
    obtain rfl : j = 1 := by omega
    rintro (⟨e, failed⟩ | here | stopped | left)
    · cases failed
    · exact absurd here (by decide)
    · cases stopped
    · cases left
  have loops : loopRange .continue = some fun _ => true := rfl
  obtain ⟨answer, calls⟩ := resume_stops_first storeOnce loops betweenBreakpoints rfl none [] 2 (by decide)
    (.inr (.inl (by decide))) onTheWay 2 (by decide)
  exact ⟨answer, by rw [calls]; rfl⟩

/-- A program that has exited; its machine is the program counter. Memory ends at `0x3000`. -/
def finished : Vm UInt64 where
  pc := id
  registers := fun _ _ => 0
  isa := fun _ => 0
  version := fun _ => 2
  running := fun _ => false
  setRunning := fun _ m => m
  exitCode := fun _ => 3
  resetSignal := fun m => (false, m)
  load8 := fun _ addr => if addr < 0x3000 then .ok 0 else .error (.vm 1)
  instructionCycleFunc := fun _ => 1
  addCycles := fun _ m => (.ok (), m)
  fetch := fun _ _ => .ok ⟨.other, 4, 0, CkbVm.ZERO, 0x13⟩
  execute := fun _ m => (.ok (), m + 4)
  slot := UInt64.toNat
  execs := fun _ => 0

theorem step_after_exit :
    finished.running 0x1000 = false ∧ StaysExited finished ⟨(0x1000, 0), [], []⟩ [(.step, none)] :=
  ⟨rfl, (exited_stays_iff finished ⟨(0x1000, 0), [], []⟩ rfl .step (.inl rfl) none []).mpr rfl⟩

/-- Continuing after the exit executes the instruction behind it. -/
theorem continue_after_exit :
    Handler.vcont (counting finished) 1 ⟨(0x1000, 0), [], []⟩ [(.continue, none)] =
      some (some (.ok (.exited 0 3), ⟨(0x1004, 1), [], []⟩)) ∧
    ¬StaysExited finished ⟨(0x1000, 0), [], []⟩ [(.continue, none)] := by
  refine ⟨rfl, ?_⟩
  rintro ⟨rounds, returned⟩
  have loops : loopRange .continue = some fun _ => true := rfl
  rw [vcont_of_loopRange _ loops] at returned
  obtain ⟨_, looped, same⟩ := Option.map_eq_some_iff.mp returned
  cases same
  rcases vcontLoop_count finished looped with trap | executed
  · cases trap
  · exact absurd executed (Nat.lt_irrefl _)

/-- The same memory under a program that is running. -/
def advancing : Vm UInt64 := { finished with running := fun _ => true }

theorem advancing_fixedMemory : FixedMemory advancing := ⟨fun _ _ _ => rfl, fun _ _ _ => rfl, fun _ _ => rfl⟩

/-- With a watchpoint inside the memory, a request to continue never fails. -/
theorem watched_memory_untouched :
    FixedMemory advancing ∧
      Untouched advancing ⟨0x1000, [], [.new ⟨0x2000, 1⟩]⟩ [(.continue, none)] := by
  refine ⟨advancing_fixedMemory,
    (failed_resume_untouched_iff advancing advancing_fixedMemory _ .continue none []).mpr ?_⟩
  intro inRange _
  left
  intro status member
  rw [List.mem_singleton.mp member]
  decide

/-- With a watchpoint behind the end of the memory, it fails after the first instruction. -/
theorem watched_outside_fails_late :
    Handler.vcont advancing 1 ⟨0x1000, [], [.new ⟨0x4000, 1⟩]⟩ [(.continue, none)] =
      some (some (.error (.error 3), ⟨0x1004, [], [.new ⟨0x4000, 1⟩]⟩)) ∧
    ¬Untouched advancing ⟨0x1000, [], [.new ⟨0x4000, 1⟩]⟩ [(.continue, none)] := by
  have failed : Handler.vcont advancing 1 ⟨0x1000, [], [.new ⟨0x4000, 1⟩]⟩ [(.continue, none)] =
      some (some (.error (.error 3), ⟨0x1004, [], [.new ⟨0x4000, 1⟩]⟩)) := rfl
  refine ⟨failed, fun untouched => ?_⟩
  exact absurd (untouched 1 _ _ failed) (by decide)

end GdbServer
