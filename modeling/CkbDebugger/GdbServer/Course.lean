import CkbDebugger.CkbVm.Plain
import CkbDebugger.GdbServer.Requests
import CkbDebugger.GdbServer.Resume
import CkbDebugger.History.Basic

/-!
# Sessions of the gdb server

A client that writes to no register and no memory stops the program here and there and looks at
it. The program goes the way that it goes without a client, and what the client is told about
its end is so.
-/
namespace GdbServer

open CkbVm (Vm Decoder Error SignalApart ExecSignals Valid Current plainRound)
open GdbRemote (VCont ThreadId StopReason HandlerError HandlerCall)

section Machine

variable {M : Type}

/-! ### Sessions -/

/-- A call that writes nothing. A program that has exited is not resumed, but for single steps. -/
def Looks (vm : Vm M) (h : Handler M) : HandlerCall → Prop
  | .writeRegister .. => False
  | .writeMemory .. => False
  | .vcont request => vm.running h.machine = true ∨ request.head?.map Prod.fst = some .step
  | _ => True

/-- A call of a session that only looks on. -/
def LooksOn (target : Target M) (h : Handler M) (call : HandlerCall) (next : Handler M) : Prop :=
  Looks target.toVm h call ∧ ∃ rounds result, gdbHandler target rounds call h = some (result, next)

variable (vm : Vm M)

/-- No instruction of the program fails. -/
def NeverFails (machine : M) : Prop :=
  ∀ s, Loop.Reaches (plainRound vm) (vm.clear machine) s → ∀ e last, plainRound vm s ≠ .leave (.error e, last)

/-- A reply tells whether the program is still running, and otherwise how it has ended. -/
def Tells (machine last : M) (reason : StopReason) : Prop :=
  (vm.running last = true ∧ reason = .signal 5) ∨
    ∃ exit : Int8, vm.Ends machine (.ok exit, vm.clear last) ∧ reason = .exited 0 exit.toUInt8

/-! ### Steps -/

section Plain

variable {vm} (apart : SignalApart vm) (signals : ExecSignals vm) {machine : M} (fails : NeverFails vm machine)

include apart signals fails

/-- The machine and the decoder of a loop are where a plain run comes to. -/
structure OnCourse (vm : Vm M) (machine m : M) (d : Decoder) : Prop where
  reached : Loop.Reaches (plainRound vm) (vm.clear machine) (vm.clear m)
  valid : Valid vm d m
  current : vm.signal m = false → Current vm d m

omit apart signals fails in
theorem onCourse_build {m : M} (reached : Loop.Reaches (plainRound vm) (vm.clear machine) (vm.clear m)) :
    OnCourse vm machine m .build :=
  ⟨reached, CkbVm.valid_build vm m, fun _ => CkbVm.current_build vm m⟩

/-- A step of a running program goes on. -/
theorem OnCourse.stepOn {m : M} {d : Decoder} (course : OnCourse vm machine m d) (running : vm.running m = true) :
    ∃ next d', stepOn vm m d = (.ok (), next, d') ∧ OnCourse vm machine next d' := by
  obtain ⟨plain, valid, current⟩ := CkbVm.refreshed_step_plain vm apart signals course.valid course.current
  rw [if_pos running] at plain
  rw [GdbServer.stepOn]
  rcases stepped : vm.step (CkbVm.refresh vm m d).1 (CkbVm.refresh vm m d).2 with ⟨result, next, d'⟩
  rw [stepped] at plain valid current
  cases result with
  | error e => exact absurd plain (fails _ course.reached e _)
  | ok _ => exact ⟨next, d', rfl, course.reached.again plain, valid, current⟩

omit signals fails in
/-- The answer at the end of a loop is that of the machine. -/
theorem tells_stopReason {m : M} (reached : Loop.Reaches (plainRound vm) (vm.clear machine) (vm.clear m)) :
    Tells vm machine m (stopReason vm m) := by
  by_cases running : vm.running m = true
  · exact .inl ⟨running, by rw [stopReason, if_pos running]⟩
  · refine .inr ⟨vm.exitCode m, (Loop.exists_run_iff _ _).mpr ⟨_, reached, ?_⟩, by rw [stopReason, if_neg running]⟩
    rw [plainRound, apart.running, if_neg running, apart.exitCode]

theorem vcontRound_course {inRange : UInt64 → Bool} {s : Handler M × Decoder}
    (course : OnCourse vm machine s.1.machine s.2) :
    (∀ next, vcontRound vm inRange s = .again next → OnCourse vm machine next.1.machine next.2) ∧
    ∀ result after, vcontRound vm inRange s = .leave (result, after) →
      Loop.Reaches (plainRound vm) (vm.clear machine) (vm.clear after.machine) ∧
      ∀ reason, result = .ok reason → Tells vm machine after.machine reason := by
  have here := tells_stopReason apart course.reached
  obtain ⟨h, d⟩ := s
  simp only [vcontRound]
  split
  next enters =>
    have running : vm.running h.machine = true := by
      simp only [Bool.and_eq_true] at enters
      exact enters.2
    -- a round looks before it steps, so both kinds of stop are at a point of the course
    obtain ⟨next, d', stepped, onward⟩ := course.stepOn apart signals fails running
    split
    · refine ⟨fun _ went => (by cases went), fun _ _ left => ?_⟩
      cases left
      exact ⟨course.reached, fun _ same => by cases same⟩
    · refine ⟨fun _ went => (by cases went), fun _ _ left => ?_⟩
      cases left
      exact ⟨course.reached, fun _ same => by cases same; exact here⟩
    · simp only [stepped]
      refine ⟨fun _ went => ?_, fun _ _ left => by cases left⟩
      cases went
      exact onward
  · refine ⟨fun _ went => (by cases went), fun _ _ left => ?_⟩
    cases left
    exact ⟨course.reached, fun _ same => by cases same; exact here⟩

theorem vcontLoop_course {inRange : UInt64 → Bool} {rounds : Nat} {h after : Handler M}
    {result : Except HandlerError StopReason}
    (reached : Loop.Reaches (plainRound vm) (vm.clear machine) (vm.clear h.machine))
    (running : vm.running h.machine = true) (returned : vcontLoop vm inRange rounds h = some (result, after)) :
    Loop.Reaches (plainRound vm) (vm.clear machine) (vm.clear after.machine) ∧
      ∀ reason, result = .ok reason → Tells vm machine after.machine reason := by
  obtain ⟨m, d, stepped, course⟩ := (onCourse_build reached).stepOn apart signals fails running
  simp only [vcontLoop, stepped] at returned
  obtain ⟨s, there, left⟩ := (Loop.exists_run_iff _ _).mp ⟨rounds, returned⟩
  let Inv := fun s : Handler M × Decoder => OnCourse vm machine s.1.machine s.2
  have kept : ∀ s next, Inv s → vcontRound vm inRange s = .again next → Inv next :=
    fun s next here went => (vcontRound_course apart signals fails here).1 next went
  exact (vcontRound_course apart signals fails (there.invariant (show Inv _ from course) kept)).2 _ _ left

/-- A resume keeps to the plain run, and its reply says where on it the program is. -/
theorem vcont_course {rounds : Nat} {h after : Handler M} {request : List (VCont × Option ThreadId)}
    {result : Except HandlerError StopReason}
    (reached : Loop.Reaches (plainRound vm) (vm.clear machine) (vm.clear h.machine))
    (looks : Looks vm h (.vcont request)) (returned : h.vcont vm rounds request = some (some (result, after))) :
    Loop.Reaches (plainRound vm) (vm.clear machine) (vm.clear after.machine) ∧
      ∀ reason, result = .ok reason → Tells vm machine after.machine reason := by
  cases request with
  | nil => cases returned
  | cons first others =>
    obtain ⟨action, thread⟩ := first
    -- only a step is allowed where the program has exited
    have running : action ≠ .step → vm.running h.machine = true := fun other =>
      looks.resolve_right fun step => other (by simpa using step)
    cases loops : loopRange action with
    | some inRange =>
      rw [vcont_of_loopRange vm loops] at returned
      obtain ⟨_, looped, same⟩ := Option.map_eq_some_iff.mp returned
      cases same
      refine vcontLoop_course apart signals fails reached (running ?_) looped
      rintro rfl
      cases loops
    | none =>
      cases action with
      | step =>
        simp only [Handler.vcont] at returned
        split at returned
        next runs =>
          obtain ⟨m, d, stepped, course⟩ := (onCourse_build reached).stepOn apart signals fails runs
          rw [stepped] at returned
          cases returned
          exact ⟨course.reached, fun _ same => by cases same; exact tells_stopReason apart course.reached⟩
        · cases returned
          exact ⟨reached, fun _ same => by cases same; exact tells_stopReason apart reached⟩
      | «continue» => cases loops
      | rangeStep start stop => cases loops
      | _ =>
        cases returned
        exact ⟨reached, fun _ same => by cases same⟩

end Plain

/-- Any calls of a client that only looks on: the program has gone a part of the way that it goes by
itself, and every reply to a resume says whether it is at the end and how that is. -/
theorem looking_session_tells {target : Target M} (apart : SignalApart target.toVm)
    (signals : ExecSignals target.toVm) {machine : M} (fails : NeverFails target.toVm machine)
    {calls : List HandlerCall} {h : Handler M} (run : History.Run (LooksOn target) (.new machine) calls h) :
    Loop.Reaches (plainRound target.toVm) (target.clear machine) (target.clear h.machine) ∧
    ∀ request rounds reason after, Looks target.toVm h (.vcont request) →
      gdbHandler target rounds (.vcont request) h = some (.ok reason, after) →
      Tells target.toVm machine after.machine reason := by
  have vcont {h after : Handler M} {request : List (VCont × Option ThreadId)} {rounds : Nat}
      {result : Except HandlerError StopReason}
      (returned : gdbHandler target rounds (.vcont request) h = some (result, after)) :
      h.vcont target.toVm rounds request = some (some (result, after)) := by
    simpa [gdbHandler, Option.join_eq_some_iff] using returned
  have reached : Loop.Reaches (plainRound target.toVm) (target.clear machine) (target.clear h.machine) := by
    refine run.invariant (fun _ h => Loop.Reaches (plainRound target.toVm) (target.clear machine)
      (target.clear h.machine)) .start ?_
    rintro _ h call next reached ⟨looks, rounds, result, returned⟩
    cases call with
    | writeRegister register contents => exact absurd looks not_false
    | writeMemory address bytes => exact absurd looks not_false
    | vcont request => exact (vcont_course apart signals fails reached looks (vcont returned)).1
    | insertWriteWatchpoint watchpoint =>
      simp only [gdbHandler] at returned
      split at returned
      · cases returned
        exact reached
      · cases returned
    | _ =>
      -- the machine is not touched
      cases returned
      exact reached
  exact ⟨reached, fun _ _ reason _ looks returned =>
    (vcont_course apart signals fails reached looks (vcont returned)).2 reason rfl⟩

end Machine

/-! ### A session with a breakpoint -/

/-- The program of two instructions, whose registers and memory are not written. -/
def twoStepsTarget : Target (UInt64 × Bool) where
  toVm := CkbVm.twoSteps
  setRegister := fun _ _ m => m
  setPc := fun _ m => m
  storeBytes := fun _ _ m => (.ok (), m)

theorem twoSteps_neverFails : NeverFails CkbVm.twoSteps (0x1000, true) := by
  intro s _ e last failed
  obtain ⟨pc, _ | _⟩ := s
  · cases failed
  · by_cases first : pc = 0x1000
    · subst first
      cases failed
    · have exit : CkbVm.twoSteps.fetch (pc, true) pc = .ok ⟨.ecall, 4, 0, CkbVm.ZERO, 0⟩ := by
        simp [CkbVm.twoSteps, first]
      simp only [plainRound, Vm.fetchStep, show CkbVm.twoSteps.pc (pc, true) = pc from rfl, exit] at failed
      cases failed

/-- The client stops the program before its exit, and is then told how it exits. -/
theorem stopped_before_exit_tells : ∃ stopped after reason,
    History.Run (LooksOn twoStepsTarget) (.new (0x1000, true))
      [.insertSoftwareBreakpoint ⟨0x1004, 4, none, none⟩, .vcont [(.continue, none)]] stopped ∧
    stopped.machine = (0x1004, true) ∧
    gdbHandler twoStepsTarget 2 (.vcont [(.continue, none)]) stopped = some (.ok reason, after) ∧
    ∃ exit : Int8, CkbVm.twoSteps.Ends (0x1000, true) (.ok exit, after.machine) ∧ reason = .exited 0 exit.toUInt8 := by
  have run : History.Run (LooksOn twoStepsTarget) (.new (0x1000, true))
      [.insertSoftwareBreakpoint ⟨0x1004, 4, none, none⟩, .vcont [(.continue, none)]]
      ⟨(0x1004, true), [⟨0x1004, 4, none, none⟩], []⟩ :=
    .cons ⟨trivial, 0, .ok (), rfl⟩ (.cons ⟨.inl rfl, 1, .ok (.signal 5), rfl⟩ .nil)
  obtain ⟨reason, after, continued, exited⟩ : ∃ reason after, gdbHandler twoStepsTarget 2 (.vcont [(.continue, none)])
      ⟨(0x1004, true), [⟨0x1004, 4, none, none⟩], []⟩ = some (.ok reason, after) ∧
      after.machine = (0x1004, false) := ⟨_, _, rfl, rfl⟩
  refine ⟨_, after, reason, run, rfl, continued, ?_⟩
  rcases (looking_session_tells CkbVm.twoSteps_signalApart CkbVm.twoSteps_signals twoSteps_neverFails run).2 _ 2
    reason after (.inl rfl) continued with ⟨running, -⟩ | ends
  · rw [exited] at running
    cases running
  · exact ends

end GdbServer
