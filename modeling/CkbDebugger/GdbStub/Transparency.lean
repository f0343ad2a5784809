import CkbDebugger.CkbVm.Plain
import CkbDebugger.GdbStub.Coherence

/-!
# Sessions that only look on

A debugger that sets breakpoints, resumes the program and reads what it finds should not change
what the program does. Whatever such a session has executed, the rest of the run goes to the end
that the program has without a debugger.
-/
namespace GdbStub

open CkbVm (Machine Op Error SignalApart ExecSignals DisjointCode Stays Current plainRound)

section Machine

variable {M : Type} (vm : Machine M)

/-! ### Sessions -/

/-- A request that writes nothing, and is no end of the session. -/
inductive Session.Looks : Session M → Session M → Prop where
  | request {s next : Session M} (made : Session.Request vm s next)
      (machine : next.handler.machine = s.handler.machine) (decoder : next.handler.decoder = s.handler.decoder) :
      Looks s next
  | execute {s : Session M} {Ω : Type} (poll : Ω → Bool × Ω) (rounds : Nat) (polled left : Ω)
      (event : VmEvent) (h : Handler M)
      (stopped : s.handler.execute vm poll rounds polled = some (event, h, left))
      -- an error of the machine ends the session
      (alive : ∀ e, event ≠ .error e) : Looks s { s with handler := h }

inductive Session.Observed (machine : M) : Session M → Prop where
  | start : Observed machine ⟨.new machine, []⟩
  | looks {s next : Session M} (observed : Observed machine s) (made : Session.Looks vm s next) :
      Observed machine next

/-! ### What is left when the debugger has gone -/

/-- `DisconnectReason` of `gdbstub`. A signal comes with its text. -/
inductive DisconnectReason where
  | targetExited (code : UInt8)
  | targetTerminated (signal : String)
  | disconnect
  | kill
  deriving Repr, DecidableEq

/-- What the command line tool makes of the end of a session, as far as `run_till_exited` gets in a
number of rounds. -/
def Handler.finish (rounds : Nat) (h : Handler M) : DisconnectReason → Option (Except Error Int8 × Handler M)
  | .disconnect => Loop.run (runTillExitedRound vm) rounds h
  | .targetExited _ => Loop.run (runTillExitedRound vm) rounds h
  | .targetTerminated signal => some (.error (.external ("Target terminated with signal " ++ signal ++ "!")), h)
  | .kill => some (.error (.external "GDB sent a kill command!"), h)

/-! ### Steps -/

/-- A step that succeeds reports no end of the program. -/
theorem stopEvent_alive (h : Handler M) :
    (∀ e, (h.stopEvent vm).1 ≠ some (.error e)) ∧ ∀ code, (h.stopEvent vm).1 ≠ some (.exited code) := by
  simp only [Handler.stopEvent]
  split
  · simp
  · split
    · simp
    · split
      · simp
      · split <;> simp

section Plain

variable (apart : SignalApart vm.toVm) (signals : ExecSignals vm.toVm) {code : Nat → Set UInt64}

include apart signals

/-- A step without an error is an instruction of the plain run, or finds the program stopped. -/
theorem step_plain {h : Handler M} (sound : Sound vm code h) :
    (vm.running h.machine = false ∧ (h.step vm).1 = some (.exited (vm.exitCode h.machine).toUInt8) ∧
      vm.clear (h.step vm).2.machine = vm.clear h.machine) ∨
    (plainRound vm.toVm (vm.clear h.machine) = .again (vm.clear (h.step vm).2.machine) ∧
      (∀ e, (h.step vm).1 ≠ some (.error e)) ∧ ∀ code, (h.step vm).1 ≠ some (.exited code)) ∨
    ∃ e, (h.step vm).1 = some (.error e) ∧
      plainRound vm.toVm (vm.clear h.machine) = .leave (.error e, vm.clear (h.step vm).2.machine) := by
  obtain ⟨refreshed, current⟩ := refresh_sound vm signals sound
  have faithful := (current.faithful vm.toVm refreshed.valid).1
  have plain := CkbVm.plainRound_of_faithful vm.toVm apart faithful
  -- the reset at the start of the step changes the signal alone
  have cleared : vm.clear (h.refresh vm).machine = vm.clear h.machine := apart.again h.machine
  rw [cleared, stepInner_step] at plain
  have running : vm.running (h.refresh vm).machine = vm.running h.machine := apart.running h.machine
  have exitCode : vm.exitCode (h.refresh vm).machine = vm.exitCode h.machine := apart.exitCode h.machine
  simp only [Handler.step]
  by_cases goes : vm.running (h.refresh vm).machine = true
  · rw [if_pos goes] at plain ⊢
    cases stepped : (h.refresh vm).stepInner vm with
    | mk result next =>
      rw [stepped] at plain
      cases result with
      | error e => exact .inr (.inr ⟨e, rfl, plain⟩)
      | ok _ =>
        refine .inr (.inl ⟨?_, ?_⟩)
        · rw [plain, (stopEvent_state vm next).1]
        · exact stopEvent_alive vm next
  · rw [if_neg goes]
    exact .inl ⟨running ▸ Bool.eq_false_iff.mpr goes, by rw [exitCode], cleared⟩

/-- The handler is where a plain run of the machine comes to. -/
structure OnCourse (code : Nat → Set UInt64) (machine : M) (h : Handler M) : Prop where
  reached : Loop.Reaches (plainRound vm.toVm) (vm.clear machine) (vm.clear h.machine)
  sound : Sound vm code h

/-- What an event says about the end of the program is so. -/
def Reported (machine : M) (h : Handler M) : VmEvent → Prop
  | .exited code => ∃ exit : Int8, vm.Ends machine (.ok exit, vm.clear h.machine) ∧ exit.toUInt8 = code
  | .error e => vm.Ends machine (.error e, vm.clear h.machine)
  | _ => True

omit apart signals in
theorem onCourse_new (machine : M) : OnCourse vm code machine (.new machine) where
  reached := .start
  sound := ⟨CkbVm.valid_build vm.toVm machine, CkbVm.apart_build code, fun _ => CkbVm.current_build vm.toVm machine⟩

variable (disjoint : DisjointCode code) {machine : M} (stays : Stays vm.toVm code machine)

include stays

theorem inside_of_reached {h : Handler M}
    (reached : Loop.Reaches (plainRound vm.toVm) (vm.clear machine) (vm.clear h.machine)) : Inside vm code h := by
  have there := stays _ reached
  rw [apart.pc, CkbVm.Vm.clear, (signals.resetSignal _).same] at there
  exact there

include disjoint

theorem OnCourse.step {h : Handler M} (course : OnCourse vm code machine h) :
    (∀ event, (h.step vm).1 = some event → Reported vm machine (h.step vm).2 event) ∧
    ((∀ e, (h.step vm).1 ≠ some (.error e)) → OnCourse vm code machine (h.step vm).2) := by
  have ends {result : Except Error Int8 × M} (left : plainRound vm.toVm (vm.clear h.machine) = .leave result) :
      vm.Ends machine result := (Loop.exists_run_iff _ _).mpr ⟨_, course.reached, left⟩
  have onward (reached : Loop.Reaches (plainRound vm.toVm) (vm.clear machine) (vm.clear (h.step vm).2.machine)) :
      OnCourse vm code machine (h.step vm).2 := by
    have here := inside_of_reached vm apart signals stays course.reached
    have there := inside_of_reached vm apart signals stays reached
    refine ⟨reached, (step_sound vm signals course.sound here there ?_).2⟩
    -- the programs are apart, so an exec leads to an address that the old one does not have
    by_cases same : vm.execs (h.step vm).2.machine = vm.execs h.machine
    · exact .inl same
    · exact .inr fun old => same (disjoint _ _ _ there old)
  rcases step_plain vm apart signals course.sound with
    ⟨stopped, exited, same⟩ | ⟨went, alive, going⟩ | ⟨e, failed, left⟩
  · refine ⟨fun event here => ?_, fun _ => onward (same ▸ course.reached)⟩
    cases exited.symm.trans here
    refine ⟨_, ends ?_, rfl⟩
    rw [same, plainRound, apart.running, stopped, if_neg Bool.false_ne_true, apart.exitCode]
  · refine ⟨fun event here => ?_, fun _ => onward (course.reached.again went)⟩
    cases event with
    | exited code => exact absurd here (going code)
    | error e => exact absurd here (alive e)
    | _ => trivial
  · refine ⟨fun event here => ?_, fun alive => absurd failed (alive e)⟩
    cases failed.symm.trans here
    exact ends left

/-! ### Waiting for a stop -/

section Execute

variable {Ω : Type} (poll : Ω → Bool × Ω)

omit apart signals disjoint stays in
/-- A loop of `execute` ends with the event of its last step, or with one of its own. -/
theorem executeRound_event {inRange : UInt64 → Bool} {s : Executing M Ω} {event : VmEvent} {h : Handler M} {left : Ω}
    (went : executeRound vm poll inRange s = .leave (event, h, left)) :
    (s.handler.step vm).1 = some event ∨
      (s.handler.step vm).1 = none ∧ (event = .doneStep ∨ event = .incomingData) := by
  simp only [executeRound] at went
  split at went
  next stepped =>
    cases went
    exact .inl (by rw [stepped])
  next stepped =>
    refine .inr ⟨by rw [stepped], ?_⟩
    split at went
    · cases went
      exact .inl rfl
    · split at went
      · split at went
        · cases went
          exact .inr rfl
        · cases went
      · cases went

theorem OnCourse.run {inRange : UInt64 → Bool} {h after : Handler M} {rounds : Nat} {polled left : Ω}
    {event : VmEvent} (course : OnCourse vm code machine h)
    (returned : Loop.run (executeRound vm poll inRange) rounds ⟨h, 0, polled⟩ = some (event, after, left)) :
    Reported vm machine after event ∧ ((∀ e, event ≠ .error e) → OnCourse vm code machine after) := by
  obtain ⟨s, reached, went⟩ := (Loop.exists_run_iff _ _).mp ⟨rounds, returned⟩
  let Inv := fun s : Executing M Ω => OnCourse vm code machine s.handler
  have kept : ∀ s next, Inv s → executeRound vm poll inRange s = .again next → Inv next := by
    intro s next here went
    -- the loop goes on only after a step without an event
    have quiet : (s.handler.step vm).1 = none := by
      simp only [executeRound] at went
      split at went
      · cases went
      next stepped => rw [stepped]
    show OnCourse vm code machine next.handler
    rw [executeRound_again vm poll went]
    refine (here.step vm apart signals disjoint stays).2 fun e failed => ?_
    exact absurd (failed.symm.trans quiet) (Option.some_ne_none _)
  have last := (reached.invariant (show Inv _ from course) kept).step vm apart signals disjoint stays
  rw [executeRound_leave vm poll went]
  rcases executeRound_event vm poll went with own | ⟨quiet, loop⟩
  · exact ⟨last.1 event own, fun alive => last.2 fun e here => alive e (Option.some.inj (own.symm.trans here))⟩
  · refine ⟨?_, fun _ => last.2 fun e here => absurd (here.symm.trans quiet) (Option.some_ne_none _)⟩
    rcases loop with rfl | rfl <;> trivial

theorem OnCourse.execute {h after : Handler M} {rounds : Nat} {polled left : Ω} {event : VmEvent}
    (course : OnCourse vm code machine h)
    (returned : h.execute vm poll rounds polled = some (event, after, left)) :
    Reported vm machine after event ∧ ((∀ e, event ≠ .error e) → OnCourse vm code machine after) := by
  simp only [Handler.execute] at returned
  split at returned
  · cases returned
    exact ⟨trivial, fun _ => course⟩
  · split at returned
    · have stepped := course.step vm apart signals disjoint stays
      cases returned
      cases event : (h.step vm).1 with
      | none => exact ⟨trivial, fun _ => stepped.2 fun e here => absurd (here.symm.trans event) (Option.some_ne_none _)⟩
      | some event' =>
        exact ⟨stepped.1 event' event,
          fun alive => stepped.2 fun e here => alive e (Option.some.inj (event.symm.trans here))⟩
    · exact course.run vm apart signals disjoint stays poll returned
    · exact course.run vm apart signals disjoint stays poll returned

end Execute

theorem onCourse_of_observed {s : Session M} (observed : Session.Observed vm machine s) :
    OnCourse vm code machine s.handler := by
  induction observed with
  | start => exact onCourse_new vm machine
  | looks _ made ih =>
    cases made with
    | request _ same decoder =>
      refine ⟨same ▸ ih.reached, ?_, ?_, ?_⟩
      · rw [same, decoder]
        exact ih.sound.valid
      · rw [decoder]
        exact ih.sound.apart
      · rw [same, decoder]
        exact ih.sound.current
    | execute poll rounds polled left event h stopped alive =>
      exact (ih.execute vm apart signals disjoint stays poll stopped).2 alive

/-- The rest of the run after the debugger has gone. -/
theorem runTillExited_plain {h : Handler M} (course : OnCourse vm code machine h) (rounds : Nat) :
    (Loop.run (runTillExitedRound vm) rounds h).map (fun r => vm.outcome (r.1, r.2.machine)) =
      Loop.run (plainRound vm.toVm) rounds (vm.clear h.machine) := by
  refine Loop.run_map (fun h : Handler M => vm.clear h.machine)
    (CkbVm.stepping_loop_plain vm.toVm apart signals Handler.machine Handler.decoder _ disjoint
      (fun s reached => stays s (course.reached.trans reached)) course.sound.valid course.sound.apart
      (fun s next went => ?_) (fun s => ?_)) rounds
  · rw [stepInner_step]
    simp only [runTillExitedRound] at went
    split at went
    · split at went
      next stepped =>
        cases went
        rw [stepped]
      · cases went
    · cases went
  · rw [stepInner_step]
    simp only [runTillExitedRound]
    split
    · rcases s.stepInner vm with ⟨outcome, next⟩
      cases outcome <;> rfl
    · rfl

/-- Whatever a debugger that writes nothing has asked for, and whenever it has polled: what it is told
about the end of the program is so, and after it has disconnected the program goes to the end that
it has by itself, with the same machine but for the reset signal, or goes on for ever like it. -/
theorem observed_session_ends {s : Session M} (observed : Session.Observed vm machine s) :
    (∀ (Ω : Type) (poll : Ω → Bool × Ω) rounds polled event after left,
      s.handler.execute vm poll rounds polled = some (event, after, left) → Reported vm machine after event) ∧
    ∀ reason, reason = .disconnect ∨ (∃ code, reason = .targetExited code) →
      ∀ result, (∃ rounds last, s.handler.finish vm rounds reason = some (result.1, last) ∧
        vm.clear last.machine = result.2) ↔ vm.Ends machine result := by
  have course := onCourse_of_observed vm apart signals disjoint stays observed
  refine ⟨fun Ω poll rounds polled event after left returned =>
    (course.execute vm apart signals disjoint stays poll returned).1, ?_⟩
  intro reason leaves result
  have finish (rounds : Nat) : s.handler.finish vm rounds reason =
      Loop.run (runTillExitedRound vm) rounds s.handler := by
    rcases leaves with rfl | ⟨code, rfl⟩ <;> rfl
  simp only [finish]
  -- a point of the plain run has the same end as its start
  rw [CkbVm.Vm.Ends, ← course.reached.exists_run_iff]
  have plain := runTillExited_plain vm apart signals disjoint stays course
  constructor
  · rintro ⟨rounds, last, ran, same⟩
    have there := plain rounds
    rw [ran, Option.map_some, CkbVm.Vm.outcome, same] at there
    exact ⟨rounds, there.symm⟩
  · rintro ⟨rounds, ended⟩
    have there := plain rounds
    rw [ended] at there
    obtain ⟨⟨outcome, last⟩, ran, rfl⟩ := Option.map_eq_some_iff.mp there
    exact ⟨rounds, last, ran, rfl⟩

end Plain

end Machine

/-! ### A session with a breakpoint -/

/-- The program of two instructions, with its two methods. -/
def twoSteps : Machine (UInt64 × Bool) where
  toVm := CkbVm.twoSteps
  perform
    | .ecall, m => (.ok (), (m.1, false))
    | .commitPc, m => ((), (m.1 + 4, m.2))
    | op, m => (op.zero, m)
  program := fun inst => if inst.opcode = .ecall then .call .ecall .done else .call .commitPc fun _ => .done (.ok ())
  executes := by
    intro inst m
    by_cases exit : inst.opcode = .ecall
    · simp only [CkbVm.twoSteps, if_pos exit]
      rfl
    · simp only [CkbVm.twoSteps, if_neg exit]
      rfl

/-- The debugger stops the program at its exit and leaves. The program exits as it does by itself. -/
theorem stopped_at_exit_ends : ∃ s left,
    Session.Observed twoSteps (0x1000, true) s ∧
    (s.handler.execute twoSteps (fun _ : Unit => (false, ())) 1 () = some (.break, left, ())) ∧
    Session.Observed twoSteps (0x1000, true) ⟨left, []⟩ ∧
    ∃ rounds last, left.finish twoSteps rounds .disconnect = some (.ok 3, last) ∧ last.machine = (0x1004, false) := by
  have set : Session.Observed twoSteps (0x1000, true) ⟨((Handler.new (0x1000, true)).addSwBreakpoint 0x1004).2, []⟩ :=
    .looks .start (.request (.addSwBreakpoint 0x1004) rfl rfl)
  obtain ⟨left, stopped⟩ : ∃ left, ((Handler.new (0x1000, true)).addSwBreakpoint 0x1004).2.execute twoSteps
      (fun _ : Unit => (false, ())) 1 () = some (.break, left, ()) := ⟨_, rfl⟩
  have observed : Session.Observed twoSteps (0x1000, true) ⟨left, []⟩ :=
    .looks set (.execute (fun _ : Unit => (false, ())) 1 () () .break left stopped (by simp))
  -- the program never replaces its code
  have disjoint : CkbVm.DisjointCode fun execs => ({ _pc | execs = 0 } : Set UInt64) :=
    fun i j pc (first : i = 0) (second : j = 0) => first.trans second.symm
  have ends := observed_session_ends twoSteps CkbVm.twoSteps_signalApart CkbVm.twoSteps_signals disjoint
    (fun _ _ => rfl) observed
  obtain ⟨rounds, last, finished, same⟩ := (ends.2 .disconnect (.inl rfl) (.ok 3, (0x1004, false))).mpr ⟨3, rfl⟩
  exact ⟨_, left, set, stopped, observed, rounds, last, finished, same⟩

end GdbStub
