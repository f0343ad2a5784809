import CkbDebugger.CkbVm.Cache
import CkbDebugger.GdbStub.Polling

/-!
# The decoder of the gdbstub backend

The backend keeps one decoder for the whole session. `step` tests the reset signal
before its instruction, but looks at the next opcode after it; `run_till_exited` never
tests the signal.
-/
namespace GdbStub

open CkbVm (Machine Decoder Op Error Advances ExecSignals Valid Current Apart DisjointCode Faithful)

section Machine

variable {M : Type} (vm : Machine M)

/-! ### Sessions -/

/-- A request that sets a table or the mode. A request that panics leads nowhere. -/
inductive Handler.Configures : Handler M → Handler M → Prop where
  | addSwBreakpoint (h : Handler M) (addr : UInt64) : Configures h (h.addSwBreakpoint addr).2
  | removeSwBreakpoint (h : Handler M) (addr : UInt64) : Configures h (h.removeSwBreakpoint addr).2
  | addHwWatchpoint (h : Handler M) (addr len : UInt64) (kind : WatchKind) :
      Configures h (h.addHwWatchpoint addr len kind).2
  | removeHwWatchpoint {h next : Handler M} (addr len : UInt64) (kind : WatchKind) (found : Bool)
      (removed : h.removeHwWatchpoint addr len kind = some (found, next)) : Configures h next
  | enableCatchSyscalls (h : Handler M) (filter : Option (List UInt64)) :
      Configures h (h.enableCatchSyscalls filter)
  | disableCatchSyscalls (h : Handler M) : Configures h h.disableCatchSyscalls
  | resume (h : Handler M) (signal : Option UInt8) : Configures h (h.resume signal).2
  | resumeRangeStep (h : Handler M) (start stop : UInt64) : Configures h (h.resumeRangeStep start stop)
  | resumeStep (h : Handler M) (signal : Option UInt8) : Configures h (h.resumeStep signal).2

/-- The sessions of a debugger: the handlers on which `step` has been called, one after the other,
and the handler that is left. -/
inductive Handler.Debugged (machine : M) : List (Handler M) → Handler M → Prop where
  | new : Debugged machine [] (.new machine)
  | configure {steps : List (Handler M)} {h next : Handler M} (before : Debugged machine steps h)
      (made : h.Configures next) : Debugged machine steps next
  | readAddrs {steps : List (Handler M)} {h : Handler M} (before : Debugged machine steps h)
      (start : UInt64) (count : Nat) : Debugged machine steps (h.readAddrs vm start count).2
  | writeAddrs {steps : List (Handler M)} {h : Handler M} (before : Debugged machine steps h)
      (start : UInt64) (data : List UInt8) : Debugged machine steps (h.writeAddrs vm start data).2
  | writeRegisters {steps : List (Handler M)} {h : Handler M} (before : Debugged machine steps h)
      (x : Fin 32 → UInt64) (pc : UInt64) : Debugged machine steps (h.writeRegisters vm x pc)
  | writeRegister {steps : List (Handler M)} {h next : Handler M} (before : Debugged machine steps h)
      (reg : RegId) (val : List UInt8) (result : Except Error Unit)
      (written : h.writeRegister vm reg val = some (result, next)) : Debugged machine steps next
  | execute {steps : List (Handler M)} {h after : Handler M} {Ω : Type} (before : Debugged machine steps h)
      (poll : Ω → Bool × Ω) (rounds : Nat) (polled left : Ω) (event : VmEvent)
      (returned : h.execute vm poll rounds polled = some (event, after, left)) :
      Debugged machine (steps ++ h.stepCalls vm poll rounds polled) after

/-- `step` is called again on what it has left. -/
inductive Handler.Steps : Handler M → List (Handler M) → Handler M → Prop where
  | nil (h : Handler M) : Steps h [] h
  | cons {h last : Handler M} {calls : List (Handler M)} (rest : Steps (h.step vm).2 calls last) :
      Steps h (h :: calls) last

section Execute

variable {Ω : Type} (poll : Ω → Bool × Ω)

theorem executeRound_again {inRange : UInt64 → Bool} {s next : Executing M Ω}
    (went : executeRound vm poll inRange s = .again next) : next.handler = (s.handler.step vm).2 := by
  simp only [executeRound] at went
  split at went
  · cases went
  next h stepped =>
    rw [stepped]
    split at went
    · cases went
    · split at went
      · split at went
        · cases went
        · cases went
          rfl
      · cases went
        rfl

theorem executeRound_leave {inRange : UInt64 → Bool} {s : Executing M Ω} {event : VmEvent} {h : Handler M}
    {left : Ω} (went : executeRound vm poll inRange s = .leave (event, h, left)) :
    h = (s.handler.step vm).2 := by
  simp only [executeRound] at went
  split at went
  next stepped =>
    cases went
    rw [stepped]
  next stepped =>
    rw [stepped]
    split at went
    · cases went
      rfl
    · split at went
      · split at went
        · cases went
          rfl
        · cases went
      · cases went

theorem states_steps (inRange : UInt64 → Bool) (rounds : Nat) (s : Executing M Ω) : ∃ last,
    Handler.Steps vm s.handler ((Loop.states (executeRound vm poll inRange) rounds s).map Executing.handler) last ∧
    ∀ event after left, Loop.run (executeRound vm poll inRange) rounds s = some (event, after, left) →
      last = after := by
  induction rounds generalizing s with
  | zero => exact ⟨s.handler, .nil _, fun event after left returned => by cases returned⟩
  | succ rounds ih =>
    simp only [Loop.states, Loop.run]
    cases went : executeRound vm poll inRange s with
    | again next =>
      obtain ⟨last, steps, same⟩ := ih next
      rw [executeRound_again vm poll went] at steps
      exact ⟨last, .cons steps, same⟩
    | leave result =>
      obtain ⟨event, h, left⟩ := result
      refine ⟨(s.handler.step vm).2, .cons (.nil _), fun event after left returned => ?_⟩
      cases returned
      exact (executeRound_leave vm poll went).symm

/-- A call of `execute` is a number of steps, also when it has not returned yet. -/
theorem stepCalls_steps (rounds : Nat) (h : Handler M) (polled : Ω) : ∃ last,
    Handler.Steps vm h (h.stepCalls vm poll rounds polled) last ∧
    ∀ event after left, h.execute vm poll rounds polled = some (event, after, left) → last = after := by
  simp only [Handler.stepCalls, Handler.execute]
  obtain ⟨ready, polled⟩ := poll polled
  cases ready with
  | true =>
    refine ⟨h, .nil h, fun event after left returned => ?_⟩
    cases returned
    rfl
  | false =>
    cases h.execMode with
    | step =>
      refine ⟨(h.step vm).2, .cons (.nil _), fun event after left returned => ?_⟩
      cases returned
      rfl
    | «continue» => exact states_steps vm poll _ rounds ⟨h, 0, polled⟩
    | rangeStep start stop => exact states_steps vm poll _ rounds ⟨h, 0, polled⟩

end Execute

/-! ### Decodes of a step -/

/-- The two decodes of a step: of its instruction, and of the one after it. -/
structure StepFaithful (h : Handler M) : Prop where
  instruction : Faithful vm.toVm (h.refresh vm).decoder (h.refresh vm).machine
  next : vm.running (h.refresh vm).machine = true → ((h.refresh vm).stepInner vm).1 = .ok () →
    Faithful vm.toVm ((h.refresh vm).stepInner vm).2.decoder ((h.refresh vm).stepInner vm).2.machine

theorem nextOpcode_state (h : Handler M) : (h.nextOpcode vm).2.machine = h.machine ∧
    (h.nextOpcode vm).2.decoder = (h.decoder.decode vm.toVm h.machine).2 := by
  cases decoded : h.decoder.decode vm.toVm h.machine with
  | mk result decoder => cases result <;> simp [Handler.nextOpcode, decoded]

theorem stopEvent_state (h : Handler M) : (h.stopEvent vm).2.machine = h.machine ∧
    (h.stopEvent vm).2.decoder = (h.decoder.decode vm.toVm h.machine).2 := by
  obtain ⟨machine, decoder⟩ := nextOpcode_state vm h
  rw [← decoder, ← machine]
  simp only [Handler.stopEvent]
  split
  · exact ⟨rfl, rfl⟩
  · split
    · exact ⟨rfl, rfl⟩
    · split
      · exact ⟨rfl, rfl⟩
      · split <;> exact ⟨rfl, rfl⟩

/-! ### Steps of a session -/

section Session

variable (signals : ExecSignals vm.toVm) {code : Nat → Set UInt64}

/-- The entries of the handler's decoder are valid and at addresses of their programs, and
all of the current program unless the reset signal is up. -/
structure Sound (code : Nat → Set UInt64) (h : Handler M) : Prop where
  valid : Valid vm.toVm h.decoder h.machine
  apart : Apart code h.decoder
  current : vm.signal h.machine = false → Current vm.toVm h.decoder h.machine

/-- The handler is at an address of the current program. -/
def Inside (code : Nat → Set UInt64) (h : Handler M) : Prop :=
  vm.pc h.machine ∈ code (vm.execs h.machine)

/-- The step from here makes no exec, or one whose new program starts at no address of the
old one. -/
def EntersApart (code : Nat → Set UInt64) (h : Handler M) : Prop :=
  vm.execs (h.step vm).2.machine = vm.execs h.machine ∨
    vm.pc (h.step vm).2.machine ∉ code (vm.execs h.machine)

include signals

theorem refresh_inside {h : Handler M} (inside : Inside vm code h) : Inside vm code (h.refresh vm) := by
  have kept := signals.resetSignal h.machine
  simp only [Inside, Handler.refresh, CkbVm.refresh]
  rw [kept.pc, kept.same]
  exact inside

theorem refresh_sound {h : Handler M} (sound : Sound vm code h) :
    Sound vm code (h.refresh vm) ∧ Current vm.toVm (h.refresh vm).decoder (h.refresh vm).machine := by
  obtain ⟨valid, current⟩ := CkbVm.refresh_current vm.toVm signals sound.valid sound.current
  refine ⟨⟨valid, ?_, fun _ => current⟩, current⟩
  simp only [Handler.refresh, CkbVm.refresh]
  split
  · exact CkbVm.apart_reset h.decoder code
  · exact sound.apart

theorem stepInner_sound {h : Handler M} (sound : Sound vm code h)
    (current : Current vm.toVm h.decoder h.machine) (inside : Inside vm code h) :
    Sound vm code (h.stepInner vm).2 := by
  have stepped := stepInner_step vm h
  have valid := CkbVm.step_valid vm.toVm signals (current.faithful vm.toVm sound.valid).2
  have apart := CkbVm.step_apart vm.toVm sound.apart inside
  have still := CkbVm.step_current vm.toVm signals current
  rw [stepped] at valid apart still
  exact ⟨valid, apart, fun down => still (.inl down)⟩

/-- The peek after an instruction is right when the instruction is no exec, or one to an
address that has no entry. -/
theorem peek_faithful {h : Handler M} (sound : Sound vm code h)
    (current : Current vm.toVm h.decoder h.machine) (inside : Inside vm code h)
    (enters : vm.execs (h.stepInner vm).2.machine = vm.execs h.machine ∨
      vm.pc (h.stepInner vm).2.machine ∉ code (vm.execs h.machine)) :
    Faithful vm.toVm (h.stepInner vm).2.decoder (h.stepInner vm).2.machine ∧
      Valid vm.toVm ((h.stepInner vm).2.decoder.decode vm.toVm (h.stepInner vm).2.machine).2
        (h.stepInner vm).2.machine := by
  have after := stepInner_sound vm signals sound current inside
  have stepped := stepInner_step vm h
  have still := CkbVm.step_current vm.toVm signals current
  rw [stepped] at still
  rcases enters with same | elsewhere
  · exact (still (.inr same)).faithful vm.toVm after.valid
  · apply CkbVm.decode_faithful vm.toVm after.valid
    intro entry found
    obtain ⟨cached, here⟩ := CkbVm.lookup_eq_some vm.toVm found
    -- all entries were made before the instruction, by the program that it belongs to
    have made : entry.made = vm.execs h.machine := by
      have entries := CkbVm.decode_current vm.toVm current
      have decoder : (h.stepInner vm).2.decoder = (h.decoder.decode vm.toVm h.machine).2 := by
        have same := congrArg (fun result => result.2.2) stepped
        rw [CkbVm.step_decoder] at same
        exact same.symm
      rw [decoder] at cached
      exact entries _ entry cached
    have there := after.apart _ entry cached
    rw [here, made] at there
    exact absurd there elsewhere

omit signals in
theorem stopEvent_sound {h : Handler M} (sound : Sound vm code h)
    (valid : Valid vm.toVm (h.decoder.decode vm.toVm h.machine).2 h.machine) (inside : Inside vm code h) :
    Sound vm code (h.stopEvent vm).2 := by
  obtain ⟨machine, decoder⟩ := stopEvent_state vm h
  constructor
  · rw [machine, decoder]
    exact valid
  · rw [decoder]
    exact CkbVm.decode_apart vm.toVm sound.apart inside
  · rw [machine, decoder]
    exact fun down => CkbVm.decode_current vm.toVm (sound.current down)

/-- One step, from and to an address of the current program. -/
theorem step_sound {h : Handler M} (sound : Sound vm code h) (inside : Inside vm code h)
    (after : Inside vm code (h.step vm).2) (enters : EntersApart vm code h) :
    StepFaithful vm h ∧ Sound vm code (h.step vm).2 := by
  obtain ⟨refreshed, current⟩ := refresh_sound vm signals sound
  have here := refresh_inside vm signals inside
  have first := (current.faithful vm.toVm refreshed.valid).1
  have stepped := stepInner_sound vm signals refreshed current here
  have peek := peek_faithful vm signals refreshed current here
  have same : vm.execs (h.refresh vm).machine = vm.execs h.machine := (signals.resetSignal h.machine).same
  simp only [EntersApart, Handler.step] at after enters ⊢
  by_cases running : vm.running (h.refresh vm).machine = true
  · simp only [if_pos running] at after enters ⊢
    cases result : (h.refresh vm).stepInner vm with
    | mk outcome next =>
      rw [result] at stepped peek after enters
      cases outcome with
      | error e =>
        refine ⟨⟨first, fun _ done => ?_⟩, stepped⟩
        rw [result] at done
        cases done
      | ok _ =>
        -- the step ends at the machine that the peek looks at
        simp only [Inside, (stopEvent_state vm next).1] at after enters
        rw [← same] at enters
        obtain ⟨second, valid⟩ := peek enters
        refine ⟨⟨first, fun _ _ => ?_⟩, stopEvent_sound vm stepped valid after⟩
        rw [result]
        exact second
  · simp only [if_neg running]
    exact ⟨⟨first, fun goes => absurd goes running⟩, refreshed⟩

/-! ### What the debugger does to the machine -/

/-- The methods of the machine that the debugger's requests call. -/
def IsAccess : Op → Prop
  | .updatePc _ => True
  | .commitPc => True
  | .setRegister .. => True
  | .load .w8 _ => True
  | .storeBytes .. => True
  | _ => False

/-- The same program, with the reset signal up if it was. -/
structure SameProgram (m next : M) : Prop extends Advances vm.toVm m next where
  same : vm.execs next = vm.execs m
  signal : vm.signal m = true → vm.signal next = true

/-- An access of the debugger is no exec, and does not clear the reset signal. -/
def Touches : Prop := ∀ op, IsAccess op → ∀ m, SameProgram vm m (vm.perform op m).2

omit signals

theorem SameProgram.refl (m : M) : SameProgram vm m m := ⟨⟨le_rfl, fun _ _ _ fetched => fetched⟩, rfl, id⟩

theorem SameProgram.trans {m next last : M} (first : SameProgram vm m next) (second : SameProgram vm next last) :
    SameProgram vm m last :=
  ⟨first.toAdvances.trans vm.toVm second.toAdvances, second.same.trans first.same, second.signal ∘ first.signal⟩

theorem Sound.sameProgram {h next : Handler M} (sound : Sound vm code h)
    (machine : SameProgram vm h.machine next.machine) (decoder : next.decoder = h.decoder) :
    Sound vm code next := by
  refine ⟨?_, decoder ▸ sound.apart, fun down => ?_⟩
  · rw [decoder]
    exact sound.valid.advance vm.toVm machine.toAdvances
  · have quiet : vm.signal h.machine = false :=
      Bool.eq_false_iff.mpr fun up => Bool.eq_false_iff.mp down (machine.signal up)
    intro slot entry cached
    rw [decoder] at cached
    rw [machine.same]
    exact sound.current quiet slot entry cached

theorem configures_same {h next : Handler M} (made : h.Configures next) :
    next.machine = h.machine ∧ next.decoder = h.decoder := by
  cases made with
  | addSwBreakpoint => exact ⟨rfl, rfl⟩
  | removeSwBreakpoint addr =>
    simp only [Handler.removeSwBreakpoint]
    split <;> exact ⟨rfl, rfl⟩
  | addHwWatchpoint => exact ⟨rfl, rfl⟩
  | removeHwWatchpoint addr len kind found removed =>
    simp only [Handler.removeHwWatchpoint] at removed
    split at removed
    · cases removed
      exact ⟨rfl, rfl⟩
    · split at removed
      · cases removed
        exact ⟨rfl, rfl⟩
      · cases removed
  | enableCatchSyscalls => exact ⟨rfl, rfl⟩
  | disableCatchSyscalls => exact ⟨rfl, rfl⟩
  | resume signal => cases signal <;> exact ⟨rfl, rfl⟩
  | resumeRangeStep => exact ⟨rfl, rfl⟩
  | resumeStep signal => cases signal <;> exact ⟨rfl, rfl⟩

section Touches

variable (touches : Touches vm)

include touches

theorem movePc_sameProgram (pc : UInt64) (m : M) : SameProgram vm m (movePc vm pc m) :=
  (touches (.updatePc pc) trivial m).trans vm (touches .commitPc trivial _)

theorem setRegisters_sameProgram (x : Fin 32 → UInt64) (m : M) : SameProgram vm m (setRegisters vm x m) := by
  have fold (indices : List (Fin 32)) (m : M) : SameProgram vm m
      (indices.foldl (fun m i => (vm.perform (.setRegister i.val (x i)) m).2) m) := by
    induction indices generalizing m with
    | nil => exact .refl vm m
    | cons i indices ih => exact (touches (.setRegister i.val (x i)) trivial m).trans vm (ih _)
  exact fold _ m

theorem loadAddrs_sameProgram (start : UInt64) (count : Nat) (m : M) :
    SameProgram vm m (loadAddrs vm start count m).2 := by
  induction count generalizing start m with
  | zero => exact .refl vm m
  | succ count ih =>
    have first := touches (.load .w8 start) trivial m
    simp only [loadAddrs]
    split
    next failed =>
      rw [failed] at first
      exact first
    next loaded =>
      rw [loaded] at first
      exact first.trans vm (ih _ _)

theorem writeRegister_sound {h next : Handler M} {reg : RegId} {val : List UInt8} {result : Except Error Unit}
    (sound : Sound vm code h) (written : h.writeRegister vm reg val = some (result, next)) :
    Sound vm code next := by
  simp only [Handler.writeRegister] at written
  split at written
  · cases reg with
    | pc =>
      cases written
      exact sound.sameProgram vm (movePc_sameProgram vm touches _ _) rfl
    | gpr idx =>
      cases written
      exact sound.sameProgram vm (touches (.setRegister _ _) trivial _) rfl
    | other text =>
      cases written
      exact sound
  · cases written

end Touches

/-! ### Whole sessions -/

include signals

/-- From step to step, as long as every exec enters its program at a new address. -/
theorem steps_sound {h last : Handler M} {calls : List (Handler M)} (steps : Handler.Steps vm h calls last)
    (sound : Sound vm code h)
    (apart : ∀ g ∈ calls, Inside vm code g ∧ Inside vm code (g.step vm).2 ∧ EntersApart vm code g) :
    (∀ g ∈ calls, StepFaithful vm g) ∧ Sound vm code last := by
  induction steps with
  | nil h => exact ⟨by simp, sound⟩
  | cons rest ih =>
    obtain ⟨⟨inside, after, enters⟩, others⟩ := List.forall_mem_cons.mp apart
    obtain ⟨faithful, still⟩ := step_sound vm signals sound inside after enters
    obtain ⟨right, final⟩ := ih still others
    exact ⟨List.forall_mem_cons.mpr ⟨faithful, right⟩, final⟩

variable (touches : Touches vm) {machine : M}

include touches

theorem debugged_sound {steps : List (Handler M)} {h : Handler M} (debugged : Handler.Debugged vm machine steps h)
    (apart : ∀ g ∈ steps, Inside vm code g ∧ Inside vm code (g.step vm).2 ∧ EntersApart vm code g) :
    (∀ g ∈ steps, StepFaithful vm g) ∧ Sound vm code h := by
  induction debugged with
  | new =>
    refine ⟨by simp, CkbVm.valid_build vm.toVm machine, CkbVm.apart_build code, fun _ => ?_⟩
    exact CkbVm.current_build vm.toVm machine
  -- requests and accesses leave the decoder as it is, and the machine with the same program
  | configure _ made ih =>
    obtain ⟨faithful, sound⟩ := ih apart
    obtain ⟨same, decoder⟩ := configures_same made
    exact ⟨faithful, sound.sameProgram vm (same ▸ .refl vm _) decoder⟩
  | readAddrs _ start count ih =>
    obtain ⟨faithful, sound⟩ := ih apart
    exact ⟨faithful, sound.sameProgram vm (loadAddrs_sameProgram vm touches start count _) rfl⟩
  | writeAddrs _ start data ih =>
    obtain ⟨faithful, sound⟩ := ih apart
    exact ⟨faithful, sound.sameProgram vm (touches (.storeBytes start data) trivial _) rfl⟩
  | writeRegisters _ x pc ih =>
    obtain ⟨faithful, sound⟩ := ih apart
    refine ⟨faithful, sound.sameProgram vm ?_ rfl⟩
    exact (setRegisters_sameProgram vm touches x _).trans vm (movePc_sameProgram vm touches pc _)
  | writeRegister _ reg val result written ih =>
    obtain ⟨faithful, sound⟩ := ih apart
    exact ⟨faithful, writeRegister_sound vm touches sound written⟩
  | execute _ poll rounds polled left event returned ih =>
    obtain ⟨earlier, calls⟩ := List.forall_mem_append.mp apart
    obtain ⟨faithful, sound⟩ := ih earlier
    obtain ⟨last, steps, same⟩ := stepCalls_steps vm poll rounds _ polled
    obtain ⟨right, final⟩ := steps_sound vm signals steps sound calls
    exact ⟨List.forall_mem_append.mpr ⟨faithful, right⟩, same _ _ _ returned ▸ final⟩

/-- Both decodes of every step are right, of the calls of `execute` that have returned and of one
that is under way. -/
theorem debugged_stepFaithful {steps : List (Handler M)} {h : Handler M}
    (debugged : Handler.Debugged vm machine steps h) {Ω : Type} (poll : Ω → Bool × Ω) (rounds : Nat) (polled : Ω)
    (apart : ∀ g ∈ steps ++ h.stepCalls vm poll rounds polled,
      Inside vm code g ∧ Inside vm code (g.step vm).2 ∧ EntersApart vm code g) :
    ∀ g ∈ steps ++ h.stepCalls vm poll rounds polled, StepFaithful vm g := by
  obtain ⟨earlier, calls⟩ := List.forall_mem_append.mp apart
  obtain ⟨faithful, sound⟩ := debugged_sound vm signals touches debugged earlier
  obtain ⟨last, underway, _⟩ := stepCalls_steps vm poll rounds h polled
  exact List.forall_mem_append.mpr ⟨faithful, (steps_sound vm signals underway sound calls).1⟩

/-- In the rest of the run after the debugger has gone the decoder is never reset: all
programs have to be apart. -/
theorem runTillExited_faithful (disjoint : DisjointCode code) {steps : List (Handler M)} {h s : Handler M}
    (debugged : Handler.Debugged vm machine steps h)
    (inside : ∀ g ∈ steps, Inside vm code g ∧ Inside vm code (g.step vm).2)
    (stays : ∀ s, Loop.Reaches (runTillExitedRound vm) h s → Inside vm code s)
    (runs : Loop.Reaches (runTillExitedRound vm) h s) : Faithful vm.toVm s.decoder s.machine := by
  -- programs that share no address are entered apart
  have apart : ∀ g ∈ steps, Inside vm code g ∧ Inside vm code (g.step vm).2 ∧ EntersApart vm code g := by
    intro g called
    obtain ⟨here, there⟩ := inside g called
    refine ⟨here, there, ?_⟩
    by_cases same : vm.execs (g.step vm).2.machine = vm.execs g.machine
    · exact .inl same
    · exact .inr fun old => same (disjoint _ _ _ there old)
  have sound := (debugged_sound vm signals touches debugged apart).2
  refine CkbVm.stepping_loop_faithful vm.toVm signals Handler.machine Handler.decoder disjoint sound.valid
    sound.apart (fun s next went => ?_) stays runs
  rw [stepInner_step]
  simp only [runTillExitedRound] at went
  split at went
  · split at went
    next stepped =>
      cases went
      rw [stepped]
    · cases went
  · cases went

end Session

end Machine

end GdbStub
