import CkbDebugger.CkbVm.Cache
import CkbDebugger.Loop.Simulation

/-!
# Runs without a decoder

What a program does when every instruction is fetched from memory. The loops of the debugger
differ from it, and from each other, in their decoders and in whether they clear the reset
signal of an exec; where they decode rightly, that is all the difference there is.
-/
namespace CkbVm

variable {M : Type} (vm : Vm M)

/-- The machine after `reset_signal`. -/
def Vm.clear (m : M) : M := (vm.resetSignal m).2

/-- Nothing but the loops looks at the reset signal. -/
structure SignalApart : Prop where
  again : ∀ m, vm.clear (vm.clear m) = vm.clear m
  pc : ∀ m, vm.pc (vm.clear m) = vm.pc m
  running : ∀ m, vm.running (vm.clear m) = vm.running m
  exitCode : ∀ m, vm.exitCode (vm.clear m) = vm.exitCode m
  fetch : ∀ m, vm.fetch (vm.clear m) = vm.fetch m
  addCycles : ∀ cycles m, (vm.addCycles cycles (vm.clear m)).1 = (vm.addCycles cycles m).1 ∧
    vm.clear (vm.addCycles cycles (vm.clear m)).2 = vm.clear (vm.addCycles cycles m).2
  execute : ∀ inst m, (vm.execute inst (vm.clear m)).1 = (vm.execute inst m).1 ∧
    vm.clear (vm.execute inst (vm.clear m)).2 = vm.clear (vm.execute inst m).2

/-- A result of the machine, whose signal does not count. -/
def Vm.outcome (result : Except Error Int8 × M) : Except Error Int8 × M := (result.1, vm.clear result.2)

/-- One instruction from memory. -/
def plainRound (m : M) : Loop.Round M (Except Error Int8 × M) :=
  if vm.running m then
    match vm.fetchStep m with
    | (.ok (), next) => .again (vm.clear next)
    | (.error e, last) => .leave (.error e, vm.clear last)
  else .leave (.ok (vm.exitCode m), m)

/-- The program of a machine comes to an end. -/
def Vm.Ends (m : M) (result : Except Error Int8 × M) : Prop :=
  ∃ rounds, Loop.run (plainRound vm) rounds (vm.clear m) = some result

/-- The run stays inside the programs that it executes. -/
def Stays (code : Nat → Set UInt64) (m : M) : Prop :=
  ∀ s, Loop.Reaches (plainRound vm) (vm.clear m) s → vm.pc s ∈ code (vm.execs s)

section Apart

variable (apart : SignalApart vm)

include apart

theorem perform_clear (inst : Instruction) (m : M) :
    (vm.perform inst (vm.clear m)).1 = (vm.perform inst m).1 ∧
      vm.clear (vm.perform inst (vm.clear m)).2 = vm.clear (vm.perform inst m).2 := by
  have counted := apart.addCycles (vm.instructionCycleFunc inst) m
  simp only [Vm.perform]
  rcases first : vm.addCycles (vm.instructionCycleFunc inst) (vm.clear m) with ⟨one, cleared⟩
  rcases second : vm.addCycles (vm.instructionCycleFunc inst) m with ⟨two, after⟩
  rw [first, second] at counted
  obtain ⟨rfl, same⟩ := counted
  cases one with
  | error e => exact ⟨rfl, same⟩
  | ok _ =>
    -- the two machines differ in the signal only
    have one := apart.execute inst cleared
    have two := apart.execute inst after
    rw [same] at one
    exact ⟨one.1.symm.trans two.1, one.2.symm.trans two.2⟩

theorem fetchStep_clear (m : M) : (vm.fetchStep (vm.clear m)).1 = (vm.fetchStep m).1 ∧
    vm.clear (vm.fetchStep (vm.clear m)).2 = vm.clear (vm.fetchStep m).2 := by
  simp only [Vm.fetchStep, apart.fetch, apart.pc]
  split
  · exact ⟨rfl, apart.again m⟩
  · exact perform_clear vm apart _ m

theorem plainRound_clear (m : M) : plainRound vm (vm.clear m) =
    if vm.running m then
      match vm.fetchStep m with
      | (.ok (), next) => .again (vm.clear next)
      | (.error e, last) => .leave (.error e, vm.clear last)
    else .leave (.ok (vm.exitCode m), vm.clear m) := by
  have same := fetchStep_clear vm apart m
  rw [plainRound, apart.running, apart.exitCode]
  rcases first : vm.fetchStep (vm.clear m) with ⟨one, cleared⟩
  rcases second : vm.fetchStep m with ⟨two, after⟩
  rw [first, second] at same
  obtain ⟨rfl, alike⟩ := same
  cases one <;> simp only [alike]

/-- A loop that executes the instructions in memory is seen as a plain run. -/
theorem plainRound_of_faithful {m : M} {d : Decoder} (faithful : Faithful vm d m) :
    plainRound vm (vm.clear m) =
      if vm.running m then
        match vm.step m d with
        | (.ok (), next, _) => .again (vm.clear next)
        | (.error e, last, _) => .leave (.error e, vm.clear last)
      else .leave (.ok (vm.exitCode m), vm.clear m) := by
  have stepped := faithful.step_eq vm
  rw [plainRound_clear vm apart]
  rw [← stepped]
  rcases vm.step m d with ⟨result, next, decoder⟩
  cases result <;> rfl

theorem clear_refresh (m : M) (d : Decoder) : vm.clear (refresh vm m d).1 = vm.clear m := apart.again m

/-- A step after the test of the reset signal, from a decoder that is current unless the signal is up:
it is seen as a round of the plain run, and leaves such a decoder. -/
theorem refreshed_step_plain (signals : ExecSignals vm) {m : M} {d : Decoder} (valid : Valid vm d m)
    (current : vm.signal m = false → Current vm d m) :
    (plainRound vm (vm.clear m) =
      if vm.running m then
        match vm.step (refresh vm m d).1 (refresh vm m d).2 with
        | (.ok (), next, _) => .again (vm.clear next)
        | (.error e, last, _) => .leave (.error e, vm.clear last)
      else .leave (.ok (vm.exitCode m), vm.clear m)) ∧
    Valid vm (vm.step (refresh vm m d).1 (refresh vm m d).2).2.2 (vm.step (refresh vm m d).1 (refresh vm m d).2).2.1 ∧
    (vm.signal (vm.step (refresh vm m d).1 (refresh vm m d).2).2.1 = false →
      Current vm (vm.step (refresh vm m d).1 (refresh vm m d).2).2.2
        (vm.step (refresh vm m d).1 (refresh vm m d).2).2.1) := by
  obtain ⟨refreshed, all⟩ := refresh_current vm signals valid current
  have faithful := all.faithful vm refreshed
  refine ⟨?_, step_valid vm signals faithful.2, fun down => step_current vm signals all (.inl down)⟩
  have plain := plainRound_of_faithful vm apart faithful.1
  rw [clear_refresh vm apart, show vm.running (refresh vm m d).1 = vm.running m from apart.running m,
    show vm.exitCode (refresh vm m d).1 = vm.exitCode m from apart.exitCode m] at plain
  exact plain

/-! ### `DefaultMachine::run` -/

theorem runRound_plain {s : M × Decoder} (faithful : Faithful vm (refresh vm s.1 s.2).2 (refresh vm s.1 s.2).1) :
    plainRound vm (vm.clear s.1) = (runRound vm s).map (fun s => vm.clear s.1) vm.outcome := by
  have plain := plainRound_of_faithful vm apart faithful
  rw [clear_refresh vm apart, show (refresh vm s.1 s.2).1 = vm.clear s.1 from rfl, apart.running, apart.exitCode]
    at plain
  rw [plain, runRound]
  split
  · rw [show vm.clear s.1 = (refresh vm s.1 s.2).1 from rfl]
    split
    next stepped => simp only [stepped, Loop.Round.map]
    next stepped => simp only [stepped, Loop.Round.map, Vm.outcome]
  · rfl

/-- `DefaultMachine::run` is a plain run. -/
theorem run_plain (signals : ExecSignals vm) {m : M}
    (accepted : ¬(vm.isa m &&& isaMop ≠ 0 ∧ vm.version m = version0)) (rounds : Nat) :
    (vm.run rounds m).map vm.outcome = Loop.run (plainRound vm) rounds (vm.clear (vm.setRunning true m)) := by
  rw [Vm.run, if_neg accepted]
  refine Loop.run_map (fun s : M × Decoder => vm.clear s.1) (fun s reached => ?_) rounds
  refine runRound_plain vm apart (refreshing_loop_faithful vm signals Prod.fst Prod.snd (valid_build vm _)
    (fun _ => current_build vm _) (fun s next went => ?_) reached)
  simp only [runRound] at went
  split at went
  · split at went
    next stepped =>
      cases went
      rw [stepped]
    · cases went
  · cases went

/-! ### Loops that never test the signal -/

/-- A loop that never resets its decoder is seen as a plain run that stays inside programs which
are apart. -/
theorem stepping_loop_plain (signals : ExecSignals vm) {σ ρ : Type} {round : σ → Loop.Round σ ρ} {start : σ}
    (machine : σ → M) (decoder : σ → Decoder) (result : ρ → Except Error Int8 × M) {code : Nat → Set UInt64}
    (disjoint : DisjointCode code) (stays : Stays vm code (machine start))
    (valid : Valid vm (decoder start) (machine start)) (entries : Apart code (decoder start))
    (steps : ∀ s next, round s = .again next → (machine next, decoder next) = (vm.step (machine s) (decoder s)).2)
    (rounds : ∀ s, (round s).map (fun s => vm.clear (machine s)) result =
      if vm.running (machine s) then
        match vm.step (machine s) (decoder s) with
        | (.ok (), next, _) => .again (vm.clear next)
        | (.error e, last, _) => .leave (.error e, vm.clear last)
      else .leave (.ok (vm.exitCode (machine s)), vm.clear (machine s))) :
    ∀ s, Loop.Reaches round start s →
      plainRound vm (vm.clear (machine s)) = (round s).map (fun s => vm.clear (machine s)) result := by
  -- a state that is reached is inside as far as its plain run has been followed
  have inside : ∀ s, Loop.Reaches (plainRound vm) (vm.clear (machine start)) (vm.clear (machine s)) →
      vm.pc (machine s) ∈ code (vm.execs (machine s)) := by
    intro s reached
    have there := stays _ reached
    rw [apart.pc, Vm.clear, (signals.resetSignal _).same] at there
    exact there
  have followed : ∀ s, Loop.Reaches round start s →
      Loop.Reaches (plainRound vm) (vm.clear (machine start)) (vm.clear (machine s)) ∧
        Valid vm (decoder s) (machine s) ∧ Apart code (decoder s) := by
    intro s reached
    induction reached with
    | start => exact ⟨.start, valid, entries⟩
    | @again s next _ went ih =>
      obtain ⟨reached, valid, entries⟩ := ih
      have faithful := entries.faithful vm disjoint (inside s reached) valid
      have stepped := Prod.ext_iff.mp (steps s next went)
      simp only at stepped
      refine ⟨reached.again ?_, ?_⟩
      · rw [plainRound_of_faithful vm apart faithful.1, ← rounds s, went]
        rfl
      · rw [stepped.1, stepped.2]
        exact ⟨step_valid vm signals faithful.2, step_apart vm entries (inside s reached)⟩
  intro s reached
  obtain ⟨before, valid, entries⟩ := followed s reached
  rw [plainRound_of_faithful vm apart (entries.faithful vm disjoint (inside s before) valid).1, rounds s]

end Apart

/-! ### A program of two instructions -/

/-- An instruction that goes on to the next one, and an exit. The machine is the program counter and
whether it is running. -/
def twoSteps : Vm (UInt64 × Bool) where
  pc := Prod.fst
  registers := fun _ _ => 93
  isa := fun _ => 0
  version := fun _ => 2
  running := Prod.snd
  setRunning := fun flag m => (m.1, flag)
  exitCode := fun _ => 3
  resetSignal := fun m => (false, m)
  load8 := fun _ _ => .ok 0
  instructionCycleFunc := fun _ => 1
  addCycles := fun _ m => (.ok (), m)
  fetch := fun _ pc => .ok ⟨if pc = 0x1000 then .other else .ecall, 4, 0, ZERO, 0⟩
  execute := fun inst m => if inst.opcode = .ecall then (.ok (), (m.1, false)) else (.ok (), (m.1 + 4, m.2))
  slot := UInt64.toNat
  execs := fun _ => 0

theorem twoSteps_signalApart : SignalApart twoSteps where
  again := fun _ => rfl
  pc := fun _ => rfl
  running := fun _ => rfl
  exitCode := fun _ => rfl
  fetch := fun _ => rfl
  addCycles := fun _ _ => ⟨rfl, rfl⟩
  execute := fun _ _ => ⟨rfl, rfl⟩

theorem twoSteps_signals : ExecSignals twoSteps where
  execute := fun _ _ => ⟨Nat.le_refl _, fun _ _ _ fetched => fetched⟩
  raised := fun _ _ changed => absurd rfl changed
  cleared := fun _ => rfl
  addCycles := fun _ _ => ⟨⟨Nat.le_refl _, fun _ _ _ fetched => fetched⟩, rfl, rfl⟩
  resetSignal := fun _ => ⟨⟨Nat.le_refl _, fun _ _ _ fetched => fetched⟩, rfl, rfl⟩

end CkbVm
