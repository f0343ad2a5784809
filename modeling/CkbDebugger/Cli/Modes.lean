import CkbDebugger.CkbVm.Plain
import CkbDebugger.Cli.Coherence

/-!
# The modes of the command line tool

The fast mode, `--step` and the probe mode each have a loop of their own. As long as the
programs of a run keep apart, they do the same: every mode ends after the same number of
instructions with the same result, and `--step` prints where the program has been.
-/
namespace Cli

open CkbVm (Vm Decoder Error SignalApart ExecSignals DisjointCode Stays plainRound)

section Modes

variable {M : Type} (vm : Vm M)

/-- The states of `machine_step` when its loop is entered. -/
def Stepping.start (m : M) : Stepping M := ⟨vm.setRunning true m, .build, []⟩

variable (display : M → String) (skipRange : Option (UInt64 × UInt64)) (level : Nat)

/-- The lines for the states of a run: a machine that has stopped gets none. -/
def trace (visited : List M) : List String :=
  (visited.filter fun m => vm.running m).flatMap (stepInfo vm display skipRange level)

/-- The loop prints the lines of the states that it goes through. -/
theorem machineStep_printed {rounds : Nat} {s last : Stepping M} {result : Except Error Int8}
    (ran : Loop.run (machineStepRound vm display skipRange level) rounds s = some (result, last)) :
    last.printed = s.printed ++ trace vm display skipRange level
      ((Loop.states (machineStepRound vm display skipRange level) rounds s).map Stepping.machine) := by
  induction rounds generalizing s with
  | zero => cases ran
  | succ rounds ih =>
    by_cases running : vm.running s.machine = true
    · rcases stepped : vm.step s.machine s.decoder with ⟨outcome, m, d⟩
      cases outcome with
      | error e =>
        simp only [Loop.run, Loop.states, machineStepRound, running, if_true, stepped] at ran ⊢
        cases ran
        simp [trace, running]
      | ok _ =>
        simp only [Loop.run, Loop.states, machineStepRound, running, if_true, stepped] at ran ⊢
        have rest := ih ran
        rw [rest, List.append_assoc]
        simp [trace, running]
    · simp only [Loop.run, Loop.states, machineStepRound, running] at ran ⊢
      cases ran
      simp [trace, running]

theorem stepInfo_clear (apart : SignalApart vm) (shows : ∀ m, display (vm.clear m) = display m) (m : M) :
    stepInfo vm display skipRange level (vm.clear m) = stepInfo vm display skipRange level m := by
  simp only [stepInfo, stepInfo.info, apart.pc, shows]

/-- The reset signal is not printed. -/
theorem trace_clear (apart : SignalApart vm) (shows : ∀ m, display (vm.clear m) = display m) (visited : List M) :
    trace vm display skipRange level (visited.map vm.clear) = trace vm display skipRange level visited := by
  have same := fun m => stepInfo_clear vm display skipRange level apart shows m
  induction visited with
  | nil => rfl
  | cons m visited ih =>
    rw [List.map_cons]
    by_cases running : vm.running m = true
    · simp only [trace, List.filter_cons, apart.running, running, if_true, List.flatMap_cons, same] at ih ⊢
      rw [ih]
    · simp only [trace, List.filter_cons, apart.running, running] at ih ⊢
      exact ih

section Agree

variable {vm} (apart : SignalApart vm) (signals : ExecSignals vm) {code : Nat → Set UInt64}
  (disjoint : DisjointCode code) {m : M} (stays : Stays vm code (vm.setRunning true m))

include apart signals disjoint stays

theorem machineStep_plain (s : Stepping M)
    (reached : Loop.Reaches (machineStepRound vm display skipRange level) (.start vm m) s) :
    plainRound vm (vm.clear s.machine) = (machineStepRound vm display skipRange level s).map
      (fun s => vm.clear s.machine) (fun r => vm.outcome (r.1, r.2.machine)) := by
  refine CkbVm.stepping_loop_plain vm apart signals Stepping.machine Stepping.decoder
    (fun r => vm.outcome (r.1, r.2.machine)) disjoint stays
    (CkbVm.valid_build vm _) (CkbVm.apart_build code) (fun s next went => ?_) (fun s => ?_) s reached
  · simp only [machineStepRound] at went
    split at went
    · split at went
      next stepped =>
        cases went
        rw [stepped]
      · cases went
    · cases went
  · simp only [machineStepRound]
    split
    · rcases vm.step s.machine s.decoder with ⟨outcome, next, d⟩
      cases outcome <;> rfl
    · rfl

theorem probe_plain (s : M × Decoder) (reached : Loop.Reaches (probeRound vm) (vm.setRunning true m, .build) s) :
    plainRound vm (vm.clear s.1) = (probeRound vm s).map (fun s => vm.clear s.1) vm.outcome := by
  refine CkbVm.stepping_loop_plain vm apart signals Prod.fst Prod.snd vm.outcome disjoint stays
    (CkbVm.valid_build vm _) (CkbVm.apart_build code) (fun s next went => probeRound_again vm went)
    (fun s => ?_) s reached
  -- the loop has the body of a step written out
  simp only [probeRound, Vm.step, Vm.perform]
  split
  · rcases s.2.decode vm s.1 with ⟨outcome, d⟩
    cases outcome with
    | error e => rfl
    | ok inst =>
      simp only
      rcases vm.addCycles (vm.instructionCycleFunc inst) s.1 with ⟨outcome, counted⟩
      cases outcome with
      | error e => rfl
      | ok _ =>
        simp only
        rcases vm.execute inst counted with ⟨outcome, next⟩
        cases outcome <;> rfl
  · rfl

/-- Every mode executes what a run without decoder and reset signal does: the same number of
instructions, to the same result and the same machine, or for ever. The lines of `--step` are those
of its states. -/
theorem modes_agree (accepted : ¬(vm.isa m &&& CkbVm.isaMop ≠ 0 ∧ vm.version m = CkbVm.version0))
    (shows : ∀ m, display (vm.clear m) = display m) (rounds : Nat) :
    (vm.run rounds m).map vm.outcome =
      Loop.run (plainRound vm) rounds (vm.clear (vm.setRunning true m)) ∧
    (Loop.run (probeRound vm) rounds (vm.setRunning true m, .build)).map vm.outcome =
      Loop.run (plainRound vm) rounds (vm.clear (vm.setRunning true m)) ∧
    (Loop.run (machineStepRound vm display skipRange level) rounds (.start vm m)).map
        (fun r => vm.outcome (r.1, r.2.machine)) =
      Loop.run (plainRound vm) rounds (vm.clear (vm.setRunning true m)) ∧
    ∀ result last,
      Loop.run (machineStepRound vm display skipRange level) rounds (.start vm m) = some (result, last) →
      last.printed = trace vm display skipRange level
        (Loop.states (plainRound vm) rounds (vm.clear (vm.setRunning true m))) := by
  have steps := machineStep_plain display skipRange level apart signals disjoint stays
  refine ⟨CkbVm.run_plain vm apart signals accepted rounds,
    Loop.run_map (fun s : M × Decoder => vm.clear s.1) (probe_plain apart signals disjoint stays) rounds,
    Loop.run_map (fun s : Stepping M => vm.clear s.machine) steps rounds, ?_⟩
  intro result last ran
  have states := Loop.states_map (fun s : Stepping M => vm.clear s.machine) steps rounds
  rw [machineStep_printed vm display skipRange level ran]
  rw [show vm.clear (vm.setRunning true m) = vm.clear (Stepping.start vm m).machine from rfl, ← states,
    ← trace_clear vm display skipRange level apart shows, List.map_map]
  rfl

end Agree

end Modes

/-! ### A run with an exec -/

theorem execTo_signalApart (target : UInt64) : SignalApart (execTo target).toVm where
  again := fun _ => rfl
  pc := fun _ => rfl
  running := fun _ => rfl
  exitCode := fun _ => rfl
  fetch := fun _ => rfl
  addCycles := fun _ _ => ⟨rfl, rfl⟩
  execute := by
    intro inst m
    by_cases exec : inst.opcode = .ecall
    · simp [execTo, exec, Vm.clear]
    · simp [execTo, exec, Vm.clear]

/-- The old program is at one address, and the new one at another. -/
def twoPrograms (execs : Nat) : Set UInt64 := fun pc => (execs = 0 ∧ pc = 0x1000) ∨ (execs = 1 ∧ pc = 0x2000)

theorem twoPrograms_disjoint : DisjointCode twoPrograms := by
  rintro i j pc (⟨rfl, rfl⟩ | ⟨rfl, rfl⟩) (⟨rfl, other⟩ | ⟨rfl, other⟩)
  · rfl
  · exact absurd other (by decide)
  · exact absurd other (by decide)
  · rfl

theorem execTo_stays : Stays (execTo 0x2000).toVm twoPrograms (0x1000, 0, false) := by
  intro s reached
  have two : s = (0x1000, 0, false) ∨ s = (0x2000, 1, false) := by
    induction reached with
    | start => exact .inl rfl
    | again _ went ih =>
      rcases ih with rfl | rfl
      · cases went
        exact .inr rfl
      · cases went
  rcases two with rfl | rfl
  · exact .inl ⟨rfl, rfl⟩
  · exact .inr ⟨rfl, rfl⟩

/-- All modes follow the exec to the invalid instruction, and `--step` prints both addresses. -/
theorem exec_modes_agree :
    ((execTo 0x2000).toVm.run 2 (0x1000, 0, false)).map (execTo 0x2000).toVm.outcome =
      some (.error (.vm 0), (0x2000, 1, false)) ∧
    (Loop.run (probeRound (execTo 0x2000).toVm) 2 ((0x1000, 0, false), .build)).map (execTo 0x2000).toVm.outcome =
      some (.error (.vm 0), (0x2000, 1, false)) ∧
    ∃ last, Loop.run (machineStepRound (execTo 0x2000).toVm (fun _ => "") none 1) 2
        (.start (execTo 0x2000).toVm (0x1000, 0, false)) = some (.error (.vm 0), last) ∧
      last.printed = ["PC: 0x1000", "PC: 0x2000"] := by
  obtain ⟨fast, probe, -, printed⟩ := modes_agree (fun _ => "") none 1 (execTo_signalApart 0x2000)
    (execTo_signals 0x2000) twoPrograms_disjoint execTo_stays (by decide) (fun _ => rfl) 2
  refine ⟨fast, probe, _, rfl, ?_⟩
  rw [printed _ _ rfl]
  decide +kernel

end Cli
