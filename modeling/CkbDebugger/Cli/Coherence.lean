import CkbDebugger.Cli.Loops
import CkbDebugger.GdbServer.Handler
import CkbDebugger.GdbStub.Coherence
import CkbDebugger.Pprof.Machine

/-!
# The instruction cache in all loops

Seven loops of the repository execute programs, each with a decoder of its own. Those that
test the reset signal before every decode follow an exec to the new program; the others do
so only when the old and the new program have no address in common.
-/
namespace Cli

open CkbVm (Vm Machine Decoder Instruction Error Keeps Advances ExecSignals Valid Current Apart DisjointCode
  Faithful A7)

section Machine

variable {M : Type} (vm : Vm M)

/-! ### Loops that test the signal -/

theorem pprofRun_faithful (signals : ExecSignals vm) (code : M → Pprof.Symbols) {m : M}
    {symbols : Pprof.Symbols} {s : Pprof.PProfMachine M}
    (reached : Loop.Reaches (Pprof.PProfMachine.runRound vm code) (.start vm m symbols) s) :
    Faithful vm (s.refresh vm code).decoder (s.refresh vm code).machine := by
  refine CkbVm.refreshing_loop_faithful vm signals Pprof.PProfMachine.machine Pprof.PProfMachine.decoder
    (CkbVm.valid_build vm _) (fun _ => CkbVm.current_build vm _) (fun s next went => ?_) reached
  simp only [Pprof.PProfMachine.runRound] at went
  split at went
  · split at went
    · cases went
    · cases went
    next profile stepped =>
      rw [CkbVm.step_decode] at went
      split at went
      next m d executed =>
        cases went
        exact (congrArg Prod.snd executed).symm
      · cases went
  · cases went

theorem stepOn_faithful (signals : ExecSignals vm) (m : M) :
    Faithful vm (CkbVm.refresh vm m .build).2 (CkbVm.refresh vm m .build).1 := by
  obtain ⟨valid, current⟩ := CkbVm.refresh_current vm signals (CkbVm.valid_build vm m)
    fun _ => CkbVm.current_build vm m
  exact (current.faithful vm valid).1

theorem vcont_faithful (signals : ExecSignals vm) {inRange : UInt64 → Bool} {h : GdbServer.Handler M} {m : M}
    {d : Decoder} {s : GdbServer.Handler M × Decoder}
    (stepped : GdbServer.stepOn vm h.machine .build = (.ok (), m, d))
    (reached : Loop.Reaches (GdbServer.vcontRound vm inRange) ({ h with machine := m }, d) s) :
    Faithful vm (CkbVm.refresh vm s.1.machine s.2).2 (CkbVm.refresh vm s.1.machine s.2).1 := by
  -- the state after the first instruction is one that a step leaves
  obtain ⟨valid, current⟩ := CkbVm.refresh_current vm signals (CkbVm.valid_build vm h.machine)
    fun _ => CkbVm.current_build vm h.machine
  have afterValid := CkbVm.step_valid vm signals (current.faithful vm valid).2
  have afterCurrent := CkbVm.step_current vm signals current
  rw [GdbServer.stepOn] at stepped
  rw [stepped] at afterValid afterCurrent
  refine CkbVm.refreshing_loop_faithful vm signals (fun s => s.1.machine) Prod.snd afterValid
    (fun down => afterCurrent (.inl down)) (fun s next went => ?_) reached
  have round := GdbServer.vcontRound_cases vm inRange s.1 s.2
  rw [went] at round
  cases round with
  | again looks executed => exact (congrArg Prod.snd executed).symm

/-! ### Loops that do not -/

theorem machineStep_faithful (signals : ExecSignals vm) {display : M → String}
    {skipRange : Option (UInt64 × UInt64)} {level : Nat} {m : M} {code : Nat → Set UInt64}
    (disjoint : DisjointCode code)
    (inside : ∀ s, Loop.Reaches (machineStepRound vm display skipRange level)
      ⟨vm.setRunning true m, .build, []⟩ s → vm.pc s.machine ∈ code (vm.execs s.machine)) {s : Stepping M}
    (reached : Loop.Reaches (machineStepRound vm display skipRange level)
      ⟨vm.setRunning true m, .build, []⟩ s) :
    Faithful vm s.decoder s.machine := by
  refine CkbVm.stepping_loop_faithful vm signals Stepping.machine Stepping.decoder disjoint
    (CkbVm.valid_build vm _) (CkbVm.apart_build code) (fun s next went => ?_) inside reached
  simp only [machineStepRound] at went
  split at went
  · split at went
    next m d executed =>
      cases went
      exact (congrArg Prod.snd executed).symm
    · cases went
  · cases went

/-- What the probe loop writes out is a step of the machine. -/
theorem probeRound_again {s next : M × Decoder} (went : probeRound vm s = .again next) :
    next = (vm.step s.1 s.2).2 := by
  simp only [probeRound] at went
  split at went
  · split at went
    · cases went
    next inst d decoded =>
      split at went
      · cases went
      next counted added =>
        split at went
        · cases went
        next m executed =>
          cases went
          simp only [Vm.step, decoded, Vm.perform, added, executed]
  · cases went

theorem probe_faithful (signals : ExecSignals vm) {m : M} {code : Nat → Set UInt64}
    (disjoint : DisjointCode code)
    (inside : ∀ s, Loop.Reaches (probeRound vm) (vm.setRunning true m, .build) s →
      vm.pc s.1 ∈ code (vm.execs s.1)) {s : M × Decoder}
    (reached : Loop.Reaches (probeRound vm) (vm.setRunning true m, .build) s) : Faithful vm s.2 s.1 :=
  CkbVm.stepping_loop_faithful vm signals Prod.fst Prod.snd disjoint (CkbVm.valid_build vm _)
    (CkbVm.apart_build code)
    (fun _ _ went => probeRound_again vm went) inside reached

/-! ### Up to an exec or a spawn -/

section Sget

variable {S : Type} (host : Host M S)

/-- The decodes of a round of the inner loop: the one that looks for a syscall, and the one
of the step, which a spawn makes on a machine with few cycles left. -/
structure SgetFaithful (s : Sget M S) : Prop where
  peek : Faithful vm s.decoder s.machine
  step : Faithful vm (s.decoder.decode vm s.machine).2 s.machine
  spawn : ∀ cycles, Faithful vm (s.decoder.decode vm s.machine).2 (host.setCycles cycles s.machine)

/-- The decoder has never been wrong, and in the inner loop its entries are those of the
machine's program. -/
def SgetSound (s : Sget M S) : Prop :=
  s.decoder.stale = false ∧ (s.inner = true → Valid vm s.decoder s.machine ∧ Current vm s.decoder s.machine)

/-- The way back to the outer loop asks nothing of the entries. -/
theorem afterInner_sound {s next : Sget M S} (fresh : s.decoder.stale = false)
    (went : s.afterInner vm host = .again next) : SgetSound vm next := by
  simp only [Sget.afterInner] at went
  split at went
  · cases went
    exact ⟨fresh, fun inner => absurd inner Bool.false_ne_true⟩
  · split at went
    · split at went
      · cases went
        exact ⟨fresh, fun inner => absurd inner Bool.false_ne_true⟩
      · cases went
    · cases went

theorem step_stale {d : Decoder} {m : M} (faithful : Faithful vm d m) : (vm.step m d).2.2.stale = false := by
  rw [CkbVm.step_decoder]
  exact faithful.fresh

variable (signals : ExecSignals vm) (cycles : ∀ n m, Keeps vm m (host.setCycles n m))
  (execOnly : ∀ inst m, vm.execs (vm.perform inst m).2 ≠ vm.execs m →
    inst.opcode = .ecall ∧ vm.registers m A7 = execSyscall)

include signals cycles

omit signals in
theorem sgetFaithful_of_current {s : Sget M S} (valid : Valid vm s.decoder s.machine)
    (current : Current vm s.decoder s.machine) : SgetFaithful vm host s := by
  obtain ⟨faithful, decoded⟩ := current.faithful vm valid
  have still := CkbVm.decode_current vm current
  refine ⟨faithful, (still.faithful vm decoded).1, fun n => ?_⟩
  have kept := cycles n s.machine
  have there : Current vm (s.decoder.decode vm s.machine).2 (host.setCycles n s.machine) := by
    intro slot entry cached
    rw [kept.same]
    exact still slot entry cached
  exact (there.faithful vm (decoded.advance vm kept.toAdvances)).1

include execOnly

omit cycles in
/-- An instruction that is no exec syscall leaves the entries current. -/
theorem plain_step_current {d : Decoder} {m : M} {inst : Instruction} {decoder : Decoder}
    (decoded : d.decode vm m = (.ok inst, decoder))
    (plain : ¬(inst.opcode = .ecall ∧ vm.registers m A7 = execSyscall)) (valid : Valid vm d m)
    (current : Current vm d m) :
    Valid vm (vm.step m d).2.2 (vm.step m d).2.1 ∧ Current vm (vm.step m d).2.2 (vm.step m d).2.1 := by
  refine ⟨CkbVm.step_valid vm signals (current.faithful vm valid).2, ?_⟩
  apply CkbVm.step_current vm signals current
  refine .inr ?_
  by_contra exec
  simp only [Vm.step, decoded] at exec
  exact plain (execOnly inst m exec)

theorem sgetRound_sound {s next : Sget M S} (sound : SgetSound vm s)
    (went : sgetRound vm host s = .again next) : SgetSound vm next := by
  simp only [sgetRound] at went
  split at went
  next inner =>
    obtain ⟨valid, current⟩ := sound.2 inner
    obtain ⟨_, step, spawn⟩ := sgetFaithful_of_current vm host cycles valid current
    split at went
    · split at went
      · cases went
      next inst d decoded =>
        have peeked : (s.decoder.decode vm s.machine).2 = d := by rw [decoded]
        rw [peeked] at step spawn
        split at went
        next exec =>
          -- the decoder goes back to the outer loop as the step has left it, or empty
          have fresh := step_stale vm step
          simp only [Sget.onExec] at went
          split at went
          · cases went
          next m d' stepped =>
            rw [stepped] at fresh
            refine afterInner_sound vm host ?_ went
            simp only [CkbVm.refresh]
            split <;> exact fresh
        next plain =>
          split at went
          next child =>
            have fresh := step_stale vm (spawn (host.maxCycles s.machine - 500))
            simp only [Sget.onSpawn] at went
            split at went
            · cases went
            · exact afterInner_sound vm host fresh went
            · exact afterInner_sound vm host fresh went
          next other =>
            have after := plain_step_current vm signals execOnly decoded plain valid current
            rw [← CkbVm.step_decode, peeked] at after
            split at went
            · cases went
            next m d' stepped =>
              cases went
              rw [stepped] at after
              exact ⟨after.1.fresh, fun _ => after⟩
    · exact afterInner_sound vm host sound.1 went
  · split at went
    · cases went
    · cases went
      exact ⟨sound.1, fun _ => ⟨CkbVm.valid_reset vm sound.1 _, CkbVm.current_reset vm _ _⟩⟩

theorem sget_faithful {machine : M} {specify : Nat} {suspended : List (ResumableMachine M S)} {s : Sget M S}
    (reached : Loop.Reaches (sgetRound vm host) (.start machine specify suspended) s)
    (inner : s.inner = true) : SgetFaithful vm host s := by
  have start : SgetSound vm (Sget.start machine specify suspended) :=
    ⟨rfl, fun inner => absurd inner Bool.false_ne_true⟩
  have sound := reached.invariant start fun _ _ sound went =>
    sgetRound_sound vm host signals cycles execOnly sound went
  obtain ⟨valid, current⟩ := sound.2 inner
  exact sgetFaithful_of_current vm host cycles valid current

end Sget

end Machine

/-! ### All loops -/

section Loops

variable {M S : Type} (vm : Machine M) (host : Host M S)

/-- In every loop every decode is right: for the first three without a condition, for the
others as long as the programs before and after an exec keep apart. -/
structure CachesCoherent : Prop where
  /-- What a right decode is good for: the same instructions are executed in every mode. -/
  determined : ∀ d m, Faithful vm.toVm d m → ((vm.step m d).1, (vm.step m d).2.1) = vm.fetchStep m
  pprofRun : ∀ (symbolsOf : M → Pprof.Symbols) m symbols s,
    Loop.Reaches (Pprof.PProfMachine.runRound vm.toVm symbolsOf) (.start vm.toVm m symbols) s →
    let refreshed := s.refresh vm.toVm symbolsOf
    Faithful vm.toVm refreshed.decoder refreshed.machine ∧
      Faithful vm.toVm (refreshed.decoder.decode vm.toVm refreshed.machine).2 refreshed.machine
  vcont : ∀ (h : GdbServer.Handler M),
    Faithful vm.toVm (CkbVm.refresh vm.toVm h.machine .build).2 (CkbVm.refresh vm.toVm h.machine .build).1 ∧
    ∀ inRange m d s, GdbServer.stepOn vm.toVm h.machine .build = (.ok (), m, d) →
      Loop.Reaches (GdbServer.vcontRound vm.toVm inRange) ({ h with machine := m }, d) s →
      Faithful vm.toVm (CkbVm.refresh vm.toVm s.1.machine s.2).2 (CkbVm.refresh vm.toVm s.1.machine s.2).1
  machineSget : ∀ machine specify suspended s,
    Loop.Reaches (sgetRound vm.toVm host) (.start machine specify suspended) s → s.inner = true →
    SgetFaithful vm.toVm host s
  stubStep : ∀ machine code steps h, GdbStub.Handler.Debugged vm machine steps h →
    ∀ (Ω : Type) (poll : Ω → Bool × Ω) rounds polled,
    (∀ g ∈ steps ++ h.stepCalls vm poll rounds polled,
      GdbStub.Inside vm code g ∧ GdbStub.Inside vm code (g.step vm).2 ∧ GdbStub.EntersApart vm code g) →
    ∀ g ∈ steps ++ h.stepCalls vm poll rounds polled, GdbStub.StepFaithful vm g
  stubRunTillExited : ∀ machine code, DisjointCode code →
    ∀ steps h, GdbStub.Handler.Debugged vm machine steps h →
    (∀ g ∈ steps, GdbStub.Inside vm code g ∧ GdbStub.Inside vm code (g.step vm).2) →
    (∀ s, Loop.Reaches (GdbStub.runTillExitedRound vm) h s → GdbStub.Inside vm code s) →
    ∀ s, Loop.Reaches (GdbStub.runTillExitedRound vm) h s → Faithful vm.toVm s.decoder s.machine
  machineStep : ∀ display skipRange level m code, DisjointCode code →
    (∀ s, Loop.Reaches (machineStepRound vm.toVm display skipRange level) ⟨vm.setRunning true m, .build, []⟩ s →
      vm.pc s.machine ∈ code (vm.execs s.machine)) →
    ∀ s, Loop.Reaches (machineStepRound vm.toVm display skipRange level) ⟨vm.setRunning true m, .build, []⟩ s →
      Faithful vm.toVm s.decoder s.machine
  probe : ∀ m code, DisjointCode code →
    (∀ s, Loop.Reaches (probeRound vm.toVm) (vm.setRunning true m, .build) s →
      vm.pc s.1 ∈ code (vm.execs s.1)) →
    ∀ s, Loop.Reaches (probeRound vm.toVm) (vm.setRunning true m, .build) s → Faithful vm.toVm s.2 s.1

/-- No loop takes an instruction from an entry that is older than the latest exec, under the
conditions that `CachesCoherent` puts on the loops that do not test the reset signal in time. -/
theorem caches_coherent (signals : ExecSignals vm.toVm) (touches : GdbStub.Touches vm)
    (cycles : ∀ n m, Keeps vm.toVm m (host.setCycles n m))
    (execOnly : ∀ inst m, vm.execs (vm.toVm.perform inst m).2 ≠ vm.execs m →
      inst.opcode = .ecall ∧ vm.registers m A7 = execSyscall) : CachesCoherent vm host where
  determined := fun _ _ faithful => faithful.step_eq vm.toVm
  pprofRun := by
    intro symbolsOf m symbols s reached
    have faithful := pprofRun_faithful vm.toVm signals symbolsOf reached
    exact ⟨faithful, faithful.again vm.toVm⟩
  vcont := fun h => ⟨stepOn_faithful vm.toVm signals h.machine,
    fun _ _ _ _ stepped reached => vcont_faithful vm.toVm signals stepped reached⟩
  machineSget := fun _ _ _ _ reached inner =>
    sget_faithful vm.toVm host signals cycles execOnly reached inner
  stubStep := fun _ _ _ _ debugged _ poll rounds polled apart =>
    GdbStub.debugged_stepFaithful vm signals touches debugged poll rounds polled apart
  stubRunTillExited := fun _ _ disjoint _ _ debugged inside stays _ runs =>
    GdbStub.runTillExited_faithful vm signals touches disjoint debugged inside stays runs
  machineStep := fun _ _ _ _ _ disjoint inside _ reached =>
    machineStep_faithful vm.toVm signals disjoint inside reached
  probe := fun _ _ disjoint inside _ reached => probe_faithful vm.toVm signals disjoint inside reached

end Loops

/-! ### An exec to the same address and to another one -/

/-- A program whose only instruction is an exec, to a program that starts at `target` with an
invalid instruction. The machine is the program counter, the number of execs and the
reset signal. -/
def execTo (target : UInt64) : Machine (UInt64 × Nat × Bool) where
  pc := fun m => m.1
  registers := fun _ _ => 2043
  isa := fun _ => 0
  version := fun _ => 2
  running := fun _ => true
  setRunning := fun _ m => m
  exitCode := fun _ => 0
  resetSignal := fun m => (m.2.2, (m.1, m.2.1, false))
  load8 := fun _ _ => .ok 0
  instructionCycleFunc := fun _ => 1
  addCycles := fun _ m => (.ok (), m)
  fetch := fun m _ => .ok (if m.2.1 = 0 then ⟨.ecall, 4, 0, CkbVm.ZERO, 0x73⟩ else ⟨.other, 4, 0, CkbVm.ZERO, 0⟩)
  slot := UInt64.toNat
  execs := fun m => m.2.1
  perform
    | .ecall, m => (.ok (), (target, m.2.1 + 1, true))
    | op, m => (op.zero, m)
  execute := fun inst m =>
    if inst.opcode = .ecall then (.ok (), (target, m.2.1 + 1, true)) else (.error (.vm 0), m)
  program := fun inst => if inst.opcode = .ecall then .call .ecall .done else .done (.error (.vm 0))
  executes := by
    intro inst m
    by_cases exec : inst.opcode = .ecall
    · simp only [if_pos exec]
      rfl
    · simp only [if_neg exec]
      rfl

def idleHost {M : Type} : Host M Unit where
  cycles := fun _ => 0
  maxCycles := fun _ => 0
  setCycles := fun _ m => m
  setMaxCycles := fun _ m => m
  suspends := fun _ => []
  updateCallerMachine := fun m _ _ _ => (.ok (), m)

section ExecTo

variable (target : UInt64)

theorem execTo_same (m next : UInt64 × Nat × Bool) (same : next.2.1 = m.2.1) :
    Advances (execTo target).toVm m next := by
  refine ⟨Nat.le_of_eq same.symm, fun _ pc inst fetched => ?_⟩
  rw [← fetched]
  simp only [execTo, same]

theorem execTo_exec (m : UInt64 × Nat × Bool) :
    Advances (execTo target).toVm m (target, m.2.1 + 1, true) :=
  ⟨Nat.le_succ m.2.1, fun same => absurd same (Nat.succ_ne_self m.2.1)⟩

theorem execTo_signals : ExecSignals (execTo target).toVm where
  execute := by
    intro inst m
    by_cases exec : inst.opcode = .ecall
    · simp only [execTo, if_pos exec]
      exact execTo_exec target m
    · simp only [execTo, if_neg exec]
      exact execTo_same target m m rfl
  raised := by
    intro inst m changed
    by_cases exec : inst.opcode = .ecall
    · simp only [execTo, if_pos exec]
      rfl
    · simp only [execTo, if_neg exec] at changed
      exact absurd rfl changed
  cleared := fun _ => rfl
  addCycles := fun _ m => ⟨execTo_same target m m rfl, rfl, rfl⟩
  resetSignal := fun m => ⟨execTo_same target m _ rfl, rfl, rfl⟩

theorem execTo_touches : GdbStub.Touches (execTo target) := by
  intro op access m
  cases op with
  | ecall => exact access.elim
  | _ => exact ⟨execTo_same target m m rfl, rfl, id⟩

theorem execTo_execOnly (inst : Instruction) (m : UInt64 × Nat × Bool)
    (changed : (execTo target).execs ((execTo target).toVm.perform inst m).2 ≠ (execTo target).execs m) :
    inst.opcode = .ecall ∧ (execTo target).registers m A7 = execSyscall := by
  refine ⟨?_, rfl⟩
  by_contra other
  simp only [Vm.perform, execTo, if_neg other] at changed
  exact absurd rfl changed

end ExecTo

/-- The range that `--skip-start` and `--skip-end` give, here all of the memory. -/
def everywhere : Option (UInt64 × UInt64) := some (0, 0x400000)

/-- With both programs at the same address, `--step` takes the instruction of the old one
from the cache, and so does the peek of the gdbstub backend. -/
theorem exec_to_same_address_stale :
    (∃ s, Loop.Reaches (machineStepRound (execTo 0x1000).toVm (fun _ => "") everywhere 1)
      ⟨(0x1000, 0, false), .build, []⟩ s ∧ ¬Faithful (execTo 0x1000).toVm s.decoder s.machine) ∧
    ¬GdbStub.StepFaithful (execTo 0x1000) (.new (0x1000, 0, false)) := by
  constructor
  · refine ⟨_, .again .start rfl, fun faithful => ?_⟩
    cases faithful.fresh
  · intro faithful
    cases (faithful.next rfl rfl).fresh

/-- The states of a loop that leaves in its second round. -/
theorem reaches_two {σ ρ : Type} {round : σ → Loop.Round σ ρ} {start next s : σ} {result : ρ}
    (goes : round start = .again next) (leaves : round next = .leave result)
    (reached : Loop.Reaches round start s) : s = start ∨ s = next := by
  induction reached with
  | start => exact .inl rfl
  | again _ went ih =>
    rcases ih with rfl | rfl
    · exact .inr (Loop.Round.again.inj (went.symm.trans goes))
    · cases leaves.symm.trans went

/-- With the new program elsewhere, `--step` follows the exec, and so do a session of the gdbstub
backend, with its peek, and the run to the end without the debugger. -/
theorem exec_to_other_address_faithful :
    (∃ next, machineStepRound (execTo 0x2000).toVm (fun _ => "") everywhere 1 ⟨(0x1000, 0, false), .build, []⟩ =
        .again next ∧ next.machine = (0x2000, 1, true) ∧
      Faithful (execTo 0x2000).toVm next.decoder next.machine) ∧
    (∃ steps h, GdbStub.Handler.Debugged (execTo 0x2000) (0x1000, 0, false) steps h ∧
      steps.map (fun g => g.machine) = [(0x1000, 0, false), (0x2000, 1, true)] ∧
      ∀ g ∈ steps, GdbStub.StepFaithful (execTo 0x2000) g) ∧
    ∃ next, GdbStub.runTillExitedRound (execTo 0x2000) (.new (0x1000, 0, false)) = .again next ∧
      next.machine = (0x2000, 1, true) ∧ Faithful (execTo 0x2000).toVm next.decoder next.machine := by
  have coherent := caches_coherent (execTo 0x2000) idleHost (execTo_signals 0x2000) (execTo_touches 0x2000)
    (fun _ m => ⟨execTo_same 0x2000 m m rfl, rfl, rfl⟩) (execTo_execOnly 0x2000)
  let code : Nat → Set UInt64 := fun execs pc => (execs = 0 ∧ pc = 0x1000) ∨ (execs = 1 ∧ pc = 0x2000)
  have disjoint : DisjointCode code := by
    rintro i j pc (⟨rfl, rfl⟩ | ⟨rfl, rfl⟩) (⟨rfl, other⟩ | ⟨rfl, other⟩)
    · rfl
    · exact absurd other (by decide)
    · exact absurd other (by decide)
    · rfl
  refine ⟨?_, ?_, ?_⟩
  · -- the loop begins two rounds: at the exec, and at the instruction that fails
    obtain ⟨next, goes, there, result, leaves⟩ : ∃ next,
        machineStepRound (execTo 0x2000).toVm (fun _ => "") everywhere 1 ⟨(0x1000, 0, false), .build, []⟩ =
          .again next ∧ next.machine = (0x2000, 1, true) ∧
        ∃ result, machineStepRound (execTo 0x2000).toVm (fun _ => "") everywhere 1 next = .leave result :=
      ⟨_, rfl, rfl, _, rfl⟩
    refine ⟨next, goes, there, coherent.machineStep (fun _ => "") everywhere 1 (0x1000, 0, false) code disjoint
      (fun s reached => ?_) next (.again .start goes)⟩
    rcases reaches_two goes leaves reached with rfl | rfl
    · exact .inl ⟨rfl, rfl⟩
    · rw [there]
      exact .inr ⟨rfl, rfl⟩
  · -- one call of `execute` takes both steps
    let first : GdbStub.Handler (UInt64 × Nat × Bool) := .new (0x1000, 0, false)
    let second := (first.step (execTo 0x2000)).2
    obtain ⟨last, session⟩ : ∃ last, GdbStub.Handler.Debugged (execTo 0x2000) (0x1000, 0, false) [first, second] last :=
      ⟨_, .execute .new (fun _ : Unit => (false, ())) 2 () () (.error (.vm 0)) rfl⟩
    refine ⟨_, _, session, rfl, ?_⟩
    -- no other call is under way
    have faithful := coherent.stubStep _ code _ _ session Unit (fun _ => (true, ())) 0 ()
    simp only [GdbStub.Handler.stepCalls, List.append_nil] at faithful
    refine faithful (List.forall_mem_cons.mpr ⟨⟨?_, ?_, ?_⟩, List.forall_mem_cons.mpr ⟨⟨?_, ?_, ?_⟩, by simp⟩⟩)
    · exact .inl ⟨rfl, rfl⟩
    · exact .inr ⟨rfl, rfl⟩
    · exact .inr (by rintro (⟨_, other⟩ | ⟨other, _⟩) <;> exact absurd other (by decide))
    · exact .inr ⟨rfl, rfl⟩
    · exact .inr ⟨rfl, rfl⟩
    · exact .inl rfl
  · obtain ⟨next, goes, there, result, leaves⟩ : ∃ next,
        GdbStub.runTillExitedRound (execTo 0x2000) (.new (0x1000, 0, false)) = .again next ∧
          next.machine = (0x2000, 1, true) ∧
        ∃ result, GdbStub.runTillExitedRound (execTo 0x2000) next = .leave result :=
      ⟨_, rfl, rfl, _, rfl⟩
    refine ⟨next, goes, there, coherent.stubRunTillExited _ code disjoint _ _ .new (by simp)
      (fun s reached => ?_) next (.again .start goes)⟩
    rcases reaches_two goes leaves reached with rfl | rfl
    · exact .inl ⟨rfl, rfl⟩
    · rw [GdbStub.Inside, there]
      exact .inr ⟨rfl, rfl⟩

end Cli
