import CkbDebugger.Pprof.Profile

/-!
# Profiled runs

`PProfMachine::run` lets the profiler look at every instruction before the machine
executes it. The run should be the one that the machine makes by itself.
-/
namespace Pprof

open Tree (Arena)
open CkbVm (Vm Decoder Error Instruction ZERO SP)

/-- What `Profile::new` reads out of a program: its entry, its function symbols and
the symbols `_sbrk` and `_end`. -/
structure Symbols where
  entry : UInt64
  functions : UInt64 → Bool
  sbrk : UInt64
  heapStart : UInt64

def Symbols.profile (symbols : Symbols) : Profile :=
  .new symbols.entry symbols.functions symbols.sbrk symbols.heapStart

/-- The machine with its profile, and the decoder of `run`. -/
structure PProfMachine (M : Type) where
  machine : M
  profile : Profile
  decoder : Decoder

section Run

-- `code` is what the program in a machine tells `Profile::new`
variable {M : Type} (vm : Vm M) (code : M → Symbols)

/-- The machine as the profiler finds it. -/
def view (m : M) (d : Decoder) : View where
  pc := vm.pc m
  registers := vm.registers m
  decoded := (d.decode vm m).1
  instructionCycleFunc := vm.instructionCycleFunc

def PProfMachine.view (state : PProfMachine M) : View := Pprof.view vm state.machine state.decoder

/-- After an exec the decoder forgets, and the profile is made anew. -/
def PProfMachine.refresh (state : PProfMachine M) : PProfMachine M where
  machine := (CkbVm.refresh vm state.machine state.decoder).1
  profile := if (vm.resetSignal state.machine).1 then (code (vm.resetSignal state.machine).2).profile
    else state.profile
  decoder := (CkbVm.refresh vm state.machine state.decoder).2

/-- The body of the loop of `run`; `none` is a panic. -/
def PProfMachine.runRound (state : PProfMachine M) :
    Loop.Round (PProfMachine M) (Option (Except Error Int8 × M)) :=
  if vm.running state.machine then
    let state := state.refresh vm code
    match state.profile.step (state.view vm) with
    | none => .leave none
    | some (.error e, _) => .leave (some (.error e, state.machine))
    | some (.ok (), profile) =>
      match vm.step state.machine (state.decoder.decode vm state.machine).2 with
      | (.ok (), m, d) => .again ⟨m, profile, d⟩
      | (.error e, m, _) => .leave (some (.error e, m))
  else .leave (some (.ok (vm.exitCode state.machine), state.machine))

/-- `PProfMachine::run`, as far as it gets in a number of rounds. -/
def PProfMachine.run (rounds : Nat) (m : M) (profile : Profile) :
    Option (Option (Except Error Int8 × M)) :=
  if vm.isa m &&& CkbVm.isaMop ≠ 0 ∧ vm.version m = CkbVm.version0 then
    some (some (.error .invalidVersion, m))
  else Loop.run (PProfMachine.runRound vm code) rounds ⟨vm.setRunning true m, profile, .build⟩

end Run

/-! ### When the profiler panics -/

/-- The next instruction jumps to address 0, where there is no function, while no
activation above the root returns to address 0: the link of the root is taken
for a return address. -/
def Profile.QuitsRoot (p : Profile) (view : View) : Prop :=
  ∃ inst, p.decodes view = some inst ∧ view.jumpTarget inst = some 0 ∧ p.cacheFun 0 = false ∧
    ∀ node ∈ p.trie.ancestors p.trieNode, node ≠ 0 → (p.trie.label node).link ≠ 0

theorem quitOrSkip_eq_none_iff (p : Profile) (view : View) (addr : UInt64) :
    p.quitOrSkip view addr = none ↔
      (p.trie.ancestors p.trieNode).find? (fun f => (p.trie.label f).link == addr) = some 0 := by
  cases found : (p.trie.ancestors p.trieNode).find? fun f => (p.trie.label f).link == addr with
  | none =>
    rw [quitOrSkip_of_none found]
    simp
  | some f =>
    have below := Arena.ancestors_le p.trie p.trieNode f (List.mem_of_find?_eq_some found)
    have inside := p.inside
    constructor
    · intro panics
      -- every node but the root has a parent to go to
      by_contra other
      obtain ⟨q, known⟩ := p.trie.rooted f (by simp only [Option.some.injEq] at other; omega) (by omega)
      obtain ⟨left, returned, _⟩ := @quitOrSkip_of_find p view addr f q found known
      rw [returned] at panics
      cases panics
    · intro root
      obtain rfl := Option.some.inj root
      unfold Profile.quitOrSkip
      rw [found]
      simp only
      split
      next q known =>
        rw [p.trie.root] at known
        cases known
      · rfl

theorem step_eq_none_iff (p : Profile) (view : View) (rooted : (p.trie.label 0).link = 0) :
    p.step view = none ↔ p.QuitsRoot view := by
  cases decoded : p.decodes view with
  | none =>
    obtain ⟨e, stepped, _⟩ := step_of_decodes_none decoded
    simp [stepped, Profile.QuitsRoot, decoded]
  | some inst =>
    rw [step_of_decodes decoded]
    cases jump : view.jumpTarget inst with
    | none => simp [Profile.QuitsRoot, decoded, jump]
    | some addr =>
      simp only
      split
      next symbol =>
        constructor
        · intro returned
          cases returned
        · rintro ⟨inst', decoded', jump', plain, _⟩
          obtain rfl := Option.some.inj (decoded.symm.trans decoded')
          obtain rfl := Option.some.inj (jump.symm.trans jump')
          rw [plain] at symbol
          cases symbol
      next plain =>
        rw [Option.map_eq_none_iff, quitOrSkip_eq_none_iff, find_charged,
          Arena.find_ancestors_root_iff p.trie _ p.trieNode p.inside, rooted]
        -- the root's link is 0, so that the search ends there for address 0 only
        simp only [beq_iff_eq, beq_eq_false_iff_ne, Profile.QuitsRoot]
        constructor
        · rintro ⟨rfl, others⟩
          exact ⟨inst, decoded, jump, Bool.eq_false_iff.mpr plain, others⟩
        · rintro ⟨inst', decoded', jump', _, others⟩
          obtain rfl := Option.some.inj (decoded.symm.trans decoded')
          obtain rfl := Option.some.inj (jump.symm.trans jump')
          exact ⟨rfl, others⟩

/-- No step gives the root another link. -/
theorem steps_root_link {p q : Profile} {view : View} (steps : p.Steps view q)
    (rooted : (p.trie.label 0).link = 0) : (q.trie.label 0).link = 0 := by
  cases steps with
  | failed => exact rooted
  | stayed inst _ _ => rw [charge_link, rooted]
  | called inst _ addr _ _ =>
    have occupied := p.trie.occupied
    have old : ((p.charge (view.instructionCycleFunc inst) view.pc).call view addr
        (view.link inst)).trie.label 0 =
        (p.charge (view.instructionCycleFunc inst) view.pc).trie.label 0 := if_neg (by
      show 0 ≠ p.trie.size
      omega)
    rw [old, charge_link, rooted]
  | quit inst _ addr _ _ _ returned =>
    rcases quitOrSkip_trie returned with same | relabelled
    · rw [same, charge_link, rooted]
    · rw [relabelled, Arena.relabel_keeps TrieNode.link (by intro _; rfl), charge_link, rooted]

/-! ### Profiled and plain runs -/

section Run

variable {M : Type} (vm : Vm M) (code : M → Symbols)

/-- The profiled run has stopped because of the heap, or is where the plain run is:
still going after as many rounds, or with the same result and machine. -/
def Observes (profiled : Option (Option (Except Error Int8 × M)))
    (plain : Option (Except Error Int8 × M)) : Prop :=
  (∃ e m, HeapStackOverlap e ∧ profiled = some (some (.error e, m))) ∨ profiled = plain.map some

/-- The next round makes the profiler panic. -/
def PProfMachine.QuitsRoot (state : PProfMachine M) : Prop :=
  vm.running state.machine = true ∧
    (state.refresh vm code).profile.QuitsRoot ((state.refresh vm code).view vm)

theorem refresh_root_link {state : PProfMachine M}
    (rooted : (state.profile.trie.label 0).link = 0) :
    ((state.refresh vm code).profile.trie.label 0).link = 0 := by
  simp only [PProfMachine.refresh]
  split
  · rfl
  · exact rooted

theorem runRound_root_link {state next : PProfMachine M}
    (rooted : (state.profile.trie.label 0).link = 0)
    (went : PProfMachine.runRound vm code state = .again next) :
    (next.profile.trie.label 0).link = 0 := by
  simp only [PProfMachine.runRound] at went
  split at went
  · split at went
    · cases went
    · cases went
    next profile stepped =>
      split at went
      · cases went
        exact steps_root_link (step_steps stepped) (refresh_root_link vm code rooted)
      · cases went
  · cases went

/-- A round panics exactly when a jump to address 0 is taken for a return. -/
theorem runRound_eq_panic_iff {state : PProfMachine M}
    (rooted : (state.profile.trie.label 0).link = 0) :
    PProfMachine.runRound vm code state = .leave none ↔ state.QuitsRoot vm code := by
  have panics := step_eq_none_iff (state.refresh vm code).profile ((state.refresh vm code).view vm)
    (refresh_root_link vm code rooted)
  simp only [PProfMachine.runRound, PProfMachine.QuitsRoot]
  split
  next running =>
    rw [← panics, running]
    split
    next stepped => simp [stepped]
    next e _ stepped => simp [stepped]
    next profile stepped =>
      rw [stepped]
      split <;> simp
  next stopped => simp [stopped]

/-- A round that does not panic stops because of the heap, or does what a round of the
plain run does. -/
theorem runRound_follows {state : PProfMachine M}
    (safe : PProfMachine.runRound vm code state ≠ .leave none) :
    (∃ result, PProfMachine.runRound vm code state = .leave result ∧
      ∃ e m, HeapStackOverlap e ∧ result = some (.error e, m)) ∨
    (∃ result, PProfMachine.runRound vm code state = .leave (some result) ∧
      CkbVm.runRound vm (state.machine, state.decoder) = .leave result) ∨
    ∃ next, PProfMachine.runRound vm code state = .again next ∧
      CkbVm.runRound vm (state.machine, state.decoder) = .again (next.machine, next.decoder) := by
  simp only [PProfMachine.runRound, CkbVm.runRound] at safe ⊢
  split
  next running =>
    rw [if_pos running] at safe
    -- both loops test the signal first, and come to the same machine and decoder
    have machine : (state.refresh vm code).machine = (CkbVm.refresh vm state.machine state.decoder).1 := rfl
    have decoder : (state.refresh vm code).decoder = (CkbVm.refresh vm state.machine state.decoder).2 := rfl
    rw [← machine, ← decoder, CkbVm.step_decode]
    rw [CkbVm.step_decode] at safe
    cases looked : (state.refresh vm code).profile.step ((state.refresh vm code).view vm) with
    | none =>
      rw [looked] at safe
      exact absurd rfl safe
    | some answer =>
      obtain ⟨result, profile⟩ := answer
      cases result with
      | error e =>
        rcases step_error looked with overlap | undecoded
        · exact .inl ⟨_, rfl, e, _, overlap, rfl⟩
        · rw [CkbVm.step_decode_error vm undecoded]
          exact .inr (.inl ⟨_, rfl, rfl⟩)
      | ok _ =>
        cases vm.step (state.refresh vm code).machine (state.refresh vm code).decoder with
        | mk result after =>
          cases result with
          | error e => exact .inr (.inl ⟨_, rfl, rfl⟩)
          | ok _ => exact .inr (.inr ⟨_, rfl, rfl⟩)
  next stopped =>
    exact .inr (.inl ⟨_, rfl, rfl⟩)

/-- The state in which the loop of `run` is entered. -/
def PProfMachine.start (m : M) (symbols : Symbols) : PProfMachine M :=
  ⟨vm.setRunning true m, symbols.profile, .build⟩

theorem reached_root_link {m : M} {symbols : Symbols} {state : PProfMachine M}
    (reached : Loop.Reaches (PProfMachine.runRound vm code) (PProfMachine.start vm m symbols) state) :
    (state.profile.trie.label 0).link = 0 := by
  let Rooted := fun s : PProfMachine M => (s.profile.trie.label 0).link = 0
  have kept : ∀ s next, Rooted s → PProfMachine.runRound vm code s = .again next → Rooted next :=
    fun _ _ rooted went => runRound_root_link vm code rooted went
  exact reached.invariant (show Rooted _ from rfl) kept

/-- A profiled run observes the plain run, however long the two go on, if and only if
it comes to no jump to address 0 that it takes for a return from the root. -/
theorem run_observes_iff (m : M) (symbols : Symbols) :
    (∀ rounds, Observes (PProfMachine.run vm code rounds m symbols.profile) (vm.run rounds m)) ↔
      vm.isa m &&& CkbVm.isaMop ≠ 0 ∧ vm.version m = CkbVm.version0 ∨
      ∀ state, Loop.Reaches (PProfMachine.runRound vm code) (PProfMachine.start vm m symbols) state →
        ¬state.QuitsRoot vm code := by
  by_cases refused : vm.isa m &&& CkbVm.isaMop ≠ 0 ∧ vm.version m = CkbVm.version0
  · simp only [PProfMachine.run, Vm.run, if_pos refused]
    exact ⟨fun _ => .inl refused, fun _ _ => .inr rfl⟩
  · rw [or_iff_right refused]
    simp only [PProfMachine.run, Vm.run, if_neg refused]
    constructor
    · intro observes state reached quits
      -- after as many rounds as it takes to get there, the next one is a panic
      obtain ⟨before, ahead⟩ := reached.run_from
      have panics := (runRound_eq_panic_iff vm code (reached_root_link vm code reached)).mpr quits
      have panicked : Loop.run (PProfMachine.runRound vm code) (before + 1)
          (PProfMachine.start vm m symbols) = some none := by
        rw [ahead 1, Loop.run, panics]
      rcases observes (before + 1) with ⟨e, m', _, stopped⟩ | agrees
      · cases panicked.symm.trans stopped
      · have same := panicked.symm.trans agrees
        cases plain : Loop.run (CkbVm.runRound vm) (before + 1) (vm.setRunning true m, .build) with
        | none => rw [plain] at same; cases same
        | some result => rw [plain] at same; cases same
    · intro safe rounds
      -- the plain run's machine and decoder are those of the profiled run throughout
      let Follows := fun (s : PProfMachine M) (t : M × Decoder) => t = (s.machine, s.decoder)
      let Overlaps := fun result : Option (Except Error Int8 × M) =>
        ∃ e m, HeapStackOverlap e ∧ result = some (.error e, m)
      have step : ∀ s t, Loop.Reaches (PProfMachine.runRound vm code) (PProfMachine.start vm m symbols) s →
          Follows s t →
          (∃ result, PProfMachine.runRound vm code s = .leave result ∧ Overlaps result) ∨
          (∃ result, PProfMachine.runRound vm code s = .leave (some result) ∧
            CkbVm.runRound vm t = .leave result) ∨
          ∃ s' t', PProfMachine.runRound vm code s = .again s' ∧ CkbVm.runRound vm t = .again t' ∧
            Follows s' t' := by
        rintro s _ reached rfl
        have quiet : PProfMachine.runRound vm code s ≠ .leave none := fun panics =>
          safe s reached ((runRound_eq_panic_iff vm code (reached_root_link vm code reached)).mp panics)
        rcases runRound_follows vm code quiet with broken | left | ⟨next, went, same⟩
        · exact .inl broken
        · exact .inr (.inl left)
        · exact .inr (.inr ⟨next, _, went, same, rfl⟩)
      have started : Follows (PProfMachine.start vm m symbols) (vm.setRunning true m, .build) := rfl
      rcases Loop.run_follows Follows some Overlaps step rounds started with
        ⟨_, stopped, e, m', overlap, rfl⟩ | agrees
      · exact .inl ⟨e, m', overlap, stopped⟩
      · exact .inr agrees

end Run

/-! ### A jump to address 0 -/

/-- A program of one instruction at `0x10078`, `jalr x0, 0(x0)`, with no code at
address 0: the machine is its program counter and whether it is running. -/
def jumpToZero : Vm (UInt64 × Bool) where
  pc := Prod.fst
  registers := fun _ _ => 0
  isa := fun _ => 0
  version := fun _ => 2
  running := Prod.snd
  setRunning := fun flag m => (m.1, flag)
  exitCode := fun _ => 0
  resetSignal := fun m => (false, m)
  load8 := fun _ _ => .ok 0
  instructionCycleFunc := fun _ => 1
  addCycles := fun _ m => (.ok (), m)
  fetch := fun _ pc => if pc = 0x10078 then .ok ⟨.jalr, 4, 0, ZERO, 0x67⟩ else .error (.vm 0)
  execute := fun _ m => (.ok (), (0, m.2))
  slot := UInt64.toNat
  execs := fun _ => 0

/-- The plain run ends with an error of the machine, and the profiled one panics. -/
theorem jump_to_zero_panics :
    jumpToZero.run 2 (0x10078, false) = some (.error (.vm 0), (0, true)) ∧
    ¬∀ rounds, Observes (PProfMachine.run jumpToZero (fun _ => ⟨0x10078, fun _ => false, 0, 0⟩) rounds
      (0x10078, false) (Symbols.profile ⟨0x10078, fun _ => false, 0, 0⟩))
      (jumpToZero.run rounds (0x10078, false)) := by
  refine ⟨rfl, fun observes => ?_⟩
  have panicked : PProfMachine.run jumpToZero (fun _ => ⟨0x10078, fun _ => false, 0, 0⟩) 1
      (0x10078, false) (Symbols.profile ⟨0x10078, fun _ => false, 0, 0⟩) = some none := rfl
  have going : jumpToZero.run 1 (0x10078, false) = none := rfl
  rcases observes 1 with ⟨e, m, _, stopped⟩ | agrees
  · cases panicked.symm.trans stopped
  · rw [panicked, going] at agrees
    cases agrees

end Pprof
