import Mathlib.Data.Set.Defs
import CkbDebugger.CkbVm.Machine

/-!
# The instruction cache across an exec

An exec replaces the program and raises the reset signal; the decoder goes on with
the instructions in its cache until a loop resets it. What a loop has to do so that
no instruction of an earlier program is taken from the cache is said here once, for
a decode and for a step.
-/
namespace CkbVm

variable {M : Type} (vm : Vm M)

/-! ### What an exec does -/

def Vm.signal (m : M) : Bool := (vm.resetSignal m).1

/-- Code is replaced by an exec only: otherwise an instruction that can be decoded stays
where it is. -/
structure Advances (m next : M) : Prop where
  execs : vm.execs m ≤ vm.execs next
  code : vm.execs next = vm.execs m → ∀ pc inst, vm.fetch m pc = .ok inst → vm.fetch next pc = .ok inst

/-- The same program, at the same address. -/
structure Keeps (m next : M) : Prop extends Advances vm m next where
  same : vm.execs next = vm.execs m
  pc : vm.pc next = vm.pc m

/-- What the loops rely on: an exec raises the signal, and `reset_signal` clears it. -/
structure ExecSignals : Prop where
  execute : ∀ inst m, Advances vm m (vm.execute inst m).2
  raised : ∀ inst m, vm.execs (vm.execute inst m).2 ≠ vm.execs m → vm.signal (vm.execute inst m).2 = true
  cleared : ∀ m, vm.signal (vm.resetSignal m).2 = false
  addCycles : ∀ cycles m, Keeps vm m (vm.addCycles cycles m).2
  resetSignal : ∀ m, Keeps vm m (vm.resetSignal m).2

theorem Advances.trans {m next last : M} (first : Advances vm m next) (second : Advances vm next last) :
    Advances vm m last where
  execs := Nat.le_trans first.execs second.execs
  code := by
    intro same pc inst fetched
    have before := first.execs
    have after := second.execs
    exact second.code (by omega) pc inst (first.code (by omega) pc inst fetched)

/-! ### Decoding -/

/-- Every entry was made in the current program or an earlier one, and those of the
current one are what is in memory; nothing has been taken from an older entry. -/
structure Valid (d : Decoder) (m : M) : Prop where
  fresh : d.stale = false
  made : ∀ slot entry, d.cache slot = some entry → entry.made ≤ vm.execs m
  code : ∀ slot entry, d.cache slot = some entry → entry.made = vm.execs m →
    vm.fetch m entry.pc = .ok entry.inst

/-- All entries are of the current program. -/
def Current (d : Decoder) (m : M) : Prop :=
  ∀ slot entry, d.cache slot = some entry → entry.made = vm.execs m

/-- The programs of a run, numbered by the execs before them, have no address in common. -/
def DisjointCode (code : Nat → Set UInt64) : Prop := ∀ i j pc, pc ∈ code i → pc ∈ code j → i = j

/-- Every entry is at an address of the program that it was made in. -/
def Apart (code : Nat → Set UInt64) (d : Decoder) : Prop :=
  ∀ slot entry, d.cache slot = some entry → entry.pc ∈ code entry.made

/-- A decode here gives the instruction in memory, from no entry that is older than the
latest exec. -/
structure Faithful (d : Decoder) (m : M) : Prop where
  decoded : (d.decode vm m).1 = vm.fetch m (vm.pc m)
  fresh : (d.decode vm m).2.stale = false

/-- A decode after a right one at the same place is right. -/
theorem Faithful.again {d : Decoder} {m : M} (faithful : Faithful vm d m) :
    Faithful vm (d.decode vm m).2 m := by
  constructor
  · rw [decode_decode, faithful.decoded]
  · rw [decode_decode, faithful.fresh]

theorem lookup_eq_some {d : Decoder} {pc : UInt64} {entry : Entry}
    (found : d.lookup vm pc = some entry) : d.cache (vm.slot pc) = some entry ∧ entry.pc = pc := by
  obtain ⟨cached, same⟩ := Option.filter_eq_some_iff.mp found
  exact ⟨cached, beq_iff_eq.mp same⟩

/-! An empty cache, after `build_decoder` or a reset, is right for every machine. -/

theorem current_of_empty {d : Decoder} (empty : ∀ slot, d.cache slot = none) (m : M) : Current vm d m := by
  intro slot entry cached
  rw [empty] at cached
  cases cached

theorem valid_of_empty {d : Decoder} (empty : ∀ slot, d.cache slot = none) (fresh : d.stale = false) (m : M) :
    Valid vm d m := by
  refine ⟨fresh, fun slot entry cached => ?_, fun slot entry cached => ?_⟩
  · rw [empty] at cached
    cases cached
  · rw [empty] at cached
    cases cached

theorem apart_of_empty {d : Decoder} (empty : ∀ slot, d.cache slot = none) (code : Nat → Set UInt64) :
    Apart code d := by
  intro slot entry cached
  rw [empty] at cached
  cases cached

theorem valid_build (m : M) : Valid vm .build m := valid_of_empty vm (fun _ => rfl) rfl m

theorem current_build (m : M) : Current vm .build m := current_of_empty vm (fun _ => rfl) m

theorem apart_build (code : Nat → Set UInt64) : Apart code .build := apart_of_empty (fun _ => rfl) code

theorem valid_reset {d : Decoder} (fresh : d.stale = false) (m : M) : Valid vm d.resetInstructionsCache m :=
  valid_of_empty vm (fun _ => rfl) (show d.resetInstructionsCache.stale = false from fresh) m

theorem current_reset (d : Decoder) (m : M) : Current vm d.resetInstructionsCache m :=
  current_of_empty vm (fun _ => rfl) m

theorem apart_reset (d : Decoder) (code : Nat → Set UInt64) : Apart code d.resetInstructionsCache :=
  apart_of_empty (fun _ => rfl) code

theorem Valid.advance {d : Decoder} {m next : M} (valid : Valid vm d m) (advances : Advances vm m next) :
    Valid vm d next where
  fresh := valid.fresh
  made := fun slot entry cached => Nat.le_trans (valid.made slot entry cached) advances.execs
  code := by
    intro slot entry cached same
    -- an entry that is current now was current before, so no exec came between
    have before := valid.made slot entry cached
    have after := advances.execs
    exact advances.code (by omega) _ _ (valid.code slot entry cached (by omega))

/-- The entries after a decode are those before it, and the one it makes. -/
theorem decode_cache {d : Decoder} {m : M} {slot : Nat} {entry : Entry}
    (cached : (d.decode vm m).2.cache slot = some entry) :
    d.cache slot = some entry ∨
      ∃ inst, vm.fetch m (vm.pc m) = .ok inst ∧ entry = ⟨vm.pc m, inst, vm.execs m⟩ := by
  simp only [Decoder.decode] at cached
  split at cached
  · exact .inl cached
  · split at cached
    · exact .inl cached
    next inst fetched =>
      simp only [Function.update_apply] at cached
      split at cached
      · exact .inr ⟨inst, fetched, (Option.some.inj cached).symm⟩
      · exact .inl cached

/-- A decode is right when the entry that it takes, if any, is of the current program. -/
theorem decode_faithful {d : Decoder} {m : M} (valid : Valid vm d m)
    (current : ∀ entry, d.lookup vm (vm.pc m) = some entry → entry.made = vm.execs m) :
    Faithful vm d m ∧ Valid vm (d.decode vm m).2 m := by
  have faithful : Faithful vm d m := by
    cases found : d.lookup vm (vm.pc m) with
    | some entry =>
      obtain ⟨cached, here⟩ := lookup_eq_some vm found
      have fetched := valid.code _ _ cached (current entry found)
      rw [here] at fetched
      constructor
      · simp only [Decoder.decode, found, fetched]
      · simp only [Decoder.decode, found, valid.fresh, current entry found, Nat.lt_irrefl, decide_false,
          Bool.or_self]
    | none =>
      cases fetched : vm.fetch m (vm.pc m) with
      | error e => exact ⟨by simp only [Decoder.decode, found, fetched],
          by simp only [Decoder.decode, found, fetched, valid.fresh]⟩
      | ok inst => exact ⟨by simp only [Decoder.decode, found, fetched],
          by simp only [Decoder.decode, found, fetched, valid.fresh]⟩
  refine ⟨faithful, faithful.fresh, ?_, ?_⟩
  · intro slot entry cached
    rcases decode_cache vm cached with old | ⟨inst, _, rfl⟩
    · exact valid.made slot entry old
    · exact Nat.le_refl _
  · intro slot entry cached same
    rcases decode_cache vm cached with old | ⟨inst, fetched, rfl⟩
    · exact valid.code slot entry old same
    · exact fetched

theorem decode_current {d : Decoder} {m : M} (current : Current vm d m) :
    Current vm (d.decode vm m).2 m := by
  intro slot entry cached
  rcases decode_cache vm cached with old | ⟨inst, _, rfl⟩
  · exact current slot entry old
  · rfl

theorem decode_apart {code : Nat → Set UInt64} {d : Decoder} {m : M} (apart : Apart code d)
    (inside : vm.pc m ∈ code (vm.execs m)) : Apart code (d.decode vm m).2 := by
  intro slot entry cached
  rcases decode_cache vm cached with old | ⟨inst, _, rfl⟩
  · exact apart slot entry old
  · exact inside

/-- With all entries current, every decode is right. -/
theorem Current.faithful {d : Decoder} {m : M} (current : Current vm d m) (valid : Valid vm d m) :
    Faithful vm d m ∧ Valid vm (d.decode vm m).2 m :=
  decode_faithful vm valid fun entry found => current _ entry (lookup_eq_some vm found).1

/-- With the programs apart, a decode inside the current one is right. -/
theorem Apart.faithful {code : Nat → Set UInt64} {d : Decoder} {m : M} (apart : Apart code d)
    (disjoint : DisjointCode code) (inside : vm.pc m ∈ code (vm.execs m)) (valid : Valid vm d m) :
    Faithful vm d m ∧ Valid vm (d.decode vm m).2 m := by
  apply decode_faithful vm valid
  intro entry found
  obtain ⟨cached, here⟩ := lookup_eq_some vm found
  have there := apart _ entry cached
  rw [here] at there
  exact disjoint _ _ _ there inside

/-! ### Steps -/

theorem step_decoder (m : M) (d : Decoder) : (vm.step m d).2.2 = (d.decode vm m).2 := by
  simp only [Vm.step]
  split
  next decoded => rw [decoded]
  next decoded => rw [decoded]

/-- A step without a decoder: the instruction in memory is executed. -/
def Vm.fetchStep (m : M) : Except Error Unit × M :=
  match vm.fetch m (vm.pc m) with
  | .error e => (.error e, m)
  | .ok inst => vm.perform inst m

/-- Where decoding is right, what a step does depends on the machine alone. -/
theorem Faithful.step_eq {d : Decoder} {m : M} (faithful : Faithful vm d m) :
    ((vm.step m d).1, (vm.step m d).2.1) = vm.fetchStep m := by
  rw [Vm.fetchStep, ← faithful.decoded, Vm.step]
  cases d.decode vm m with
  | mk result decoder => cases result <;> rfl

section Step

variable (signals : ExecSignals vm)

include signals

theorem perform_advances (inst : Instruction) (m : M) : Advances vm m (vm.perform inst m).2 := by
  have counted := signals.addCycles (vm.instructionCycleFunc inst) m
  simp only [Vm.perform]
  split
  next e added =>
    rw [added] at counted
    exact counted.toAdvances
  next added =>
    rw [added] at counted
    exact counted.toAdvances.trans vm (signals.execute inst _)

theorem perform_raised (inst : Instruction) (m : M)
    (exec : vm.execs (vm.perform inst m).2 ≠ vm.execs m) : vm.signal (vm.perform inst m).2 = true := by
  have counted := signals.addCycles (vm.instructionCycleFunc inst) m
  simp only [Vm.perform] at exec ⊢
  split at exec
  next e added =>
    rw [added] at counted
    exact absurd counted.same exec
  next added =>
    rw [added] at counted
    apply signals.raised
    rw [counted.same]
    exact exec

/-- A step that decodes rightly leaves valid entries; whether or not it makes an exec. -/
theorem step_valid {d : Decoder} {m : M} (valid : Valid vm (d.decode vm m).2 m) :
    Valid vm (vm.step m d).2.2 (vm.step m d).2.1 := by
  simp only [Vm.step]
  split
  next e decoder decoded =>
    rw [decoded] at valid
    exact valid
  next inst decoder decoded =>
    rw [decoded] at valid
    exact valid.advance vm (perform_advances vm signals inst m)

/-- After a step that makes an exec the signal is up; after any other one all entries are
still current. -/
theorem step_current {d : Decoder} {m : M} (current : Current vm d m)
    (down : vm.signal (vm.step m d).2.1 = false ∨ vm.execs (vm.step m d).2.1 = vm.execs m) :
    Current vm (vm.step m d).2.2 (vm.step m d).2.1 := by
  have after := decode_current vm current
  simp only [Vm.step] at down ⊢
  split at down
  next e decoder decoded =>
    simp only [decoded] at after ⊢
    exact after
  next inst decoder decoded =>
    simp only [decoded] at after ⊢
    have same : vm.execs (vm.perform inst m).2 = vm.execs m := by
      rcases down with down | same
      -- an exec would have raised the signal
      · by_contra exec
        rw [perform_raised vm signals inst m exec] at down
        cases down
      · exact same
    intro slot entry cached
    rw [same]
    exact after slot entry cached

omit signals in
theorem step_apart {code : Nat → Set UInt64} {d : Decoder} {m : M} (apart : Apart code d)
    (inside : vm.pc m ∈ code (vm.execs m)) : Apart code (vm.step m d).2.2 := by
  rw [step_decoder]
  exact decode_apart vm apart inside

/-- After the test of the reset signal all entries are current, if they were with the
signal down. -/
theorem refresh_current {d : Decoder} {m : M} (valid : Valid vm d m)
    (current : vm.signal m = false → Current vm d m) :
    Valid vm (refresh vm m d).2 (refresh vm m d).1 ∧ Current vm (refresh vm m d).2 (refresh vm m d).1 := by
  have later := valid.advance vm (signals.resetSignal m).toAdvances
  simp only [refresh]
  -- with the signal up the cache is emptied, and an empty one is current
  split
  next up => exact ⟨valid_reset vm later.fresh _, current_reset vm d _⟩
  next down =>
    refine ⟨later, fun slot entry cached => ?_⟩
    rw [(signals.resetSignal m).same]
    exact current (Bool.eq_false_iff.mpr down) slot entry cached

/-! ### Loops -/

variable {σ ρ : Type} {round : σ → Loop.Round σ ρ} (machine : σ → M) (decoder : σ → Decoder)

/-- A loop that tests the reset signal before every step decodes rightly throughout. -/
theorem refreshing_loop_faithful {start : σ} (valid : Valid vm (decoder start) (machine start))
    (current : vm.signal (machine start) = false → Current vm (decoder start) (machine start))
    (steps : ∀ s next, round s = .again next → (machine next, decoder next) =
      (vm.step (refresh vm (machine s) (decoder s)).1 (refresh vm (machine s) (decoder s)).2).2)
    {s : σ} (reached : Loop.Reaches round start s) :
    Faithful vm (refresh vm (machine s) (decoder s)).2 (refresh vm (machine s) (decoder s)).1 := by
  let Inv := fun s => Valid vm (decoder s) (machine s) ∧
    (vm.signal (machine s) = false → Current vm (decoder s) (machine s))
  have kept : ∀ s next, Inv s → round s = .again next → Inv next := by
    rintro s next ⟨valid, current⟩ went
    obtain ⟨refreshed, all⟩ := refresh_current vm signals valid current
    have stepped := Prod.ext_iff.mp (steps s next went)
    simp only at stepped
    show Valid vm (decoder next) (machine next) ∧ _
    rw [stepped.1, stepped.2]
    exact ⟨step_valid vm signals (all.faithful vm refreshed).2, fun down => step_current vm signals all (.inl down)⟩
  obtain ⟨valid, current⟩ := reached.invariant (show Inv start from ⟨valid, current⟩) kept
  obtain ⟨refreshed, all⟩ := refresh_current vm signals valid current
  exact (all.faithful vm refreshed).1

/-- A loop that never resets the decoder decodes rightly as long as it stays inside programs
that are apart. -/
theorem stepping_loop_faithful {code : Nat → Set UInt64} {start : σ} (disjoint : DisjointCode code)
    (valid : Valid vm (decoder start) (machine start)) (apart : Apart code (decoder start))
    (steps : ∀ s next, round s = .again next →
      (machine next, decoder next) = (vm.step (machine s) (decoder s)).2)
    (inside : ∀ s, Loop.Reaches round start s → vm.pc (machine s) ∈ code (vm.execs (machine s)))
    {s : σ} (reached : Loop.Reaches round start s) : Faithful vm (decoder s) (machine s) := by
  have holds : Valid vm (decoder s) (machine s) ∧ Apart code (decoder s) := by
    induction reached with
    | start => exact ⟨valid, apart⟩
    | again before went ih =>
      rename_i s next
      obtain ⟨valid, apart⟩ := ih
      have stepped := Prod.ext_iff.mp (steps s next went)
      simp only at stepped
      rw [stepped.1, stepped.2]
      exact ⟨step_valid vm signals (apart.faithful vm disjoint (inside s before) valid).2,
        step_apart vm apart (inside s before)⟩
  exact (holds.2.faithful vm disjoint (inside s reached) holds.1).1

end Step

end CkbVm
