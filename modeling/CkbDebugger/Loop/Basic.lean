import Mathlib.Logic.Basic

/-!
# Loops

A loop is given by one round of its body: the round either goes on with a new
state or leaves the loop with a result. Runs are counted in rounds, so that a
loop that never leaves still has a meaning for every number of rounds.
-/
namespace Loop

inductive Round (σ ρ : Type) where
  | again (state : σ)
  | leave (result : ρ)
  deriving Repr, DecidableEq

variable {σ ρ : Type} {round : σ → Round σ ρ}

/-- The result of a loop that leaves within the given number of rounds. -/
def run (round : σ → Round σ ρ) : Nat → σ → Option ρ
  | 0, _ => none
  | rounds + 1, state =>
    match round state with
    | .again next => run round rounds next
    | .leave result => some result

/-- The states in which a loop entered with `start` begins a round. -/
inductive Reaches (round : σ → Round σ ρ) (start : σ) : σ → Prop where
  | start : Reaches round start start
  | again {state next : σ} (reached : Reaches round start state)
      (went : round state = .again next) : Reaches round start next

/-- The states in which the rounds of a run begin, one after the other. -/
def states (round : σ → Round σ ρ) : Nat → σ → List σ
  | 0, _ => []
  | rounds + 1, state =>
    state :: match round state with
      | .again next => states round rounds next
      | .leave _ => []

/-- A loop leaves at one round only, so two numbers of rounds that are enough make the same run. -/
theorem run_unique {first second : Nat} {start : σ} {one other : ρ} (ran : run round first start = some one)
    (again : run round second start = some other) :
    one = other ∧ states round first start = states round second start := by
  induction first generalizing second start with
  | zero => cases ran
  | succ first ih =>
    cases second with
    | zero => cases again
    | succ second =>
      cases went : round start with
      | leave result =>
        simp only [run, went] at ran again
        cases ran
        cases again
        exact ⟨rfl, by simp only [states, went]⟩
      | again next =>
        simp only [run, went] at ran again
        obtain ⟨same, visited⟩ := ih ran again
        exact ⟨same, by simp only [states, went, visited]⟩

theorem Reaches.invariant {start state : σ} {Inv : σ → Prop} (reached : Reaches round start state)
    (initial : Inv start) (kept : ∀ s next, Inv s → round s = .again next → Inv next) :
    Inv state := by
  induction reached with
  | start => exact initial
  | again _ went ih => exact kept _ _ ih went

/-- A loop takes a number of rounds to a state that it reaches. -/
theorem Reaches.run_from {start state : σ} (reached : Reaches round start state) :
    ∃ before, ∀ rounds, run round (before + rounds) start = run round rounds state := by
  induction reached with
  | start => exact ⟨0, fun rounds => by rw [Nat.zero_add]⟩
  | again _ went ih =>
    obtain ⟨before, same⟩ := ih
    refine ⟨before + 1, fun rounds => ?_⟩
    rw [Nat.add_assoc, same, Nat.add_comm, run, went]

/-- A loop has a result when it reaches a state in which it leaves with that result. -/
theorem exists_run_iff (start : σ) (result : ρ) :
    (∃ rounds, run round rounds start = some result) ↔
      ∃ state, Reaches round start state ∧ round state = .leave result := by
  constructor
  · rintro ⟨rounds, returned⟩
    -- the last of the rounds is the one that leaves
    have last : ∀ rounds s, Reaches round start s → run round rounds s = some result →
        ∃ state, Reaches round start state ∧ round state = .leave result := by
      intro rounds
      induction rounds with
      | zero => intro s _ returned; cases returned
      | succ rounds ih =>
        intro s reached returned
        cases went : round s with
        | again next =>
          simp only [run, went] at returned
          exact ih next (.again reached went) returned
        | leave left =>
          simp only [run, went] at returned
          cases returned
          exact ⟨s, reached, went⟩
    exact last rounds start .start returned
  · rintro ⟨state, reached, left⟩
    obtain ⟨before, ahead⟩ := reached.run_from
    exact ⟨before + 1, by rw [ahead 1, run, left]⟩

/-- A value of the state that no round changes and that a leaving round returns
is the result of the loop; a measure that every round lowers makes it leave. -/
theorem run_eq_of_measure (Inv : σ → Prop) (value : σ → ρ) (measure : σ → Nat)
    (kept : ∀ s next, Inv s → round s = .again next →
      Inv next ∧ value next = value s ∧ measure next < measure s)
    (left : ∀ s result, Inv s → round s = .leave result → result = value s)
    (state : σ) (holds : Inv state) : run round (measure state + 1) state = some (value state) := by
  -- more rounds than the measure are enough, whatever their number
  have enough : ∀ rounds s, Inv s → measure s < rounds → run round rounds s = some (value s) := by
    intro rounds
    induction rounds with
    | zero => intro s _ below; omega
    | succ rounds ih =>
      intro s inv below
      cases went : round s with
      | again next =>
        obtain ⟨invNext, same, lower⟩ := kept s next inv went
        simp only [run, went]
        rw [ih next invNext (by omega), same]
      | leave result => simp only [run, went, left s result inv went]
  exact enough _ _ holds (Nat.lt_succ_self _)

/-- A loop whose rounds go along with those of another one has the same result after
the same number of rounds, unless one of its rounds breaks off. -/
theorem run_follows {τ υ : Type} {other : τ → Round τ υ} {start : σ} (Follows : σ → τ → Prop)
    (translate : υ → ρ) (BreaksOff : ρ → Prop)
    (step : ∀ s t, Reaches round start s → Follows s t →
      (∃ result, round s = .leave result ∧ BreaksOff result) ∨
      (∃ result, round s = .leave (translate result) ∧ other t = .leave result) ∨
      ∃ s' t', round s = .again s' ∧ other t = .again t' ∧ Follows s' t')
    (rounds : Nat) {t : τ} (follows : Follows start t) :
    (∃ result, run round rounds start = some result ∧ BreaksOff result) ∨
      run round rounds start = (run other rounds t).map translate := by
  -- from every state that is reached on the way, with the other loop's state beside it
  have ahead : ∀ rounds s t, Reaches round start s → Follows s t →
      (∃ result, run round rounds s = some result ∧ BreaksOff result) ∨
        run round rounds s = (run other rounds t).map translate := by
    intro rounds
    induction rounds with
    | zero => intro s t _ _; exact .inr rfl
    | succ rounds ih =>
      intro s t reached related
      obtain ⟨result, left, broken⟩ | ⟨result, left, same⟩ | ⟨s', t', went, same, next⟩ :=
        step s t reached related
      · exact .inl ⟨result, by simp only [run, left], broken⟩
      · exact .inr (by simp only [run, left, same, Option.map_some])
      · simp only [run, went, same]
        exact ih s' t' (.again reached went) next
  exact ahead rounds start t .start follows

end Loop
