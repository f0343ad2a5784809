import Mathlib.Data.Fintype.Pigeonhole
import CkbDebugger.Loop.Basic

/-!
# Loops over finitely many states

A loop that comes back to a state goes round for ever, since a round depends on nothing but its
state. Where there are finitely many states this is the only way not to leave.
-/
namespace Loop

variable {σ ρ : Type} {round : σ → Round σ ρ}

/-- A loop entered with `start` comes to a state twice. -/
def Recurs (round : σ → Round σ ρ) (start : σ) : Prop :=
  ∃ state next, Reaches round start state ∧ round state = .again next ∧ Reaches round next state

theorem Reaches.trans {first second third : σ} (one : Reaches round first second)
    (two : Reaches round second third) : Reaches round first third := by
  induction two with
  | start => exact one
  | again _ went ih => exact ih.again went

theorem run_add_of_some {rounds : Nat} {start : σ} {result : ρ} (ran : run round rounds start = some result)
    (more : Nat) : run round (rounds + more) start = some result := by
  induction rounds generalizing start with
  | zero => cases ran
  | succ rounds ih =>
    rw [Nat.add_right_comm, run]
    rw [run] at ran
    cases went : round start with
    | again next =>
      simp only [went] at ran
      exact ih ran
    | leave left =>
      simp only [went] at ran
      exact ran

/-- A loop that leaves does so from every state on its way. -/
theorem Reaches.run_of_run {start state : σ} (reached : Reaches round start state) {rounds : Nat} {result : ρ}
    (ran : run round rounds start = some result) : run round rounds state = some result := by
  obtain ⟨before, ahead⟩ := reached.run_from
  rw [← ahead, Nat.add_comm]
  exact run_add_of_some ran before

theorem run_eq_none_of_round_trip {state next : σ} (went : round state = .again next)
    (back : Reaches round next state) (rounds : Nat) : run round rounds state = none := by
  induction rounds with
  | zero => rfl
  | succ rounds ih =>
    rw [run, went]
    by_contra ran
    obtain ⟨result, ran⟩ := Option.ne_none_iff_exists'.mp ran
    -- the way back ends in a run that has one round less
    rw [back.run_of_run ran] at ih
    cases ih

/-- The state after a round, or the same one when the loop leaves. -/
def advance (round : σ → Round σ ρ) (state : σ) : σ :=
  match round state with
  | .again next => next
  | .leave _ => state

section Endless

variable {start : σ} (stays : ∀ state result, Reaches round start state → round state ≠ .leave result)
include stays

theorem again_advance {state : σ} (reached : Reaches round start state) :
    round state = .again (advance round state) := by
  cases went : round state with
  | again next => rw [advance, went]
  | leave result => exact absurd went (stays state result reached)

theorem reaches_iterate (first more : Nat) (reached : Reaches round start ((advance round)^[first] start)) :
    Reaches round ((advance round)^[first] start) ((advance round)^[first + more] start) := by
  induction more with
  | zero => exact .start
  | succ more ih =>
    rw [← Nat.add_assoc, Function.iterate_succ_apply']
    exact ih.again (again_advance stays (reached.trans ih))

theorem recurs_of_stays [Finite σ] : Recurs round start := by
  have reached (n : Nat) : Reaches round start ((advance round)^[n] start) := by
    simpa using reaches_iterate stays 0 n .start
  obtain ⟨i, j, different, same⟩ := Finite.exists_ne_map_eq_of_infinite fun n => (advance round)^[n] start
  -- the earlier of the two states is reached again after at least one round
  wlog earlier : i < j generalizing i j
  · exact this j i different.symm same.symm (by omega)
  obtain ⟨more, rfl⟩ := Nat.exists_eq_add_of_lt earlier
  have went := again_advance stays (reached i)
  rw [← Function.iterate_succ_apply' (advance round)] at went
  refine ⟨_, _, reached i, went, ?_⟩
  have back := reaches_iterate stays (i + 1) more (reached (i + 1))
  rw [Nat.add_right_comm] at back
  exact Eq.mpr (congrArg _ same) back

end Endless

/-- A loop over finitely many states leaves if and only if it never comes back to one. -/
theorem exists_run_iff_not_recurs [Finite σ] (start : σ) :
    (∃ rounds result, run round rounds start = some result) ↔ ¬ Recurs round start := by
  constructor
  · rintro ⟨rounds, result, ran⟩ ⟨state, next, reached, went, back⟩
    have endless := run_eq_none_of_round_trip went back rounds
    rw [reached.run_of_run ran] at endless
    cases endless
  · intro fresh
    by_contra never
    refine fresh (recurs_of_stays fun state result reached left => never ?_)
    obtain ⟨rounds, ran⟩ := (exists_run_iff start result).mpr ⟨state, reached, left⟩
    exact ⟨rounds, result, ran⟩

end Loop
