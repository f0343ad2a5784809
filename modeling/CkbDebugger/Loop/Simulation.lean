import CkbDebugger.Loop.Finite

/-!
# Loops that follow another loop

Each round of a loop is, seen from outside, a round of another loop. The two then take the
same number of rounds to the same result, through the same states.
-/
namespace Loop

variable {σ τ ρ υ : Type} {round : σ → Round σ ρ} {other : τ → Round τ υ} {start : σ}

/-- A round seen from outside. -/
def Round.map (state : σ → τ) (result : ρ → υ) : Round σ ρ → Round τ υ
  | .again s => .again (state s)
  | .leave r => .leave (result r)

section Simulates

variable (state : σ → τ) {result : ρ → υ}
  (simulates : ∀ s, Reaches round start s → other (state s) = (round s).map state result)

include simulates

theorem run_map (rounds : Nat) : (run round rounds start).map result = run other rounds (state start) := by
  -- the induction is from every state on the way
  have ahead : ∀ rounds s, Reaches round start s →
      (run round rounds s).map result = run other rounds (state s) := by
    intro rounds
    induction rounds with
    | zero => exact fun _ _ => rfl
    | succ rounds ih =>
      intro s reached
      have same := simulates s reached
      simp only [run, same]
      cases went : round s with
      | again next => exact ih next (reached.again went)
      | leave left => rfl
  exact ahead rounds start .start

theorem states_map (rounds : Nat) : (states round rounds start).map state = states other rounds (state start) := by
  have ahead : ∀ rounds s, Reaches round start s →
      (states round rounds s).map state = states other rounds (state s) := by
    intro rounds
    induction rounds with
    | zero => exact fun _ _ => rfl
    | succ rounds ih =>
      intro s reached
      have same := simulates s reached
      simp only [states, same, List.map_cons]
      cases went : round s with
      | again next => rw [ih next (reached.again went)]; rfl
      | leave left => rfl
  exact ahead rounds start .start

end Simulates

/-- A loop has the same result from every state on its way. -/
theorem Reaches.exists_run_iff {s : σ} (reached : Reaches round start s) (result : ρ) :
    (∃ rounds, run round rounds s = some result) ↔ ∃ rounds, run round rounds start = some result := by
  constructor
  · rintro ⟨rounds, ran⟩
    obtain ⟨before, ahead⟩ := reached.run_from
    exact ⟨before + rounds, by rw [ahead, ran]⟩
  · rintro ⟨rounds, ran⟩
    exact ⟨rounds, reached.run_of_run ran⟩

end Loop
