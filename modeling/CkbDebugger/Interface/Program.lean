/-!
# Programs over an interface

A program calls the operations of an interface and goes on with their results. It
runs on everything that performs the operations, so that an implementation can be
compared with a wrapper around it, whatever the program.
-/
namespace Interface

/-- A program over operations `Op`, each with its type of results. -/
inductive Program (Op : Type) (Result : Op → Type) (α : Type) where
  | done (value : α)
  | call (op : Op) (next : Result op → Program Op Result α)

/-- An implementation of the operations with states `σ`. -/
abbrev Performer (Op : Type) (Result : Op → Type) (σ : Type) : Type :=
  (op : Op) → σ → Result op × σ

variable {Op : Type} {Result : Op → Type} {α σ τ : Type}

def Program.run (perform : Performer Op Result σ) : Program Op Result α → σ → α × σ
  | .done value, s => (value, s)
  | .call op next, s => (next (perform op s).1).run perform (perform op s).2

/-- The calls that a run makes, with their results. -/
def Program.calls (perform : Performer Op Result σ) : Program Op Result α → σ → List (Sigma Result)
  | .done _, _ => []
  | .call op next, s => ⟨op, (perform op s).1⟩ :: (next (perform op s).1).calls perform (perform op s).2

/-! ### Wrappers -/

/-- `outer` answers every call as `inner` does in the state inside its own. -/
structure Wraps (inner : Performer Op Result τ) (outer : Performer Op Result σ) (inside : σ → τ) :
    Prop where
  answers : ∀ op s, (outer op s).1 = (inner op (inside s)).1
  forwards : ∀ op s, inside (outer op s).2 = (inner op (inside s)).2

section Wraps

variable {inner : Performer Op Result τ} {outer : Performer Op Result σ} {inside : σ → τ}

/-- Every program has the same result on a wrapper, and leaves the same state inside. -/
theorem Wraps.run_eq (wraps : Wraps inner outer inside) (program : Program Op Result α) (s : σ) :
    (program.run outer s).1 = (program.run inner (inside s)).1 ∧
      inside (program.run outer s).2 = (program.run inner (inside s)).2 := by
  induction program generalizing s with
  | done value => exact ⟨rfl, rfl⟩
  | call op next ih =>
    simp only [Program.run]
    rw [← wraps.answers op s, ← wraps.forwards op s]
    exact ih _ _

/-- Every program makes the same calls on a wrapper. -/
theorem Wraps.calls_eq (wraps : Wraps inner outer inside) (program : Program Op Result α) (s : σ) :
    program.calls outer s = program.calls inner (inside s) := by
  induction program generalizing s with
  | done value => rfl
  | call op next ih =>
    simp only [Program.calls]
    rw [← wraps.answers op s, ← wraps.forwards op s, ih]

end Wraps

/-! ### What a run leaves behind -/

/-- A part of the state to which every call appends what there is to note of it holds
the notes of all calls after a run. -/
theorem run_log {β : Type} {perform : Performer Op Result σ} (log : σ → List β)
    (note : Sigma Result → List β)
    (logged : ∀ op s, log (perform op s).2 = log s ++ note ⟨op, (perform op s).1⟩)
    (program : Program Op Result α) (s : σ) :
    log (program.run perform s).2 = log s ++ (program.calls perform s).flatMap note := by
  induction program generalizing s with
  | done value => simp [Program.run, Program.calls]
  | call op next ih =>
    simp only [Program.run, Program.calls, List.flatMap_cons]
    rw [ih, logged, List.append_assoc]

/-- What no call changes, no run changes. -/
theorem run_keeps {β : Type} {perform : Performer Op Result σ} (part : σ → β)
    (kept : ∀ op s, part (perform op s).2 = part s) (program : Program Op Result α) (s : σ) :
    part (program.run perform s).2 = part s := by
  induction program generalizing s with
  | done value => rfl
  | call op next ih =>
    simp only [Program.run]
    rw [ih, kept]

end Interface
