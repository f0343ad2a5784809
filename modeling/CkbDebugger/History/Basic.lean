import Mathlib.Data.List.Infix

/-!
# Histories

Properties that hold after every initial part of a history, runs of a system with the
history of their events, and histories of additions and removals of keys.
-/
namespace History

/-! ### Every initial part -/

section Always

variable {α : Type}

/-- `P` holds after every initial part of the history. -/
def Always (P : List α → Prop) (history : List α) : Prop := ∀ made, made <+: history → P made

/-- Every event of the history is admitted by what came before it. -/
def Admitted (admits : List α → α → Prop) (history : List α) : Prop :=
  ∀ made event, made ++ [event] <+: history → admits made event

theorem always_snoc (P : List α → Prop) (history : List α) (event : α) :
    Always P (history ++ [event]) ↔ Always P history ∧ P (history ++ [event]) := by
  constructor
  · intro always
    exact ⟨fun made initial => always made (initial.trans (List.prefix_append _ _)),
      always _ (List.prefix_refl _)⟩
  · rintro ⟨always, final⟩ made initial
    rcases List.prefix_concat_iff.mp initial with rfl | earlier
    · exact final
    · exact always made earlier

theorem admitted_nil (admits : List α → α → Prop) : Admitted admits [] := by
  intro made event initial
  cases made <;> simp at initial

theorem admitted_snoc (admits : List α → α → Prop) (history : List α) (event : α) :
    Admitted admits (history ++ [event]) ↔ Admitted admits history ∧ admits history event := by
  constructor
  · intro admitted
    exact ⟨fun made e initial => admitted made e (initial.trans (List.prefix_append _ _)),
      admitted _ _ (List.prefix_refl _)⟩
  · rintro ⟨admitted, last⟩ made e initial
    rcases List.prefix_concat_iff.mp initial with same | earlier
    · obtain ⟨rfl, rfl⟩ := List.append_singleton_inj.mp same
      exact last
    · exact admitted made e earlier

/-- The rule for a property that fails at the first event that is not admitted: an
invariant that admitted events keep and that gives the property. -/
theorem always_iff_admitted {P inv : List α → Prop} {admits : List α → α → Prop} (start : inv [])
    (holds : ∀ made, inv made → P made)
    (keeps : ∀ made event, inv made → admits made event → inv (made ++ [event]))
    (breaks : ∀ made event, inv made → P (made ++ [event]) → admits made event)
    (history : List α) : Always P history ↔ Admitted admits history := by
  -- the invariant has to come along: it holds as long as everything was admitted
  suffices both : (Always P history ↔ Admitted admits history) ∧
      (Admitted admits history → inv history) from both.1
  induction history using List.reverseRecOn with
  | nil =>
    refine ⟨⟨fun _ => admitted_nil admits, fun _ made initial => ?_⟩, fun _ => start⟩
    rw [List.prefix_nil.mp initial]
    exact holds [] start
  | append_singleton history event ih =>
    obtain ⟨same, reached⟩ := ih
    rw [always_snoc, admitted_snoc, same]
    refine ⟨⟨?_, ?_⟩, ?_⟩
    · rintro ⟨admitted, final⟩
      exact ⟨admitted, breaks history event (reached admitted) final⟩
    · rintro ⟨admitted, last⟩
      exact ⟨admitted, holds _ (keeps history event (reached admitted) last)⟩
    · rintro ⟨admitted, last⟩
      exact keeps history event (reached admitted) last

end Always

/-! ### Runs -/

section Run

variable {σ ε : Type}

/-- A run of a system from a state, with its events in their order. -/
inductive Run (step : σ → ε → σ → Prop) (start : σ) : List ε → σ → Prop where
  | nil : Run step start [] start
  | snoc {events : List ε} {s t : σ} {event : ε} (run : Run step start events s) (last : step s event t) :
      Run step start (events ++ [event]) t

/-- What holds at the start and is kept by every step holds after every run. It may be about the
events as well. -/
theorem Run.invariant {step : σ → ε → σ → Prop} {start : σ} (inv : List ε → σ → Prop) (initially : inv [] start)
    (kept : ∀ events s event t, inv events s → step s event t → inv (events ++ [event]) t)
    {events : List ε} {s : σ} (run : Run step start events s) : inv events s := by
  induction run with
  | nil => exact initially
  | snoc _ last ih => exact kept _ _ _ _ ih last

/-- A run from its first step on. -/
theorem Run.cons {step : σ → ε → σ → Prop} {start s t : σ} {event : ε} {events : List ε} (first : step start event s)
    (run : Run step s events t) : Run step start (event :: events) t := by
  induction run with
  | nil => exact .snoc .nil first
  | snoc _ last ih => exact .snoc ih last

end Run

/-! ### Additions and removals -/

/-- A change of a set of keys. -/
inductive Edit (κ : Type) where
  | add (key : κ)
  | remove (key : κ)
  deriving Repr, DecidableEq

variable {κ : Type} [DecidableEq κ]

def Edit.key : Edit κ → κ
  | .add key => key
  | .remove key => key

/-- The edits of one key. -/
def ofKey (history : List (Edit κ)) (key : κ) : List (Edit κ) := history.filter (·.key = key)

/-- The last edit of the key is an addition. -/
def Added (history : List (Edit κ)) (key : κ) : Prop := (ofKey history key).getLast? = some (.add key)

/-- The number of additions of the key since its last removal. -/
def sinceRemoval (history : List (Edit κ)) (key : κ) : Nat :=
  ((ofKey history key).reverse.takeWhile (· = .add key)).length

instance (history : List (Edit κ)) (key : κ) : Decidable (Added history key) :=
  inferInstanceAs (Decidable (_ = _))

theorem ofKey_snoc (history : List (Edit κ)) (edit : Edit κ) (key : κ) :
    ofKey (history ++ [edit]) key =
      if edit.key = key then ofKey history key ++ [edit] else ofKey history key := by
  by_cases named : edit.key = key
  · simp [ofKey, named]
  · simp [ofKey, named]

@[simp] theorem not_added_nil (key : κ) : ¬Added [] key := by simp [Added, ofKey]

@[simp] theorem added_snoc_add (history : List (Edit κ)) (k key : κ) :
    Added (history ++ [.add k]) key ↔ k = key ∨ Added history key := by
  by_cases same : k = key
  · subst same
    simp [Added, ofKey_snoc, Edit.key]
  · simp [Added, ofKey_snoc, Edit.key, same]

@[simp] theorem added_snoc_remove (history : List (Edit κ)) (k key : κ) :
    Added (history ++ [.remove k]) key ↔ k ≠ key ∧ Added history key := by
  by_cases same : k = key
  · subst same
    simp [Added, ofKey_snoc, Edit.key]
  · simp [Added, ofKey_snoc, Edit.key, same]

@[simp] theorem sinceRemoval_nil (key : κ) : sinceRemoval [] key = 0 := by simp [sinceRemoval, ofKey]

theorem sinceRemoval_snoc_add (history : List (Edit κ)) (k key : κ) :
    sinceRemoval (history ++ [.add k]) key =
      sinceRemoval history key + if k = key then 1 else 0 := by
  by_cases same : k = key
  · subst same
    simp [sinceRemoval, ofKey_snoc, Edit.key]
  · simp [sinceRemoval, ofKey_snoc, Edit.key, same]

theorem sinceRemoval_snoc_remove (history : List (Edit κ)) (k key : κ) :
    sinceRemoval (history ++ [.remove k]) key = if k = key then 0 else sinceRemoval history key := by
  by_cases same : k = key
  · subst same
    simp [sinceRemoval, ofKey_snoc, Edit.key]
  · simp [sinceRemoval, ofKey_snoc, Edit.key, same]

theorem sinceRemoval_pos_iff (history : List (Edit κ)) (key : κ) :
    0 < sinceRemoval history key ↔ Added history key := by
  induction history using List.reverseRecOn with
  | nil => simp
  | append_singleton history edit ih =>
    cases edit with
    | add k =>
      rw [sinceRemoval_snoc_add, added_snoc_add, ← ih]
      split <;> simp_all
    | remove k =>
      rw [sinceRemoval_snoc_remove, added_snoc_remove, ← ih]
      split <;> simp_all

theorem mem_of_added {history : List (Edit κ)} {key : κ} (added : Added history key) :
    .add key ∈ history :=
  List.mem_of_mem_filter (List.mem_of_getLast? added)

/-- A key that was added and is never removed. -/
theorem added_of_not_removed {history : List (Edit κ)} {key : κ} (member : .add key ∈ history)
    (kept : .remove key ∉ history) : Added history key := by
  induction history using List.reverseRecOn with
  | nil => cases member
  | append_singleton history edit ih =>
    simp only [List.mem_append, List.mem_singleton, not_or] at member kept
    cases edit with
    | add k =>
      rw [added_snoc_add]
      rcases member with earlier | last
      · exact Or.inr (ih earlier kept.1)
      · cases last
        exact Or.inl rfl
    | remove k =>
      rw [added_snoc_remove]
      have earlier : Edit.add key ∈ history := member.resolve_right (by simp)
      exact ⟨fun same => kept.2 (congrArg Edit.remove same.symm), ih earlier kept.1⟩

/-! ### Coarser keys -/

section Coarser

variable {ι : Type} [DecidableEq ι] (f : κ → ι)

def Edit.map : Edit κ → Edit ι
  | .add key => .add (f key)
  | .remove key => .remove (f key)

/-- What is there by the coarser key is there by one of the finer keys: a removal takes
out at most what the coarser one does. -/
theorem added_of_added_map {history : List (Edit κ)} {key : ι}
    (added : Added (history.map (Edit.map f)) key) : ∃ k, f k = key ∧ Added history k := by
  induction history using List.reverseRecOn with
  | nil => exact absurd added (not_added_nil key)
  | append_singleton history edit ih =>
    rw [List.map_append, List.map_singleton] at added
    cases edit with
    | add k =>
      simp only [Edit.map, added_snoc_add] at added ⊢
      rcases added with here | earlier
      · exact ⟨k, here, Or.inl rfl⟩
      · obtain ⟨k', named, added⟩ := ih earlier
        exact ⟨k', named, Or.inr added⟩
    | remove k =>
      -- the key that is still there has another coarser key than the removed one
      simp only [Edit.map, added_snoc_remove] at added ⊢
      obtain ⟨k', named, earlier⟩ := ih added.2
      exact ⟨k', named, fun same => added.1 (same ▸ named), earlier⟩

/-- A finer key is there by the coarser key as well, if only its own removals name that. -/
theorem added_map_of_added {history : List (Edit κ)} {key : κ} (added : Added history key)
    (own : ∀ k, .remove k ∈ history → f k = f key → k = key) :
    Added (history.map (Edit.map f)) (f key) := by
  induction history using List.reverseRecOn with
  | nil => exact absurd added (not_added_nil key)
  | append_singleton history edit ih =>
    have earlierOwn : ∀ k, .remove k ∈ history → f k = f key → k = key :=
      fun k member => own k (List.mem_append_left _ member)
    rw [List.map_append, List.map_singleton]
    cases edit with
    | add k =>
      simp only [Edit.map, added_snoc_add] at added ⊢
      rcases added with rfl | earlier
      · exact Or.inl rfl
      · exact Or.inr (ih earlier earlierOwn)
    | remove k =>
      simp only [Edit.map, added_snoc_remove] at added ⊢
      exact ⟨fun same => added.1 (own k (by simp) same), ih added.2 earlierOwn⟩

end Coarser

end History
