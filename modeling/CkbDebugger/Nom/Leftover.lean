import CkbDebugger.Nom.CrashTable
import CkbDebugger.Nom.Grammar

/-!
# What a parser leaves unread

A grammar made of named alternatives finishes on inputs that start with one of the names. A table lists
the names with the continuations that are not read to their end; the rules that assemble it are those of
the tables of panics.
-/
namespace Nom

variable {α β : Type}

/-! ### Tables of what is left -/

/-- Something is left of the input. -/
def Grammar.Trailing (g : Grammar) (input : Bytes) : Prop := ∃ rest, g input rest ∧ rest ≠ []

/-- The parser finishes with one of the values that are of interest, and leaves something unread. -/
def Leaves (keep : α → Prop) (p : Parser α) (input : Bytes) : Prop :=
  ∃ rest a, p input = .done rest a ∧ rest ≠ [] ∧ keep a

/-- The table lists exactly the inputs that are not read to their end. -/
def LeavesOn (keep : α → Prop) (p : Parser α) (table : CrashTable) : Prop :=
  ∀ input, Leaves keep p input ↔ Listed table input

variable {keep : α → Prop}

/-- All values of the parser are of interest. -/
def Gives (keep : α → Prop) (p : Parser α) : Prop := ∀ input rest a, p input = .done rest a → keep a

theorem gives_of_forall (all : ∀ a, keep a) (p : Parser α) : Gives keep p := fun _ _ a _ => all a

theorem gives_pure {a : α} (kept : keep a) : Gives keep (pure a) := by
  intro input rest b done
  cases done
  exact kept

theorem gives_bind {p : Parser β} {f : β → Parser α} (others : ∀ b, Gives keep (f b)) : Gives keep (p >>= f) := by
  intro input rest a done
  obtain ⟨middle, b, _, found⟩ := (andThen_done_iff _ _ _ _).mp done
  exact others b middle rest a found

theorem gives_map {p : Parser β} {f : β → α} (all : ∀ b, keep (f b)) : Gives keep (f <$> p) :=
  gives_bind fun b => gives_pure (all b)

theorem Parses.leaves_iff {p : Parser α} {g : Grammar} (inner : Parses p g) (all : Gives keep p) (input : Bytes) :
    Leaves keep p input ↔ g.Trailing input := by
  simp only [Leaves, Grammar.Trailing, ← inner input _]
  constructor
  · rintro ⟨rest, a, done, left, _⟩
    exact ⟨rest, ⟨a, done⟩, left⟩
  · rintro ⟨rest, ⟨a, done⟩, left⟩
    exact ⟨rest, a, done, left, all input rest a done⟩

theorem leavesOn_nil {p : Parser α} (whole : ∀ input rest a, p input = .done rest a → rest ≠ [] → ¬keep a) :
    LeavesOn keep p [] := by
  intro input
  simp only [Listed, List.not_mem_nil, false_and, exists_false, iff_false]
  rintro ⟨rest, a, done, left, kept⟩
  exact whole input rest a done left kept

theorem leavesOn_of_error {p : Parser α} (rejects : ∀ input, p input = .error) : LeavesOn keep p [] := by
  apply leavesOn_nil
  intro input rest a done
  rw [rejects input] at done
  cases done

theorem LeavesOn.map {p : Parser β} {table : CrashTable} (f : β → α) (inner : LeavesOn (fun b => keep (f b)) p table) :
    LeavesOn keep (f <$> p) table := by
  intro input
  rw [← inner input]
  simp only [Leaves, map_done_iff]
  constructor
  · rintro ⟨rest, _, ⟨b, done, rfl⟩, left, kept⟩
    exact ⟨rest, b, done, left, kept⟩
  · rintro ⟨rest, b, done, left, kept⟩
    exact ⟨rest, f b, ⟨b, done, rfl⟩, left, kept⟩

theorem LeavesOn.complete {p : Parser α} {table : CrashTable} (inner : LeavesOn keep p table) :
    LeavesOn keep (complete p) table := by
  intro input
  simp only [Leaves, complete_done_iff, ← inner input]

theorem LeavesOn.literal_bind (s : String) {f : Bytes → Parser α} {left : Bytes → Prop}
    (inner : ∀ t rest, Leaves keep (f t) rest ↔ left rest) : LeavesOn keep (literal s >>= f) [(s, left)] := by
  intro input
  rw [listed_singleton]
  simp only [Leaves, bind_apply, andThen_done_iff, literal_done_iff]
  constructor
  · rintro ⟨final, a, ⟨rest, t, ⟨rfl, _⟩, found⟩, kept⟩
    exact ⟨rest, rfl, (inner t rest).mp ⟨final, a, found, kept⟩⟩
  · rintro ⟨rest, rfl, isLeft⟩
    obtain ⟨final, a, found, kept⟩ := (inner (ascii s) rest).mpr isLeft
    exact ⟨final, a, ⟨rest, ascii s, ⟨rfl, rfl⟩, found⟩, kept⟩

/-- A name alone. -/
theorem LeavesOn.name (s : String) {f : Bytes → α} (all : ∀ t, keep (f t)) :
    LeavesOn keep (f <$> literal s) [(s, fun rest => rest ≠ [])] := by
  apply LeavesOn.map
  intro input
  rw [listed_singleton]
  simp only [Leaves, literal_done_iff, all, and_true]
  constructor
  · rintro ⟨rest, _, ⟨rfl, _⟩, left⟩
    exact ⟨rest, rfl, left⟩
  · rintro ⟨rest, rfl, left⟩
    exact ⟨rest, ascii s, ⟨rfl, rfl⟩, left⟩

/-- A name with arguments. -/
theorem LeavesOn.arguments (s : String) {f : Bytes → Parser α} {g : Grammar} (inner : ∀ t, Parses (f t) g)
    (all : ∀ t, Gives keep (f t)) : LeavesOn keep (literal s >>= f) [(s, g.Trailing)] :=
  LeavesOn.literal_bind s fun t => (inner t).leaves_iff (all t)

theorem LeavesOn.preceded (s : String) {p : Parser α} {g : Grammar} (inner : Parses p g) (all : ∀ a, keep a) :
    LeavesOn keep (preceded (literal s) p) [(s, g.Trailing)] :=
  LeavesOn.arguments s (fun _ => inner) fun _ => gives_of_forall all p

theorem LeavesOn.under (s : String) {p : Parser α} {table : CrashTable} (inner : LeavesOn keep p table) :
    LeavesOn keep (Nom.preceded (literal s) p) (table.map fun entry => (s ++ entry.1, entry.2)) := by
  intro input
  have split : Leaves keep (Nom.preceded (literal s) p) input ↔
      ∃ rest, input = ascii s ++ rest ∧ Leaves keep p rest := by
    rw [← listed_singleton]
    exact LeavesOn.literal_bind s (fun _ _ => Iff.rfl) input
  rw [split]
  simp only [inner _, Listed, List.mem_map]
  constructor
  · rintro ⟨_, rfl, entry, member, rest, rfl, left⟩
    exact ⟨_, ⟨entry, member, rfl⟩, rest, by simp [ascii_append], left⟩
  · rintro ⟨_, ⟨entry, member, rfl⟩, rest, rfl, left⟩
    exact ⟨_, by rw [ascii_append, List.append_assoc], entry, member, rest, rfl, left⟩

/-! ### Alternatives -/

/-- The parser does not take the inputs of the table. -/
def PassesOn (p : Parser α) (table : CrashTable) : Prop :=
  ∀ entry ∈ table, ∀ rest, entry.2 rest → Fails (p (ascii entry.1 ++ rest))

theorem PassesOn.nil (p : Parser α) : PassesOn p [] := by
  simp [PassesOn]

theorem PassesOn.cons {p : Parser α} {s : String} {left : Bytes → Prop} {table : CrashTable}
    (first : ∀ rest, left rest → Fails (p (ascii s ++ rest))) (others : PassesOn p table) :
    PassesOn p ((s, left) :: table) := by
  intro entry member
  rcases List.mem_cons.mp member with rfl | member
  · exact first
  · exact others entry member

theorem PassesOn.fails_of_listed {p : Parser α} {table : CrashTable} (passes : PassesOn p table) {input : Bytes}
    (listed : Listed table input) : Fails (p input) := by
  obtain ⟨entry, member, rest, rfl, left⟩ := listed
  exact passes entry member rest left

/-- Alternatives with their tables. Each one has to be described only where all earlier ones have failed, and
passes the inputs of the later tables on. -/
inductive Described (keep : α → Prop) : (Bytes → Prop) → List (Parser α) → List CrashTable → Prop where
  | nil {reached : Bytes → Prop} : Described keep reached [] []
  | cons {reached : Bytes → Prop} {p : Parser α} {ps : List (Parser α)} {table : CrashTable}
      {others : List CrashTable} (first : ∀ input, reached input → (Leaves keep p input ↔ Listed table input))
      (passes : PassesOn p others.flatten)
      (rest : Described keep (fun input => reached input ∧ Fails (p input)) ps others) :
      Described keep reached (p :: ps) (table :: others)

/-- An alternative that is described everywhere. -/
theorem Described.add {reached : Bytes → Prop} {p : Parser α} {ps : List (Parser α)} {table : CrashTable}
    {others : List CrashTable} (first : LeavesOn keep p table) (passes : PassesOn p others.flatten)
    (rest : Described keep (fun input => reached input ∧ Fails (p input)) ps others) :
    Described keep reached (p :: ps) (table :: others) :=
  .cons (fun input _ => first input) passes rest

theorem leaves_of_eq {p q : Parser α} {input : Bytes} (same : p input = q input) :
    Leaves keep p input ↔ Leaves keep q input := by
  simp only [Leaves, same]

theorem not_leaves_of_fails {p : Parser α} {input : Bytes} (failed : Fails (p input)) : ¬Leaves keep p input := by
  rintro ⟨rest, a, done, _⟩
  rcases failed with h | h <;> rw [h] at done <;> cases done

theorem Described.leaves_iff {reached : Bytes → Prop} {ps : List (Parser α)} {tables : List CrashTable}
    (each : Described keep reached ps tables) {input : Bytes} (here : reached input) :
    Leaves keep (altComplete ps) input ↔ Listed tables.flatten input := by
  -- a later alternative is taken only where the first one has passed the input on
  induction each with
  | nil => simp [Leaves, Nom.altComplete, Listed]
  | @cons reached p ps table tables first passes _ ih =>
    rw [List.flatten_cons, listed_append, ← first input here]
    have split : Leaves keep (Nom.altComplete (p :: ps)) input ↔
        Leaves keep p input ∨ Fails (p input) ∧ Leaves keep (Nom.altComplete ps) input := by
      simp only [Leaves, altComplete_cons_iff (not_fails_done _ _), or_and_right, exists_or, and_assoc,
        exists_and_left]
    rw [split]
    refine or_congr_right ⟨?_, fun listed => ?_⟩
    · rintro ⟨failed, left⟩
      exact (ih ⟨here, failed⟩).mp left
    · have failed := passes.fails_of_listed listed
      exact ⟨failed, (ih ⟨here, failed⟩).mpr listed⟩

theorem LeavesOn.altComplete {ps : List (Parser α)} {tables : List CrashTable}
    (each : Described keep (fun _ => True) ps tables) : LeavesOn keep (altComplete ps) tables.flatten :=
  fun _ => each.leaves_iff trivial

theorem LeavesOn.alt {ps : List (Parser α)} {tables : List CrashTable}
    (each : List.Forall₂ (LeavesOn keep) ps tables) (apart : Apart ps tables) :
    LeavesOn keep (alt ps) tables.flatten := by
  induction each with
  | nil => simp [LeavesOn, Leaves, Nom.alt, Listed]
  | @cons p table ps tables first _ ih =>
    obtain _ | ⟨later, apart⟩ := apart
    intro input
    rw [List.flatten_cons, listed_append, ← first input, ← ih apart input]
    by_cases failed : p input = .error
    · rw [leaves_of_eq (alt_cons_of_error failed ps)]
      simp only [not_leaves_of_fails (Or.inl failed), false_or]
    · have unreached : ¬Leaves keep (Nom.alt ps) input := fun left =>
        failed (later.error_of_listed ((ih apart input).mp left))
      rw [leaves_of_eq (alt_cons_of_ne_error failed ps)]
      simp only [unreached, or_false]

end Nom
