import CkbDebugger.Nom.Lemmas

/-!
# Tables of the inputs on which a parser panics

A grammar made of named alternatives panics on inputs that start with one of
the names and go on in a way that the name's alternative cannot bear. A table
lists the names with these continuations; the rules below assemble the table of
a grammar from the tables of its alternatives.
-/
namespace Nom

variable {α β : Type}

/-- Names, each with the continuations that make the parser panic. -/
abbrev CrashTable := List (String × (Bytes → Prop))

def Listed (table : CrashTable) (input : Bytes) : Prop :=
  ∃ entry ∈ table, ∃ rest, input = ascii entry.1 ++ rest ∧ entry.2 rest

/-- The table describes the parser's panics exactly. -/
def PanicsOn (p : Parser α) (table : CrashTable) : Prop :=
  ∀ input, p input = .panic ↔ Listed table input

theorem listed_append (first others : CrashTable) (input : Bytes) :
    Listed (first ++ others) input ↔ Listed first input ∨ Listed others input := by
  simp only [Listed, List.mem_append, or_and_right, exists_or]

theorem listed_singleton (s : String) (bad : Bytes → Prop) (input : Bytes) :
    Listed [(s, bad)] input ↔ ∃ rest, input = ascii s ++ rest ∧ bad rest := by
  simp only [Listed, List.mem_singleton, exists_eq_left]

theorem ascii_append (s t : String) : ascii (s ++ t) = ascii s ++ ascii t := by
  simp [ascii]

theorem Quiet.panicsOn {p : Parser α} (quiet : Quiet p) : PanicsOn p [] := by
  intro input
  simp [Listed, quiet input]

theorem PanicsOn.map {p : Parser α} {table : CrashTable} (f : α → β) (inner : PanicsOn p table) :
    PanicsOn (f <$> p) table := by
  intro input
  rw [map_panic_iff, inner input]

theorem PanicsOn.complete {p : Parser α} {table : CrashTable} (inner : PanicsOn p table) :
    PanicsOn (complete p) table := by
  intro input
  rw [complete_panic_iff, inner input]

theorem PanicsOn.literal_bind (s : String) {f : Bytes → Parser β} {bad : Bytes → Prop}
    (inner : ∀ t rest, f t rest = .panic ↔ bad rest) : PanicsOn (literal s >>= f) [(s, bad)] := by
  intro input
  rw [listed_singleton, literal_bind_panic_iff]
  simp only [inner]

theorem PanicsOn.preceded (s : String) {p : Parser β} {bad : Bytes → Prop}
    (inner : ∀ rest, p rest = .panic ↔ bad rest) : PanicsOn (preceded (literal s) p) [(s, bad)] :=
  PanicsOn.literal_bind s fun _ => inner

/-- A name in front of a grammar goes in front of every name of its table. -/
theorem PanicsOn.under (s : String) {p : Parser β} {table : CrashTable} (inner : PanicsOn p table) :
    PanicsOn (Nom.preceded (literal s) p) (table.map fun entry => (s ++ entry.1, entry.2)) := by
  intro input
  rw [preceded_literal_panic_iff]
  simp only [inner _, Listed, List.mem_map]
  constructor
  · rintro ⟨_, rfl, entry, member, rest, rfl, bad⟩
    exact ⟨_, ⟨entry, member, rfl⟩, rest, by simp [ascii_append], bad⟩
  · rintro ⟨_, ⟨entry, member, rfl⟩, rest, rfl, bad⟩
    exact ⟨_, by rw [ascii_append, List.append_assoc], entry, member, rest, rfl, bad⟩

/-! ### Alternatives -/

/-- The parser rejects whatever starts with a name of the table. -/
def ErrorsOn (p : Parser α) (table : CrashTable) : Prop :=
  ∀ entry ∈ table, ∀ rest, p (ascii entry.1 ++ rest) = .error

theorem ErrorsOn.nil (p : Parser α) : ErrorsOn p [] := by
  simp [ErrorsOn]

theorem ErrorsOn.cons {p : Parser α} {s : String} {bad : Bytes → Prop} {table : CrashTable}
    (first : ∀ rest, p (ascii s ++ rest) = .error) (others : ErrorsOn p table) :
    ErrorsOn p ((s, bad) :: table) := by
  intro entry member
  rcases List.mem_cons.mp member with rfl | member
  · exact first
  · exact others entry member

theorem ErrorsOn.error_of_listed {p : Parser α} {table : CrashTable} (errors : ErrorsOn p table)
    {input : Bytes} (listed : Listed table input) : p input = .error := by
  obtain ⟨entry, member, rest, rfl, _⟩ := listed
  exact errors entry member rest

/-- Each alternative rejects the names of all later ones, so that those are reached. -/
inductive Apart : List (Parser α) → List CrashTable → Prop where
  | nil : Apart [] []
  | cons {p : Parser α} {ps : List (Parser α)} {table : CrashTable} {others : List CrashTable}
      (first : ErrorsOn p others.flatten) (rest : Apart ps others) : Apart (p :: ps) (table :: others)

/-- The table has names that start with one of the bytes. -/
def StartsWith (table : CrashTable) (firsts : Bytes) : Prop :=
  ∀ name ∈ table.map Prod.fst, ∃ b ∈ firsts, [b] <+: ascii name

instance (table : CrashTable) (firsts : Bytes) : Decidable (StartsWith table firsts) :=
  inferInstanceAs (Decidable (∀ name ∈ table.map Prod.fst, ∃ b ∈ firsts, [b] <+: ascii name))

/-- Alternatives that tell the later ones by the first byte. -/
inductive ApartByFirst : List (Parser α) → List Bytes → Prop where
  | nil : ApartByFirst [] []
  | cons {p : Parser α} {ps : List (Parser α)} {firsts : Bytes} {others : List Bytes}
      (first : ∀ b ∈ others.flatten, ∀ rest, p (b :: rest) = .error) (rest : ApartByFirst ps others) :
      ApartByFirst (p :: ps) (firsts :: others)

theorem errorsOn_of_startsWith {p : Parser α} {tables : List CrashTable} {firsts : List Bytes}
    (names : List.Forall₂ StartsWith tables firsts)
    (rejects : ∀ b ∈ firsts.flatten, ∀ rest, p (b :: rest) = .error) : ErrorsOn p tables.flatten := by
  induction names with
  | nil => exact .nil p
  | @cons table heads tables firsts start _ ih =>
    intro entry member rest
    rcases List.mem_append.mp member with own | later
    · obtain ⟨b, head, tail, name⟩ := start entry.1 (List.mem_map_of_mem own)
      rw [← name]
      exact rejects b (List.mem_append_left _ head) _
    · exact ih (fun b head => rejects b (List.mem_append_right _ head)) entry later rest

theorem Apart.of_first {ps : List (Parser α)} {tables : List CrashTable} {firsts : List Bytes}
    (names : List.Forall₂ StartsWith tables firsts) (apart : ApartByFirst ps firsts) : Apart ps tables := by
  induction names generalizing ps with
  | nil =>
    cases apart
    exact .nil
  | cons _ names ih =>
    obtain _ | ⟨first, rest⟩ := apart
    exact .cons (errorsOn_of_startsWith names first) (ih rest)

theorem PanicsOn.altComplete {ps : List (Parser α)} {tables : List CrashTable}
    (each : List.Forall₂ PanicsOn ps tables) (apart : Apart ps tables) :
    PanicsOn (altComplete ps) tables.flatten := by
  -- a later alternative panics only where the first one has rejected the input
  induction each with
  | nil => simp [PanicsOn, Nom.altComplete, Listed]
  | @cons p table ps tables first _ ih =>
    obtain _ | ⟨later, apart⟩ := apart
    intro input
    rw [List.flatten_cons, listed_append, ← first input, ← ih apart input,
      altComplete_cons_iff not_fails_panic p ps input]
    refine or_congr_right (and_iff_right_of_imp fun panicked => ?_)
    exact Or.inl (later.error_of_listed ((ih apart input).mp panicked))

theorem PanicsOn.alt {ps : List (Parser α)} {tables : List CrashTable}
    (each : List.Forall₂ PanicsOn ps tables) (apart : Apart ps tables) :
    PanicsOn (alt ps) tables.flatten := by
  induction each with
  | nil => simp [PanicsOn, Nom.alt, Listed]
  | @cons p table ps tables first _ ih =>
    obtain _ | ⟨later, apart⟩ := apart
    intro input
    rw [List.flatten_cons, listed_append, ← first input, ← ih apart input]
    have reached : Nom.alt ps input = .panic → p input = .error := fun panicked =>
      later.error_of_listed ((ih apart input).mp panicked)
    cases h : p input with
    | error => simp [Nom.alt, h]
    | panic => simp [Nom.alt, h]
    -- without `complete`, an input that is too short is not passed on
    | incomplete =>
      simp only [h, reduceCtorEq, imp_false] at reached
      simp [Nom.alt, h, reached]
    | done rest a =>
      simp only [h, reduceCtorEq, imp_false] at reached
      simp [Nom.alt, h, reached]

end Nom
