import CkbDebugger.Nom.Basic

/-!
# When a parser finishes and when it panics

Rules that push the two questions "does the parser finish, and where" and "does
it panic" through the combinators, so that a grammar is analysed production by
production.
-/
namespace Nom

variable {α β : Type}

@[simp] theorem pure_apply (a : α) (input : Bytes) : (pure a : Parser α) input = .done input a := rfl

@[simp] theorem bind_apply (p : Parser α) (f : α → Parser β) (input : Bytes) :
    (p >>= f) input = (p input).andThen fun rest a => f a rest := rfl

@[simp] theorem map_apply (f : α → β) (p : Parser α) (input : Bytes) :
    (f <$> p) input = (p input).andThen fun rest a => .done rest (f a) := rfl

@[simp] theorem andThen_done (rest : Bytes) (a : α) (f : Bytes → α → IResult β) :
    (IResult.done rest a).andThen f = f rest a := rfl

@[simp] theorem andThen_error (f : Bytes → α → IResult β) : (IResult.error).andThen f = .error := rfl

@[simp] theorem andThen_incomplete (f : Bytes → α → IResult β) :
    (IResult.incomplete).andThen f = .incomplete := rfl

theorem andThen_assoc {γ : Type} (r : IResult α) (f : Bytes → α → IResult β)
    (g : Bytes → β → IResult γ) :
    (r.andThen f).andThen g = r.andThen fun rest a => (f rest a).andThen g := by
  cases r <;> rfl

theorem andThen_done_iff (r : IResult α) (f : Bytes → α → IResult β) (final : Bytes) (b : β) :
    r.andThen f = .done final b ↔ ∃ rest a, r = .done rest a ∧ f rest a = .done final b := by
  cases r <;> simp [IResult.andThen]

theorem andThen_panic_iff (r : IResult α) (f : Bytes → α → IResult β) :
    r.andThen f = .panic ↔ r = .panic ∨ ∃ rest a, r = .done rest a ∧ f rest a = .panic := by
  cases r <;> simp [IResult.andThen]

theorem andThen_error_iff (r : IResult α) (f : Bytes → α → IResult β) :
    r.andThen f = .error ↔ r = .error ∨ ∃ rest a, r = .done rest a ∧ f rest a = .error := by
  cases r <;> simp [IResult.andThen]

theorem andThen_incomplete_iff (r : IResult α) (f : Bytes → α → IResult β) :
    r.andThen f = .incomplete ↔ r = .incomplete ∨ ∃ rest a, r = .done rest a ∧ f rest a = .incomplete := by
  cases r <;> simp [IResult.andThen]

theorem map_panic_iff (f : α → β) (p : Parser α) (input : Bytes) :
    (f <$> p) input = .panic ↔ p input = .panic := by
  simp [andThen_panic_iff]

theorem map_done_iff (f : α → β) (p : Parser α) (input rest : Bytes) (b : β) :
    (f <$> p) input = .done rest b ↔ ∃ a, p input = .done rest a ∧ f a = b := by
  simp only [map_apply, andThen_done_iff, IResult.done.injEq]
  constructor
  · rintro ⟨_, a, done, rfl, equal⟩
    exact ⟨a, done, equal⟩
  · rintro ⟨a, done, equal⟩
    exact ⟨rest, a, done, rfl, equal⟩

/-! ### Tags -/

theorem tag_append (t rest : Bytes) : tag t (t ++ rest) = .done rest t := by
  simp [tag]

theorem tag_done_iff (t input rest value : Bytes) :
    tag t input = .done rest value ↔ input = t ++ rest ∧ value = t := by
  constructor
  · intro h
    unfold tag at h
    split at h
    next isPrefix =>
      obtain ⟨tail, rfl⟩ := List.isPrefixOf_iff_prefix.mp isPrefix
      simp only [List.drop_left, IResult.done.injEq] at h
      exact ⟨by rw [h.1], h.2.symm⟩
    · split at h <;> cases h
  · rintro ⟨rfl, rfl⟩
    exact tag_append _ _

theorem tag_ne_panic (t input : Bytes) : tag t input ≠ .panic := by
  unfold tag
  split
  · simp
  · split <;> simp

theorem literal_append (s : String) (rest : Bytes) :
    literal s (ascii s ++ rest) = .done rest (ascii s) := tag_append _ _

theorem literal_done_iff (s : String) (input rest value : Bytes) :
    literal s input = .done rest value ↔ input = ascii s ++ rest ∧ value = ascii s :=
  tag_done_iff _ _ _ _

theorem literal_ne_panic (s : String) (input : Bytes) : literal s input ≠ .panic := tag_ne_panic _ _

theorem literal_incomplete_iff (s : String) (input : Bytes) :
    literal s input = .incomplete ↔ input <+: ascii s ∧ input ≠ ascii s := by
  unfold literal tag
  by_cases whole : (ascii s).isPrefixOf input = true
  · simp only [whole, if_true, reduceCtorEq, false_iff, not_and, not_not]
    intro short
    exact List.IsPrefix.eq_of_length_le short (List.isPrefixOf_iff_prefix.mp whole).length_le
  · by_cases short : input.isPrefixOf (ascii s) = true
    · simp only [whole, short, Bool.false_eq_true, if_false, if_true, true_iff]
      refine ⟨List.isPrefixOf_iff_prefix.mp short, ?_⟩
      rintro rfl
      simp at whole
    · simp only [whole, short, Bool.false_eq_true, if_false, reduceCtorEq, false_iff]
      exact fun h => short (List.isPrefixOf_iff_prefix.mpr h.1)

/-- A single byte is cut off only at the end of the input. -/
theorem literal_byte_incomplete_iff {s : String} (b : UInt8) (byte : ascii s = [b]) (input : Bytes) :
    literal s input = .incomplete ↔ input = [] := by
  rw [literal_incomplete_iff, byte]
  cases input with
  | nil => simp
  | cons c input => simp +contextual [List.cons_prefix_cons]

/-- A literal never panics, so what follows it must. -/
theorem literal_bind_panic_iff (s : String) (f : Bytes → Parser β) (input : Bytes) :
    (literal s >>= f) input = .panic ↔ ∃ rest, input = ascii s ++ rest ∧ f (ascii s) rest = .panic := by
  simp only [bind_apply, andThen_panic_iff, literal_ne_panic, literal_done_iff, false_or]
  constructor
  · rintro ⟨rest, _, ⟨equal, rfl⟩, panicked⟩
    exact ⟨rest, equal, panicked⟩
  · rintro ⟨rest, equal, panicked⟩
    exact ⟨rest, ascii s, ⟨equal, rfl⟩, panicked⟩

theorem preceded_literal_append (s : String) (p : Parser β) (rest : Bytes) :
    preceded (literal s) p (ascii s ++ rest) = p rest := by
  rw [preceded, bind_apply, literal_append, andThen_done]

theorem preceded_literal_panic_iff (s : String) (p : Parser β) (input : Bytes) :
    preceded (literal s) p input = .panic ↔ ∃ rest, input = ascii s ++ rest ∧ p rest = .panic :=
  literal_bind_panic_iff s (fun _ => p) input

theorem preceded_literal_done_iff (s : String) (p : Parser β) (input final : Bytes) (b : β) :
    preceded (literal s) p input = .done final b ↔
      ∃ rest, input = ascii s ++ rest ∧ p rest = .done final b := by
  unfold preceded
  simp only [bind_apply, andThen_done_iff, literal_done_iff]
  constructor
  · rintro ⟨rest, _, ⟨equal, _⟩, done⟩
    exact ⟨rest, equal, done⟩
  · rintro ⟨rest, equal, done⟩
    exact ⟨rest, ascii s, ⟨equal, rfl⟩, done⟩

theorem take_done_iff (count : Nat) (input rest value : Bytes) :
    take count input = .done rest value ↔ input = value ++ rest ∧ value.length = count := by
  unfold take
  split
  next enough =>
    simp only [IResult.done.injEq]
    constructor
    · rintro ⟨rfl, rfl⟩
      exact ⟨(List.take_append_drop count input).symm, List.length_take_of_le enough⟩
    · rintro ⟨rfl, rfl⟩
      exact ⟨List.drop_left, List.take_left⟩
  next short =>
    simp only [reduceCtorEq, false_iff]
    rintro ⟨rfl, rfl⟩
    simp at short

theorem take_ne_error (count : Nat) (input : Bytes) : take count input ≠ .error := by
  unfold take
  split <;> simp

theorem take_incomplete_iff (count : Nat) (input : Bytes) : take count input = .incomplete ↔ input.length < count := by
  unfold take
  split
  next enough => simp [enough]
  next short => simpa using short

/-! ### Modifiers -/

theorem complete_panic_iff (p : Parser α) (input : Bytes) :
    complete p input = .panic ↔ p input = .panic := by
  unfold complete
  cases p input <;> simp

theorem complete_done_iff (p : Parser α) (input rest : Bytes) (a : α) :
    complete p input = .done rest a ↔ p input = .done rest a := by
  unfold complete
  cases p input <;> simp

theorem opt_panic_iff (p : Parser α) (input : Bytes) :
    opt p input = .panic ↔ p input = .panic := by
  unfold opt
  cases p input <;> simp

theorem opt_incomplete_iff (p : Parser α) (input : Bytes) :
    opt p input = .incomplete ↔ p input = .incomplete := by
  unfold opt
  cases p input <;> simp

theorem complete_ne_incomplete (p : Parser α) (input : Bytes) : complete p input ≠ .incomplete := by
  unfold complete
  cases p input <;> simp

theorem mapRes_panic_iff (p : Parser α) (f : α → Option β) (input : Bytes) :
    mapRes p f input = .panic ↔ p input = .panic := by
  unfold mapRes
  cases p input with
  | done rest a => cases h : f a <;> simp [IResult.andThen, h]
  | incomplete => simp
  | error => simp
  | panic => simp [IResult.andThen]

theorem mapRes_done_iff (p : Parser α) (f : α → Option β) (input rest : Bytes) (b : β) :
    mapRes p f input = .done rest b ↔ ∃ a, p input = .done rest a ∧ f a = some b := by
  unfold mapRes
  cases p input with
  | done r a =>
    cases h : f a with
    | none => simp [h]
    | some c =>
      simp only [andThen_done, h, IResult.done.injEq]
      constructor
      · rintro ⟨rfl, rfl⟩
        exact ⟨a, ⟨rfl, rfl⟩, h⟩
      · rintro ⟨_, ⟨rfl, rfl⟩, equal⟩
        exact ⟨rfl, Option.some.inj (h.symm.trans equal)⟩
  | incomplete => simp
  | error => simp
  | panic => simp [IResult.andThen]

/-! ### Alternatives -/

/-- The alternative fails and leaves the choice to the next one. -/
def Fails (r : IResult α) : Prop := r = .error ∨ r = .incomplete

theorem Fails.andThen {r : IResult α} (failed : Fails r) (f : Bytes → α → IResult β) : Fails (r.andThen f) := by
  rcases failed with rfl | rfl
  · exact Or.inl rfl
  · exact Or.inr rfl

theorem literal_fails (s : String) (input : Bytes) (mismatch : ¬ascii s <+: input) :
    Fails (literal s input) := by
  have notPrefix : (ascii s).isPrefixOf input = false := by
    simpa [← List.isPrefixOf_iff_prefix] using mismatch
  simp only [Fails, literal, tag, notPrefix]
  by_cases short : input.isPrefixOf (ascii s) = true <;> simp [short]

theorem literal_byte_error_iff {s : String} (b : UInt8) (byte : ascii s = [b]) (input : Bytes) :
    literal s input = .error ↔ input ≠ [] ∧ ¬ascii s <+: input := by
  rw [Ne, ← literal_byte_incomplete_iff b byte]
  constructor
  · intro rejected
    refine ⟨by simp [rejected], ?_⟩
    rintro ⟨rest, rfl⟩
    rw [literal_append] at rejected
    cases rejected
  · rintro ⟨whole, mismatch⟩
    rcases literal_fails s input mismatch with rejected | cut
    · exact rejected
    · exact absurd cut whole

theorem altComplete_singleton (p : Parser α) (input : Bytes) : altComplete [p] input = p input := rfl

theorem altComplete_cons_of_fails {p : Parser α} {input : Bytes} (failed : Fails (p input)) (q : Parser α)
    (ps : List (Parser α)) : altComplete (p :: q :: ps) input = altComplete (q :: ps) input := by
  rcases failed with failed | failed
  · simp only [altComplete, failed]
  · simp only [altComplete, failed]

/-- The first alternative that does not fail decides. -/
theorem altComplete_cons_of_not_fails {p : Parser α} {input : Bytes} (taken : ¬Fails (p input))
    (ps : List (Parser α)) : altComplete (p :: ps) input = p input := by
  cases ps with
  | nil => rfl
  | cons q ps =>
    cases result : p input with
    | error => exact absurd (Or.inl result) taken
    | incomplete => exact absurd (Or.inr result) taken
    | panic => simp only [altComplete, result]
    | done rest a => simp only [altComplete, result]

theorem altComplete_cons_of_done {p : Parser α} {input rest : Bytes} {a : α} (read : p input = .done rest a)
    (ps : List (Parser α)) : altComplete (p :: ps) input = .done rest a := by
  rw [altComplete_cons_of_not_fails (by simp [Fails, read]), read]

theorem not_fails_done (rest : Bytes) (a : α) : ¬Fails (.done rest a) := by
  simp [Fails]

theorem not_fails_panic : ¬Fails (.panic : IResult α) := by
  simp [Fails]

/-- Whatever the last alternative is, only what does not fail is told apart here. -/
theorem altComplete_cons_iff {r : IResult α} (taken : ¬Fails r) (p : Parser α) (ps : List (Parser α))
    (input : Bytes) :
    altComplete (p :: ps) input = r ↔ p input = r ∨ Fails (p input) ∧ altComplete ps input = r := by
  by_cases failed : Fails (p input)
  -- an error or an incomplete alternative is passed over, and `r` is neither
  · have differs : p input ≠ r := fun same => taken (same ▸ failed)
    cases ps with
    | nil =>
      have rejects : altComplete ([] : List (Parser α)) input ≠ r := fun same => taken (same ▸ Or.inl rfl)
      simp [altComplete_singleton, differs, rejects]
    | cons q ps => simp [altComplete_cons_of_fails failed, differs, failed]
  · simp [altComplete_cons_of_not_fails failed, failed]

theorem altComplete_mem {r : IResult α} (taken : ¬Fails r) (ps : List (Parser α)) (input : Bytes)
    (ended : altComplete ps input = r) : ∃ p ∈ ps, p input = r := by
  induction ps with
  | nil => exact absurd (ended ▸ Or.inl rfl) taken
  | cons p ps ih =>
    rcases (altComplete_cons_iff taken p ps input).mp ended with found | ⟨_, later⟩
    · exact ⟨p, List.mem_cons_self, found⟩
    · obtain ⟨q, member, found⟩ := ih later
      exact ⟨q, List.mem_cons_of_mem p member, found⟩

theorem altComplete_panic_mem (ps : List (Parser α)) (input : Bytes)
    (panicked : altComplete ps input = .panic) : ∃ p ∈ ps, p input = .panic :=
  altComplete_mem not_fails_panic ps input panicked

theorem altComplete_done_mem (ps : List (Parser α)) (input rest : Bytes) (a : α)
    (finished : altComplete ps input = .done rest a) : ∃ p ∈ ps, p input = .done rest a :=
  altComplete_mem (not_fails_done rest a) ps input finished

/-- Only the last alternative can be incomplete. -/
theorem altComplete_incomplete_iff (ps : List (Parser α)) (last : Parser α) (input : Bytes) :
    altComplete (ps ++ [last]) input = .incomplete ↔
      (∀ p ∈ ps, Fails (p input)) ∧ last input = .incomplete := by
  induction ps with
  | nil => simp [altComplete_singleton]
  | cons p ps ih =>
    obtain ⟨q, qs, others⟩ : ∃ q qs, ps ++ [last] = q :: qs := List.exists_cons_of_ne_nil (by simp)
    rw [List.cons_append, others, List.forall_mem_cons]
    by_cases failed : Fails (p input)
    · rw [altComplete_cons_of_fails failed, ← others, ih]
      simp only [failed, true_and]
    -- an alternative that is taken has not been incomplete
    · rw [altComplete_cons_of_not_fails failed]
      simp only [failed, false_and, iff_false]
      exact fun cut => failed (Or.inr cut)

theorem alt_cons_of_error {p : Parser α} {input : Bytes} (failed : p input = .error)
    (ps : List (Parser α)) : alt (p :: ps) input = alt ps input := by
  simp only [alt, failed]

theorem alt_cons_of_ne_error {p : Parser α} {input : Bytes} (taken : p input ≠ .error)
    (ps : List (Parser α)) : alt (p :: ps) input = p input := by
  cases result : p input with
  | error => exact absurd result taken
  | _ => simp only [alt, result]

theorem alt_cons_of_done {p : Parser α} {input rest : Bytes} {a : α} (read : p input = .done rest a)
    (ps : List (Parser α)) : alt (p :: ps) input = .done rest a := by
  rw [alt_cons_of_ne_error (by simp [read]), read]

/-- An alternative decides alone where the ones after it reject the input. -/
theorem alt_cons_of_others_error (p : Parser α) {ps : List (Parser α)} {input : Bytes}
    (others : alt ps input = .error) : alt (p :: ps) input = p input := by
  by_cases failed : p input = .error
  · rw [alt_cons_of_error failed, others, failed]
  · exact alt_cons_of_ne_error failed ps

theorem alt_done_mem (ps : List (Parser α)) (input rest : Bytes) (a : α)
    (finished : alt ps input = .done rest a) : ∃ p ∈ ps, p input = .done rest a := by
  induction ps with
  | nil => cases finished
  | cons p ps ih =>
    by_cases failed : p input = .error
    · rw [alt_cons_of_error failed] at finished
      obtain ⟨q, member, found⟩ := ih finished
      exact ⟨q, List.mem_cons_of_mem p member, found⟩
    · rw [alt_cons_of_ne_error failed] at finished
      exact ⟨p, List.mem_cons_self, finished⟩

theorem altComplete_panic_of (before after : List (Parser α)) (p : Parser α) (input : Bytes)
    (fails : ∀ q ∈ before, Fails (q input)) (panicked : p input = .panic) :
    altComplete (before ++ p :: after) input = .panic := by
  induction before with
  | nil => exact (altComplete_cons_iff not_fails_panic p after input).mpr (Or.inl panicked)
  | cons q qs ih =>
    refine (altComplete_cons_iff not_fails_panic q _ input).mpr (Or.inr ⟨fails q List.mem_cons_self, ?_⟩)
    exact ih fun r member => fails r (List.mem_cons_of_mem q member)

/-! ### Parsers that never panic -/

def Quiet (p : Parser α) : Prop := ∀ input, p input ≠ .panic

theorem quiet_pure (a : α) : Quiet (pure a : Parser α) := by
  intro input
  simp

theorem quiet_bind {p : Parser α} {f : α → Parser β} (first : Quiet p) (others : ∀ a, Quiet (f a)) :
    Quiet (p >>= f) := by
  intro input
  rw [bind_apply, Ne, andThen_panic_iff]
  rintro (panicked | ⟨rest, a, _, panicked⟩)
  · exact first input panicked
  · exact others a rest panicked

theorem quiet_map {p : Parser α} (f : α → β) (inner : Quiet p) : Quiet (f <$> p) := by
  intro input panicked
  exact inner input ((map_panic_iff f p input).mp panicked)

theorem quiet_preceded {p : Parser α} {q : Parser β} (first : Quiet p) (second : Quiet q) :
    Quiet (preceded p q) := quiet_bind first fun _ => second

theorem quiet_separatedPair {γ : Type} {p : Parser α} {sep : Parser γ} {q : Parser β}
    (first : Quiet p) (middle : Quiet sep) (last : Quiet q) : Quiet (separatedPair p sep q) :=
  quiet_bind first fun _ => quiet_bind middle fun _ => quiet_bind last fun _ => quiet_pure _

theorem quiet_literal (s : String) : Quiet (literal s) := literal_ne_panic s

theorem quiet_take (count : Nat) : Quiet (take count) := by
  intro input
  unfold take
  split <;> simp

theorem quiet_takeRest : Quiet takeRest := by
  intro input
  simp [takeRest]

theorem quiet_isNot (stop : Bytes) : Quiet (isNot stop) := by
  intro input
  unfold isNot
  split
  · simp
  · split <;> simp

theorem quiet_takeUntil (delimiter : UInt8) : Quiet (takeUntil delimiter) := by
  intro input
  unfold takeUntil
  split
  · simp
  · split <;> simp

theorem quiet_oneOf (set : Bytes) : Quiet (oneOf set) := by
  intro input
  unfold oneOf
  split
  · simp
  · split <;> simp

theorem quiet_eof : Quiet eof := by
  intro input
  unfold eof
  split <;> simp

theorem quiet_mapRes {p : Parser α} (f : α → Option β) (inner : Quiet p) : Quiet (mapRes p f) := by
  intro input panicked
  exact inner input ((mapRes_panic_iff p f input).mp panicked)

theorem quiet_complete {p : Parser α} (inner : Quiet p) : Quiet (complete p) := by
  intro input panicked
  exact inner input ((complete_panic_iff p input).mp panicked)

theorem quiet_flatMap {p : Parser Bytes} {q : Parser α} (outer : Quiet p) (inner : Quiet q) :
    Quiet (flatMap p q) := by
  intro input
  unfold flatMap
  simp only [Ne, andThen_panic_iff, reduceCtorEq, and_false, exists_false, or_false]
  rintro (panicked | ⟨rest, a, _, panicked⟩)
  · exact outer input panicked
  · exact inner a panicked

theorem quiet_altComplete {ps : List (Parser α)} (each : ∀ p ∈ ps, Quiet p) :
    Quiet (altComplete ps) := by
  intro input panicked
  obtain ⟨p, member, found⟩ := altComplete_panic_mem ps input panicked
  exact each p member input found

theorem quiet_many1Loop {p : Parser α} (each : Quiet p) (rounds : Nat) :
    Quiet (many1Loop p rounds) := by
  induction rounds with
  | zero => simp [Quiet, many1Loop]
  | succ rounds ih =>
    intro input
    unfold many1Loop
    split
    · simp
    · split
      · simp
      · simp
      next panicked => exact absurd panicked (each input)
      · split
        · simp
        · simp only [Ne, andThen_panic_iff, reduceCtorEq, and_false, exists_false, or_false]
          exact ih _

theorem quiet_many1 {p : Parser α} (each : Quiet p) : Quiet (many1 p) := by
  intro input
  unfold many1
  simp only [Ne, andThen_panic_iff, reduceCtorEq, and_false, exists_false, or_false]
  rintro (panicked | ⟨rest, a, _, panicked⟩)
  · exact each input panicked
  · exact quiet_many1Loop each rest.length rest panicked

theorem quiet_separatedLoop {sep : Parser β} {p : Parser α} (sepQuiet : Quiet sep)
    (each : Quiet p) (rounds : Nat) : Quiet (separatedLoop sep p rounds) := by
  induction rounds with
  | zero => simp [Quiet, separatedLoop]
  | succ rounds ih =>
    intro input
    unfold separatedLoop
    split
    next panicked => exact absurd panicked (quiet_complete sepQuiet input)
    · split
      · simp
      · split
        next panicked => exact absurd panicked (quiet_complete each _)
        · split
          · simp
          · simp only [Ne, andThen_panic_iff, reduceCtorEq, and_false, exists_false, or_false]
            exact ih _
        · simp
    · simp

theorem quiet_separatedListComplete {sep : Parser β} {p : Parser α} (sepQuiet : Quiet sep)
    (each : Quiet p) : Quiet (separatedListComplete sep p) := by
  intro input
  unfold separatedListComplete
  split
  · simp
  · simp
  next panicked => exact absurd panicked (quiet_complete each input)
  · split
    · simp
    · simp only [Ne, andThen_panic_iff, reduceCtorEq, and_false, exists_false, or_false]
      exact quiet_separatedLoop sepQuiet each _ _

/-! ### How much is read -/

/-- No finished parse leaves more than it was given. -/
def Shrinks (p : Parser α) : Prop :=
  ∀ input rest a, p input = .done rest a → rest.length ≤ input.length

/-- Every finished parse reads something. -/
def Consumes (p : Parser α) : Prop :=
  ∀ input rest a, p input = .done rest a → rest.length < input.length

theorem Consumes.shrinks {p : Parser α} (consumes : Consumes p) : Shrinks p :=
  fun input rest a done => Nat.le_of_lt (consumes input rest a done)

theorem shrinks_pure (a : α) : Shrinks (pure a : Parser α) := by
  intro input rest b done
  simp only [pure_apply, IResult.done.injEq] at done
  rw [done.1]

theorem consumes_bind {p : Parser α} {f : α → Parser β} (first : Consumes p)
    (others : ∀ a, Shrinks (f a)) : Consumes (p >>= f) := by
  intro input rest b done
  simp only [bind_apply, andThen_done_iff] at done
  obtain ⟨middle, a, started, finished⟩ := done
  exact Nat.lt_of_le_of_lt (others a middle rest b finished) (first input middle a started)

theorem shrinks_bind {p : Parser α} {f : α → Parser β} (first : Shrinks p)
    (others : ∀ a, Shrinks (f a)) : Shrinks (p >>= f) := by
  intro input rest b done
  simp only [bind_apply, andThen_done_iff] at done
  obtain ⟨middle, a, started, finished⟩ := done
  exact Nat.le_trans (others a middle rest b finished) (first input middle a started)

theorem shrinks_map {p : Parser α} (f : α → β) (inner : Shrinks p) : Shrinks (f <$> p) := by
  intro input rest b done
  obtain ⟨a, finished, _⟩ := (map_done_iff f p input rest b).mp done
  exact inner input rest a finished

theorem shrinks_literal (s : String) : Shrinks (literal s) := by
  intro input rest value done
  rw [((literal_done_iff s input rest value).mp done).1, List.length_append]
  exact Nat.le_add_left _ _

theorem consumes_literal (s : String) (nonempty : ascii s ≠ []) : Consumes (literal s) := by
  intro input rest value done
  have positive := List.length_pos_iff.mpr nonempty
  rw [((literal_done_iff s input rest value).mp done).1, List.length_append]
  omega

theorem shrinks_preceded {p : Parser α} {q : Parser β} (first : Shrinks p) (second : Shrinks q) :
    Shrinks (preceded p q) := shrinks_bind first fun _ => second

theorem shrinks_separatedPair {γ : Type} {p : Parser α} {sep : Parser γ} {q : Parser β}
    (first : Shrinks p) (middle : Shrinks sep) (last : Shrinks q) :
    Shrinks (separatedPair p sep q) :=
  shrinks_bind first fun _ => shrinks_bind middle fun _ => shrinks_bind last fun _ => shrinks_pure _

theorem shrinks_take (count : Nat) : Shrinks (take count) := by
  intro input rest value done
  unfold take at done
  split at done
  · simp only [IResult.done.injEq] at done
    rw [← done.1, List.length_drop]
    exact Nat.sub_le _ _
  · cases done

theorem shrinks_complete {p : Parser α} (inner : Shrinks p) : Shrinks (complete p) := by
  intro input rest a done
  exact inner input rest a ((complete_done_iff p input rest a).mp done)

theorem shrinks_opt {p : Parser α} (inner : Shrinks p) : Shrinks (opt p) := by
  intro input rest value done
  unfold opt at done
  split at done
  next h =>
    simp only [IResult.done.injEq] at done
    rw [← done.1]
    exact inner _ _ _ h
  · simp only [IResult.done.injEq] at done
    rw [done.1]
  · cases done
  · cases done

theorem shrinks_altComplete {ps : List (Parser α)} (each : ∀ p ∈ ps, Shrinks p) :
    Shrinks (altComplete ps) := by
  intro input rest a done
  obtain ⟨p, member, found⟩ := altComplete_done_mem ps input rest a done
  exact each p member input rest a found

/-! ### Repetition -/

/-- `Reads p i j`: reading elements with `p` one after another leads from `i` to `j`. -/
inductive Reads (p : Parser α) : Bytes → Bytes → Prop where
  | refl (input : Bytes) : Reads p input input
  | step {input rest final : Bytes} (a : α) (first : p input = .done rest a)
      (others : Reads p rest final) : Reads p input final

/-- What a repetition comes to is its input, or what it comes to after a first element. -/
theorem exists_reads_iff (p : Parser α) (there : Bytes → Prop) (input : Bytes) :
    (∃ j, Reads p input j ∧ there j) ↔
      there input ∨ ∃ rest a, p input = .done rest a ∧ ∃ j, Reads p rest j ∧ there j := by
  constructor
  · rintro ⟨j, reads, holds⟩
    cases reads with
    | refl => exact Or.inl holds
    | step a first others => exact Or.inr ⟨_, a, first, j, others, holds⟩
  · rintro (holds | ⟨rest, a, first, j, others, holds⟩)
    · exact ⟨input, .refl input, holds⟩
    · exact ⟨j, .step a first others, holds⟩

theorem Consumes.nil_ne_done {p : Parser α} (consumes : Consumes p) (rest : Bytes) (a : α) :
    p [] ≠ .done rest a := by
  intro done
  exact absurd (consumes [] rest a done) (Nat.not_lt_zero _)

/-- A repetition stops at the first input on which its element does not finish, so it panics
exactly when the element panics there. -/
theorem many0Loop_panic_iff (p : Parser α) (consumes : Consumes p) (quiet : p [] ≠ .panic)
    (rounds : Nat) (input : Bytes) (enough : input.length ≤ rounds) :
    many0Loop p rounds input = .panic ↔ ∃ j, Reads p input j ∧ p j = .panic := by
  induction rounds generalizing input with
  | zero =>
    have nil : input = [] := List.eq_nil_of_length_eq_zero (by omega)
    subst nil
    rw [exists_reads_iff]
    simp [many0Loop, quiet, consumes.nil_ne_done]
  | succ rounds ih =>
    rw [exists_reads_iff]
    by_cases nil : input = []
    · subst nil
      simp [many0Loop, quiet, consumes.nil_ne_done]
    · cases h : p input with
      | error => simp [many0Loop, nil, h]
      | incomplete => simp [many0Loop, nil, h]
      | panic => simp [many0Loop, nil, h]
      | done rest a =>
        have shorter := consumes input rest a h
        -- a consuming element is never stopped by the test for one that reads nothing
        have differs : rest ≠ input := by
          intro same
          rw [same] at shorter
          exact Nat.lt_irrefl _ shorter
        have next := ih rest (by omega)
        simp only [many0Loop, nil, h, differs, if_false, andThen_panic_iff, reduceCtorEq, and_false,
          exists_false, or_false, false_or, IResult.done.injEq]
        rw [next]
        constructor
        · exact fun found => ⟨rest, a, ⟨rfl, rfl⟩, found⟩
        · rintro ⟨_, _, ⟨rfl, rfl⟩, found⟩
          exact found

/-- A repetition of a consuming element finishes at the first input that is
empty or on which the element is an error. -/
theorem many0Loop_done_iff (p : Parser α) (consumes : Consumes p) (rounds : Nat)
    (input final : Bytes) (enough : input.length ≤ rounds) :
    (∃ as, many0Loop p rounds input = .done final as) ↔
      Reads p input final ∧ (final = [] ∨ p final = .error) := by
  induction rounds generalizing input with
  | zero =>
    have nil : input = [] := List.eq_nil_of_length_eq_zero (by omega)
    subst nil
    simp only [many0Loop, IResult.done.injEq, exists_and_left, exists_eq', and_true]
    constructor
    · rintro rfl
      exact ⟨.refl [], Or.inl rfl⟩
    · rintro ⟨reads, _⟩
      cases reads with
      | refl => rfl
      | step a first _ => exact absurd first (consumes.nil_ne_done _ _)
  | succ rounds ih =>
    by_cases nil : input = []
    · subst nil
      simp only [many0Loop, if_true, IResult.done.injEq, exists_and_left, exists_eq', and_true]
      constructor
      · rintro rfl
        exact ⟨.refl [], Or.inl rfl⟩
      · rintro ⟨reads, _⟩
        cases reads with
        | refl => rfl
        | step a first _ => exact absurd first (consumes.nil_ne_done _ _)
    · cases h : p input with
      | error =>
        simp only [many0Loop, nil, h, if_false, IResult.done.injEq, exists_and_left, exists_eq',
          and_true]
        constructor
        · rintro rfl
          exact ⟨.refl _, Or.inr h⟩
        · rintro ⟨reads, _⟩
          cases reads with
          | refl => rfl
          | step a first _ => simp [h] at first
      | incomplete =>
        simp only [many0Loop, nil, h, if_false, reduceCtorEq, exists_false, false_iff]
        rintro ⟨reads, ending⟩
        cases reads with
        | refl => simp [nil, h] at ending
        | step a first _ => simp [h] at first
      | panic =>
        simp only [many0Loop, nil, h, if_false, reduceCtorEq, exists_false, false_iff]
        rintro ⟨reads, ending⟩
        cases reads with
        | refl => simp [nil, h] at ending
        | step a first _ => simp [h] at first
      | done rest a =>
        have shorter := consumes input rest a h
        have differs : rest ≠ input := by
          intro same
          rw [same] at shorter
          exact Nat.lt_irrefl _ shorter
        have next := ih rest (by omega)
        simp only [many0Loop, nil, h, differs, if_false, andThen_done_iff, IResult.done.injEq]
        constructor
        · rintro ⟨_, stop, as, found, rfl, _⟩
          obtain ⟨reads, ending⟩ := next.mp ⟨as, found⟩
          exact ⟨.step a h reads, ending⟩
        · rintro ⟨reads, ending⟩
          cases reads with
          | refl => simp [nil, h] at ending
          | step b first others =>
            rw [h] at first
            cases first
            obtain ⟨as, found⟩ := next.mpr ⟨others, ending⟩
            exact ⟨a :: as, final, as, found, rfl, rfl⟩

theorem many1Loop_eq_many0Loop (p : Parser α) (consumes : Consumes p) (rounds : Nat)
    (input : Bytes) : many1Loop p rounds input = many0Loop p rounds input := by
  induction rounds generalizing input with
  | zero => rfl
  | succ rounds ih =>
    by_cases nil : input = []
    · simp [many1Loop, many0Loop, nil]
    · cases h : p input with
      | error => simp [many1Loop, many0Loop, nil, h]
      | incomplete => simp [many1Loop, many0Loop, nil, h]
      | panic => simp [many1Loop, many0Loop, nil, h]
      | done rest a =>
        have shorter := consumes input rest a h
        have length : rest.length ≠ input.length := by omega
        have differs : rest ≠ input := fun same => length (congrArg List.length same)
        simp only [many1Loop, many0Loop, nil, h, length, differs, if_false, ih]

theorem many0_panic_iff (p : Parser α) (consumes : Consumes p) (quiet : p [] ≠ .panic)
    (input : Bytes) : many0 p input = .panic ↔ ∃ j, Reads p input j ∧ p j = .panic :=
  many0Loop_panic_iff p consumes quiet input.length input (Nat.le_refl _)

theorem many1_panic_iff (p : Parser α) (consumes : Consumes p) (quiet : p [] ≠ .panic)
    (input : Bytes) : many1 p input = .panic ↔ ∃ j, Reads p input j ∧ p j = .panic := by
  rw [exists_reads_iff]
  simp only [many1, andThen_panic_iff, reduceCtorEq, and_false,
    exists_false, or_false, many1Loop_eq_many0Loop p consumes,
    many0Loop_panic_iff p consumes quiet _ _ (Nat.le_refl _)]

/-- A repetition is incomplete where a further element has been begun and is incomplete. -/
theorem many0Loop_incomplete_iff (p : Parser α) (consumes : Consumes p) (rounds : Nat) (input : Bytes)
    (enough : input.length ≤ rounds) :
    many0Loop p rounds input = .incomplete ↔ ∃ j, Reads p input j ∧ j ≠ [] ∧ p j = .incomplete := by
  induction rounds generalizing input with
  | zero =>
    have nil : input = [] := List.eq_nil_of_length_eq_zero (by omega)
    subst nil
    rw [exists_reads_iff]
    simp [many0Loop, consumes.nil_ne_done]
  | succ rounds ih =>
    rw [exists_reads_iff]
    by_cases nil : input = []
    -- at the end of the input the repetition is done, whatever its element says of it
    · subst nil
      simp [many0Loop, consumes.nil_ne_done]
    · cases h : p input with
      | error => simp [many0Loop, nil, h]
      | incomplete => simp [many0Loop, nil, h]
      | panic => simp [many0Loop, nil, h]
      | done rest a =>
        have shorter := consumes input rest a h
        have differs : rest ≠ input := by
          intro same
          rw [same] at shorter
          exact Nat.lt_irrefl _ shorter
        simp only [many0Loop, nil, h, differs, if_false, andThen_incomplete_iff, reduceCtorEq, and_false,
          exists_false, or_false, false_or, IResult.done.injEq]
        rw [ih rest (by omega)]
        constructor
        · exact fun found => ⟨rest, a, ⟨rfl, rfl⟩, found⟩
        · rintro ⟨_, _, ⟨rfl, rfl⟩, found⟩
          exact found

theorem many1_incomplete_iff (p : Parser α) (consumes : Consumes p) (input : Bytes) :
    many1 p input = .incomplete ↔
      (input = [] ∧ p [] = .incomplete) ∨ ∃ j, Reads p input j ∧ j ≠ [] ∧ p j = .incomplete := by
  rw [exists_reads_iff]
  simp only [many1, andThen_incomplete_iff, reduceCtorEq, and_false, exists_false, or_false,
    many1Loop_eq_many0Loop p consumes, many0Loop_incomplete_iff p consumes _ _ (Nat.le_refl _)]
  rw [← or_assoc]
  refine or_congr_left ⟨fun cut => ?_, ?_⟩
  · by_cases nil : input = []
    · exact Or.inl ⟨nil, nil ▸ cut⟩
    · exact Or.inr ⟨nil, cut⟩
  · rintro (⟨rfl, cut⟩ | ⟨_, cut⟩)
    · exact cut
    · exact cut

theorem many1_done_iff (p : Parser α) (consumes : Consumes p) (input final : Bytes) :
    (∃ as, many1 p input = .done final as) ↔
      ∃ rest a, p input = .done rest a ∧ Reads p rest final ∧ (final = [] ∨ p final = .error) := by
  simp only [many1, andThen_done_iff, IResult.done.injEq, many1Loop_eq_many0Loop p consumes]
  constructor
  · rintro ⟨_, rest, a, first, stop, as, found, rfl, _⟩
    exact ⟨rest, a, first, (many0Loop_done_iff p consumes _ _ _ (Nat.le_refl _)).mp ⟨as, found⟩⟩
  · rintro ⟨rest, a, first, reads⟩
    obtain ⟨as, found⟩ := (many0Loop_done_iff p consumes _ _ _ (Nat.le_refl _)).mpr reads
    exact ⟨a :: as, rest, a, first, final, as, found, rfl, rfl⟩

/-- After the first element, a separated list is a repetition of a separator
and an element. -/
theorem separatedLoop_panic_iff (sep : Parser β) (p : Parser α) (sepConsumes : Consumes sep)
    (sepQuiet : Quiet sep) (consumes : Consumes p) (rounds : Nat) (input : Bytes)
    (enough : input.length ≤ rounds) :
    separatedLoop sep p rounds input = .panic ↔
      ∃ j, Reads (preceded sep p) input j ∧ preceded sep p j = .panic := by
  induction rounds generalizing input with
  | zero =>
    have nil : input = [] := List.eq_nil_of_length_eq_zero (by omega)
    subst nil
    rw [exists_reads_iff]
    have first : ∀ rest b, sep [] ≠ .done rest b := sepConsumes.nil_ne_done
    simp [separatedLoop, preceded, andThen_panic_iff, andThen_done_iff, sepQuiet [], first]
  | succ rounds ih =>
    rw [exists_reads_iff]
    cases h : sep input with
    | error => simp [separatedLoop, preceded, complete, h]
    | incomplete => simp [separatedLoop, preceded, complete, h]
    | panic => exact absurd h (sepQuiet input)
    | done afterSep b =>
      have shorter := sepConsumes input afterSep b h
      have differs : afterSep.length ≠ input.length := by omega
      cases h' : p afterSep with
      | error => simp [separatedLoop, preceded, complete, h, h', differs]
      | incomplete => simp [separatedLoop, preceded, complete, h, h', differs]
      | panic => simp [separatedLoop, preceded, complete, h, h', differs]
      | done rest a =>
        have shorter' := consumes afterSep rest a h'
        have differs' : rest.length ≠ afterSep.length := by omega
        have next := ih rest (by omega)
        have both : preceded sep p input = .done rest a := by simp [preceded, h, h']
        simp only [separatedLoop, complete, h, h', both, differs, differs', if_false,
          andThen_panic_iff, reduceCtorEq, and_false, exists_false, or_false, false_or,
          IResult.done.injEq]
        rw [next]
        constructor
        · exact fun found => ⟨rest, a, ⟨rfl, rfl⟩, found⟩
        · rintro ⟨_, _, ⟨rfl, rfl⟩, found⟩
          exact found

theorem separatedNonemptyListComplete_panic_iff (sep : Parser β) (p : Parser α)
    (sepConsumes : Consumes sep) (sepQuiet : Quiet sep) (consumes : Consumes p)
    (input : Bytes) :
    separatedNonemptyListComplete sep p input = .panic ↔ p input = .panic ∨
      ∃ rest a, p input = .done rest a ∧
        ∃ j, Reads (preceded sep p) rest j ∧ preceded sep p j = .panic := by
  unfold separatedNonemptyListComplete
  cases h : p input with
  | error => simp [complete, h]
  | incomplete => simp [complete, h]
  | panic => simp [complete, h, IResult.andThen]
  | done rest a =>
    have shorter := consumes input rest a h
    have differs : rest.length ≠ input.length := by omega
    simp only [complete, h, andThen_done, differs, if_false, andThen_panic_iff, reduceCtorEq,
      and_false, exists_false, or_false, false_or, IResult.done.injEq,
      separatedLoop_panic_iff sep p sepConsumes sepQuiet consumes _ _ (Nat.le_refl _)]
    constructor
    · exact fun found => ⟨rest, a, ⟨rfl, rfl⟩, found⟩
    · rintro ⟨_, _, ⟨rfl, rfl⟩, found⟩
      exact found

theorem separatedListComplete_panic_iff (sep : Parser β) (p : Parser α)
    (sepConsumes : Consumes sep) (sepQuiet : Quiet sep) (consumes : Consumes p)
    (input : Bytes) :
    separatedListComplete sep p input = .panic ↔ p input = .panic ∨
      ∃ rest a, p input = .done rest a ∧
        ∃ j, Reads (preceded sep p) rest j ∧ preceded sep p j = .panic := by
  rw [← separatedNonemptyListComplete_panic_iff sep p sepConsumes sepQuiet consumes]
  unfold separatedListComplete separatedNonemptyListComplete
  cases h : complete p input <;> simp [IResult.andThen]

end Nom
