import Mathlib.Logic.Relation
import CkbDebugger.Nom.Lemmas

/-!
# Grammars of parsers

A parser that finishes may leave a part of its input unread. Its grammar relates the inputs on which it
finishes to what it leaves of them; the values do not matter. The rules below give the grammars of sequences
and of lists.
-/
namespace Nom

variable {α β : Type}

/-! ### Grammars -/

/-- Inputs, each with what is left of it. -/
abbrev Grammar := Bytes → Bytes → Prop

/-- One grammar, a text and another grammar, one after the other. -/
def Grammar.followedBy (first : Grammar) (s : String) (second : Grammar) : Grammar := fun input rest =>
  ∃ middle, first input (ascii s ++ middle) ∧ second middle rest

/-- A text and then a grammar. -/
def Grammar.after (s : String) (g : Grammar) : Grammar := fun input rest =>
  ∃ more, input = ascii s ++ more ∧ g more rest

/-- One grammar after another. -/
def Grammar.seq (first second : Grammar) : Grammar := fun input rest =>
  ∃ middle, first input middle ∧ second middle rest

/-- A text alone. -/
def Grammar.text (s : String) : Grammar := fun input rest => input = ascii s ++ rest

/-- One of two grammars. -/
def Grammar.or (first second : Grammar) : Grammar := fun input rest => first input rest ∨ second input rest

/-- The first of two grammars, or the second one where there is nothing to read for the first. -/
def Grammar.orElse (first : Grammar) (unread : Bytes → Prop) (second : Grammar) : Grammar :=
  first.or fun input rest => unread input ∧ second input rest

/-- Nothing can be read after the text, or the text is not there. -/
def UnreadAfter (s : String) (unread : Bytes → Prop) (input : Bytes) : Prop :=
  ∀ rest, input = ascii s ++ rest → unread rest

/-- The input is a text, which ends where the input ends or at the first of the given bytes, and the rest. Only
where the input ends may the text be empty. -/
def UpTo (stop input text rest : Bytes) : Prop :=
  input = text ++ rest ∧ (text = [] → rest = []) ∧ (∀ b ∈ text, b ∉ stop) ∧ ∀ b ∈ rest.head?, b ∈ stop

/-- A grammar where it applies, and nothing where there is nothing to read. -/
def Grammar.optional (g : Grammar) (unread : Bytes → Prop) : Grammar := fun input rest =>
  g input rest ∨ (unread input ∧ rest = input)

/-- As many of a grammar as there are, up to where a repetition may end. -/
def Grammar.many (g : Grammar) (stops : Bytes → Prop) : Grammar := fun input rest =>
  Relation.ReflTransGen g input rest ∧ stops rest

/-- One at least. -/
def Grammar.some (g : Grammar) (stops : Bytes → Prop) : Grammar := fun input rest =>
  Relation.TransGen g input rest ∧ stops rest

/-- One at least, with separators between them, up to where no separator with a further one follows. -/
def Grammar.separatedBy (g : Grammar) (s : String) (unread : Bytes → Prop) : Grammar :=
  g.seq ((g.after s).many (UnreadAfter s unread))

/-- The parser finishes on the inputs of the grammar, and leaves of them what the grammar does. -/
def Parses (p : Parser α) (g : Grammar) : Prop := ∀ input rest, (∃ a, p input = .done rest a) ↔ g input rest

/-! ### Failing -/

theorem fails_iff (r : IResult α) : Fails r ↔ r ≠ .panic ∧ ∀ rest a, r ≠ .done rest a := by
  cases r <;> simp [Fails]

theorem fails_andThen_done_iff (r : IResult α) (f : Bytes → α → β) :
    Fails (r.andThen fun rest a => .done rest (f rest a)) ↔ Fails r := by
  cases r <;> simp [Fails, IResult.andThen]

theorem literal_fails_iff (s : String) (input : Bytes) : Fails (literal s input) ↔ ¬ascii s <+: input := by
  refine ⟨?_, literal_fails s input⟩
  rintro failed ⟨rest, rfl⟩
  simp [Fails, literal_append] at failed

theorem map_fails_iff {p : Parser α} {unread : Bytes → Prop} (fails : ∀ input, Fails (p input) ↔ unread input)
    (f : α → β) (input : Bytes) : Fails ((f <$> p) input) ↔ unread input := by
  rw [map_apply, fails_andThen_done_iff, fails]

/-! ### Sequences and alternatives -/

theorem parser_bind_assoc {γ : Type} (p : Parser α) (f : α → Parser β) (g : β → Parser γ) :
    (p >>= f) >>= g = p >>= fun a => f a >>= g := by
  funext input
  simp only [bind_apply, andThen_assoc]

theorem Parses.map {p : Parser α} {g : Grammar} (inner : Parses p g) (f : α → β) : Parses (f <$> p) g := by
  intro input rest
  rw [← inner input rest]
  simp only [map_done_iff]
  constructor
  · rintro ⟨_, a, done, _⟩
    exact ⟨a, done⟩
  · rintro ⟨a, done⟩
    exact ⟨f a, a, done, rfl⟩

theorem Parses.bind_pure {p : Parser α} {g : Grammar} (inner : Parses p g) (f : α → β) :
    Parses (p >>= fun a => pure (f a)) g := inner.map f

theorem parses_pure (a : α) : Parses (pure a : Parser α) Eq := by
  intro input rest
  simp

theorem Parses.bind {p : Parser α} {first second : Grammar} (inner : Parses p first) {f : α → Parser β}
    (others : ∀ a, Parses (f a) second) : Parses (p >>= f) (first.seq second) := by
  intro input rest
  simp only [bind_apply, andThen_done_iff, Grammar.seq, ← inner _ _]
  constructor
  · rintro ⟨b, middle, a, done, found⟩
    exact ⟨middle, ⟨a, done⟩, (others a middle rest).mp ⟨b, found⟩⟩
  · rintro ⟨middle, ⟨a, done⟩, found⟩
    obtain ⟨b, found⟩ := (others a middle rest).mpr found
    exact ⟨b, middle, a, done, found⟩

theorem Parses.followedBy {p : Parser α} {first second : Grammar} (inner : Parses p first) (s : String)
    {f : α → Bytes → Parser β} (others : ∀ a t, Parses (f a t) second) :
    Parses (p >>= fun a => literal s >>= f a) (first.followedBy s second) := by
  intro input rest
  simp only [bind_apply, andThen_done_iff, literal_done_iff, Grammar.followedBy, ← inner _ _]
  constructor
  · rintro ⟨b, _, a, done, middle, t, ⟨rfl, _⟩, found⟩
    exact ⟨middle, ⟨a, done⟩, (others a t middle rest).mp ⟨b, found⟩⟩
  · rintro ⟨middle, ⟨a, done⟩, found⟩
    obtain ⟨b, found⟩ := (others a (ascii s) middle rest).mpr found
    exact ⟨b, _, a, done, middle, ascii s, ⟨rfl, rfl⟩, found⟩

theorem Parses.preceded {p : Parser α} {g : Grammar} (inner : Parses p g) (s : String) :
    Parses (preceded (literal s) p) (g.after s) := by
  intro input rest
  simp only [preceded_literal_done_iff, Grammar.after, ← inner _ _]
  constructor
  · rintro ⟨a, more, rfl, done⟩
    exact ⟨more, rfl, a, done⟩
  · rintro ⟨more, rfl, a, done⟩
    exact ⟨a, more, rfl, done⟩

theorem parses_literal (s : String) : Parses (literal s) (.text s) := by
  intro input rest
  simp only [literal_done_iff, exists_and_left, exists_eq, and_true, Grammar.text]

/-- The last of several alternatives. -/
theorem Parses.last {p : Parser α} {g : Grammar} (inner : Parses p g) : Parses (altComplete [p]) g := inner

/-- The second of two alternatives is taken where the first one fails. -/
theorem Parses.orElse {p : Parser α} {ps : List (Parser α)} {first second : Grammar} (inner : Parses p first)
    {unread : Bytes → Prop} (fails : ∀ input, Fails (p input) ↔ unread input)
    (others : Parses (altComplete ps) second) :
    Parses (altComplete (p :: ps)) (first.orElse unread second) := by
  intro input rest
  simp only [altComplete_cons_iff (not_fails_done _ _), exists_or, exists_and_left, inner input rest,
    others input rest, fails, Grammar.orElse, Grammar.or]

/-- The parser fails on all that the grammar reads. -/
def FailsOn (p : Parser α) (g : Grammar) : Prop := ∀ input rest, g input rest → Fails (p input)

theorem FailsOn.text {p : Parser α} {s : String} (failed : ∀ rest, Fails (p (ascii s ++ rest))) :
    FailsOn p (.text s) := by
  rintro input rest rfl
  exact failed rest

theorem FailsOn.after {p : Parser α} {s : String} (failed : ∀ rest, Fails (p (ascii s ++ rest))) (g : Grammar) :
    FailsOn p (g.after s) := by
  rintro input rest ⟨more, rfl, _⟩
  exact failed more

theorem FailsOn.or {p : Parser α} {first second : Grammar} (left : FailsOn p first) (right : FailsOn p second) :
    FailsOn p (first.or second) := by
  rintro input rest (read | read)
  · exact left input rest read
  · exact right input rest read

/-- The order is of no account where the first alternative fails on what the second one reads. -/
theorem Parses.or {p : Parser α} {ps : List (Parser α)} {first second : Grammar} (inner : Parses p first)
    (others : Parses (altComplete ps) second) (apart : FailsOn p second) :
    Parses (altComplete (p :: ps)) (first.or second) := by
  intro input rest
  refine (inner.orElse (fun _ => Iff.rfl) others input rest).trans (or_congr_right ?_)
  exact ⟨And.right, fun read => ⟨apart input rest read, read⟩⟩

theorem isNot_done_iff (stop input rest text : Bytes) :
    isNot stop input = .done rest text ↔ UpTo stop input text rest := by
  cases input with
  | nil =>
    simp only [isNot, IResult.done.injEq, UpTo, List.nil_eq, List.append_eq_nil_iff]
    constructor
    · rintro ⟨rfl, rfl⟩
      simp
    · rintro ⟨⟨rfl, rfl⟩, _⟩
      exact ⟨rfl, rfl⟩
  | cons b input =>
    by_cases stopped : b ∈ stop
    · simp only [isNot, List.contains_iff_mem, stopped, if_true, reduceCtorEq, UpTo, false_iff]
      rintro ⟨whole, nonempty, free, _⟩
      cases text with
      | nil => simp [nonempty] at whole
      | cons c text =>
        cases whole
        exact free b List.mem_cons_self stopped
    · simp only [isNot, List.contains_iff_mem, stopped, if_false, IResult.done.injEq]
      constructor
      · rintro ⟨rfl, rfl⟩
        refine ⟨(List.takeWhile_append_dropWhile).symm, by simp [stopped], ?_, ?_⟩
        · intro c member
          have accepted := List.all_eq_true.mp (List.all_takeWhile (p := fun c => !stop.contains c) (l := b :: input))
          simpa using accepted c member
        · intro c first
          have rejected := List.head?_dropWhile_not (fun c => !stop.contains c) (b :: input)
          rw [Option.mem_def.mp first] at rejected
          simpa using rejected
      · rintro ⟨whole, _, free, stops⟩
        -- the text is the longest one without the bytes
        have accepted : ∀ c ∈ text, (!stop.contains c) = true := by simpa using free
        rw [whole, List.takeWhile_append_of_pos accepted, List.dropWhile_append_of_pos accepted]
        cases rest with
        | nil => simp
        | cons c rest => simp [stops c rfl]

theorem Parses.separatedPair {p : Parser α} {q : Parser β} {first second : Grammar} (left : Parses p first)
    (s : String) (right : Parses q second) : Parses (separatedPair p (literal s) q) (first.followedBy s second) :=
  left.followedBy s fun a _ => right.bind_pure fun b => (a, b)

/-- What is repeated is read from one input to the next. -/
theorem Parses.reads_iff {p : Parser α} {g : Grammar} (inner : Parses p g) (input rest : Bytes) :
    Reads p input rest ↔ Relation.ReflTransGen g input rest := by
  constructor
  · intro reads
    -- the values are forgotten
    induction reads with
    | refl input => exact .refl
    | step a first _ ih => exact .head ((inner _ _).mp ⟨a, first⟩) ih
  · intro steps
    induction steps using Relation.ReflTransGen.head_induction_on with
    | refl => exact .refl rest
    | head step _ ih =>
      obtain ⟨a, first⟩ := (inner _ _).mpr step
      exact .step a first ih

theorem Parses.many0 {p : Parser α} {g : Grammar} (inner : Parses p g) (consumes : Consumes p)
    {stops : Bytes → Prop} (ends : ∀ rest, rest = [] ∨ p rest = .error ↔ stops rest) :
    Parses (Nom.many0 p) (g.many stops) := by
  intro input rest
  rw [Grammar.many, ← inner.reads_iff, ← ends]
  exact many0Loop_done_iff p consumes input.length input rest (Nat.le_refl _)

theorem Parses.many1 {p : Parser α} {g : Grammar} (inner : Parses p g) (consumes : Consumes p)
    {stops : Bytes → Prop} (ends : ∀ rest, rest = [] ∨ p rest = .error ↔ stops rest) :
    Parses (Nom.many1 p) (g.some stops) := by
  intro input final
  rw [many1_done_iff p consumes, Grammar.some, Relation.TransGen.head'_iff, ← ends]
  simp only [← inner _ _, ← inner.reads_iff]
  constructor
  · rintro ⟨rest, a, first, others, stop⟩
    exact ⟨⟨rest, ⟨a, first⟩, others⟩, stop⟩
  · rintro ⟨⟨rest, ⟨a, first⟩, others⟩, stop⟩
    exact ⟨rest, a, first, others, stop⟩

/-! ### Separated lists -/

/-- A quiet parser leaves the panic to what follows it. -/
theorem Parses.bind_panic_iff {p : Parser α} {g : Grammar} (inner : Parses p g) (quiet : Quiet p) {f : α → Parser β}
    (bad : Bytes → Prop) (tail : ∀ a rest, f a rest = .panic ↔ bad rest) (input : Bytes) :
    (p >>= f) input = .panic ↔ ∃ rest, g input rest ∧ bad rest := by
  simp only [bind_apply, andThen_panic_iff, quiet input, false_or, tail, ← inner input _]
  constructor
  · rintro ⟨rest, a, done, isBad⟩
    exact ⟨rest, ⟨a, done⟩, isBad⟩
  · rintro ⟨rest, ⟨a, done⟩, isBad⟩
    exact ⟨rest, a, done, isBad⟩

/-- A parser fails where it neither panics nor finishes. -/
theorem Parses.fails_iff {p : Parser α} {g : Grammar} (inner : Parses p g) {bad : Bytes → Prop}
    (panics : ∀ input, p input = .panic ↔ bad input) (input : Bytes) :
    Fails (p input) ↔ ¬bad input ∧ ∀ rest, ¬g input rest := by
  rw [Nom.fails_iff, Ne, panics]
  simp only [← inner _ _, not_exists]

theorem preceded_fails_iff {p : Parser α} {unread : Bytes → Prop} (fails : ∀ input, Fails (p input) ↔ unread input)
    (s : String) (input : Bytes) : Fails (preceded (literal s) p input) ↔ UnreadAfter s unread input := by
  simp only [UnreadAfter, ← fails]
  constructor
  · rintro failed rest rfl
    rwa [preceded_literal_append] at failed
  · intro others
    by_cases name : ascii s <+: input
    · obtain ⟨rest, rfl⟩ := name
      rw [preceded_literal_append]
      exact others rest rfl
    · exact Fails.andThen (literal_fails s input name) _

/-- A sequence fails where its first part fails, or where the others do. -/
theorem bind_fails {p : Parser α} (quiet : Quiet p) {f : α → Parser β} {input : Bytes}
    (others : ∀ rest a, p input = .done rest a → Fails (f a rest)) : Fails ((p >>= f) input) := by
  rw [bind_apply]
  cases h : p input with
  | error => exact Or.inl rfl
  | incomplete => exact Or.inr rfl
  | panic => exact absurd h (quiet input)
  | done rest a => exact others rest a h

/-- An optional part is left out only where it fails. -/
theorem Parses.optComplete {p : Parser α} {g : Grammar} (inner : Parses p g) {unread : Bytes → Prop}
    (fails : ∀ input, Fails (p input) ↔ unread input) : Parses (Nom.opt (Nom.complete p)) (g.optional unread) := by
  intro input rest
  rw [Grammar.optional, ← inner input rest, ← fails]
  cases h : p input <;> simp [Nom.opt, Nom.complete, Fails, h, eq_comm]

theorem complete_of_fails {p : Parser α} {input : Bytes} (failed : Fails (p input)) :
    complete p input = .error := by
  rcases failed with h | h <;> simp only [complete, h]

section Separated

variable {sep : Parser β} {p : Parser α}

/-- A separated list goes on as long as a separator and an element follow. -/
theorem separatedLoop_done_iff (sepConsumes : Consumes sep) (consumes : Consumes p) (rounds : Nat)
    (input final : Bytes) (enough : input.length ≤ rounds) (quiet : Quiet sep) :
    (∃ as, separatedLoop sep p rounds input = .done final as) ↔
      Reads (preceded sep p) input final ∧ Fails (preceded sep p final) := by
  have stays {input final : Bytes} (failed : Fails (preceded sep p input)) :
      Reads (preceded sep p) input final ∧ Fails (preceded sep p final) ↔ input = final := by
    constructor
    · rintro ⟨reads, _⟩
      cases reads with
      | refl => rfl
      | step a first _ =>
        rw [fails_iff] at failed
        exact absurd first (failed.2 _ a)
    · rintro rfl
      exact ⟨.refl _, failed⟩
  -- every round reads a separator and an element, so the rounds cannot run out before the input does
  induction rounds generalizing input with
  | zero =>
    have nil : input = [] := List.eq_nil_of_length_eq_zero (by omega)
    subst nil
    have failed : Fails (preceded sep p []) := by
      have sepFailed : Fails (sep []) := (fails_iff _).mpr ⟨quiet [], sepConsumes.nil_ne_done⟩
      exact sepFailed.andThen _
    rw [stays failed]
    simp [separatedLoop]
  | succ rounds ih =>
    by_cases sepFailed : Fails (sep input)
    · rw [stays (sepFailed.andThen _)]
      simp [separatedLoop, complete_of_fails sepFailed]
    · cases h : sep input with
      | error => exact absurd (Or.inl h) sepFailed
      | incomplete => exact absurd (Or.inr h) sepFailed
      | panic => exact absurd h (quiet input)
      | done afterSep b =>
        have shorter := sepConsumes input afterSep b h
        have differs : afterSep.length ≠ input.length := by omega
        have both : preceded sep p input = p afterSep := by
          simp only [preceded, bind_apply, h, andThen_done]
        cases h' : p afterSep with
        | error =>
          -- a separator without an element stays unread with what follows it
          rw [stays (by rw [both]; exact Or.inl h')]
          simp [separatedLoop, complete, h, h', differs]
        | incomplete =>
          rw [stays (by rw [both]; exact Or.inr h')]
          simp [separatedLoop, complete, h, h', differs]
        | panic =>
          rw [h'] at both
          simp only [separatedLoop, complete, h, h', differs, if_false, reduceCtorEq, exists_false, false_iff]
          rintro ⟨reads, failed⟩
          cases reads with
          | refl => simp [both, Fails] at failed
          | step a first _ => simp [both] at first
        | done rest a =>
          have shorter' := consumes afterSep rest a h'
          have differs' : rest.length ≠ afterSep.length := by omega
          have next := ih rest (by omega)
          rw [h'] at both
          simp only [separatedLoop, complete, h, h', differs, differs', if_false, andThen_done_iff,
            IResult.done.injEq]
          constructor
          · rintro ⟨_, stop, as, found, rfl, _⟩
            obtain ⟨reads, failed⟩ := next.mp ⟨as, found⟩
            exact ⟨.step a both reads, failed⟩
          · rintro ⟨reads, failed⟩
            cases reads with
            | refl => simp [both, Fails] at failed
            | step b first others =>
              rw [both] at first
              cases first
              obtain ⟨as, found⟩ := next.mpr ⟨others, failed⟩
              exact ⟨a :: as, final, as, found, rfl, rfl⟩

end Separated

section

variable {p : Parser α} {g : Grammar} (inner : Parses p g) (consumes : Consumes p) {unread : Bytes → Prop}
  (fails : ∀ input, Fails (p input) ↔ unread input) (s : String) (nonempty : ascii s ≠ [])
include inner consumes fails nonempty

theorem Parses.separatedNonemptyListComplete :
    Parses (Nom.separatedNonemptyListComplete (literal s) p) (g.separatedBy s unread) := by
  intro input final
  have goesOn (rest : Bytes) : (∃ as, separatedLoop (literal s) p rest.length rest = .done final as) ↔
      (g.after s).many (UnreadAfter s unread) rest final := by
    rw [separatedLoop_done_iff (consumes_literal s nonempty) consumes _ _ _ (Nat.le_refl _) (quiet_literal s),
      (inner.preceded s).reads_iff, preceded_fails_iff fails, Grammar.many]
  simp only [Nom.separatedNonemptyListComplete, andThen_done_iff, complete_done_iff, Grammar.separatedBy, Grammar.seq,
    ← goesOn, ← inner _ _]
  constructor
  · rintro ⟨as, rest, a, first, others⟩
    have shorter := consumes input rest a first
    rw [if_neg (by omega), andThen_done_iff] at others
    obtain ⟨stop, more, found, same⟩ := others
    cases same
    exact ⟨rest, ⟨a, first⟩, more, found⟩
  · rintro ⟨rest, ⟨a, first⟩, as, found⟩
    have shorter := consumes input rest a first
    refine ⟨a :: as, rest, a, first, ?_⟩
    rw [if_neg (by omega), found, andThen_done]

/-- A list without a first element is empty, and all of the input is left. -/
theorem Parses.separatedListComplete :
    Parses (Nom.separatedListComplete (literal s) p) ((g.separatedBy s unread).optional unread) := by
  intro input final
  rw [Grammar.optional, ← inner.separatedNonemptyListComplete consumes fails s nonempty input final, ← fails]
  by_cases failed : Fails (p input)
  · have rejected := complete_of_fails failed
    simp only [Nom.separatedListComplete, Nom.separatedNonemptyListComplete, rejected, failed, true_and, andThen_error,
      reduceCtorEq, exists_false, false_or, IResult.done.injEq, exists_and_left, exists_eq', and_true]
    exact eq_comm
  · simp only [failed, false_and, or_false, Nom.separatedListComplete, Nom.separatedNonemptyListComplete]
    cases h : p input <;> simp_all [Nom.complete, Fails, IResult.andThen]

end

end Nom
