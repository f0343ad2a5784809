import CkbDebugger.Nom.Lemmas

/-!
# Texts that a parser reads back

A text belongs to a value when the parser reads it to its end and returns the
value, whatever comes after it. The repetitions read a sequence of such texts
as the list of their values.
-/
namespace Nom

variable {α β : Type}

/-- Elements read one after another lead from an input to a rest, with their values. -/
inductive Collects (p : Parser α) : Bytes → List α → Bytes → Prop where
  | nil (input : Bytes) : Collects p input [] input
  | cons {input rest final : Bytes} {a : α} {as : List α} (first : p input = .done rest a)
      (others : Collects p rest as final) : Collects p input (a :: as) final

/-! ### Repetitions -/

theorem many0Loop_of_collects {p : Parser α} (consumes : Consumes p) {input final : Bytes} {as : List α}
    (collects : Collects p input as final) (ending : final = [] ∨ p final = .error) (rounds : Nat)
    (enough : input.length ≤ rounds) : many0Loop p rounds input = .done final as := by
  induction collects generalizing rounds with
  | nil final =>
    cases rounds with
    | zero => rfl
    | succ rounds =>
      rcases ending with rfl | failed
      · simp only [many0Loop, if_true]
      · simp only [many0Loop, failed, ite_self]
  | @cons input rest final a as first others ih =>
    have shorter := consumes input rest a first
    have nonempty : input ≠ [] := by
      rintro rfl
      exact consumes.nil_ne_done rest a first
    have differs : rest ≠ input := by
      rintro rfl
      exact Nat.lt_irrefl _ shorter
    cases rounds with
    | zero => omega
    | succ rounds =>
      simp only [many0Loop, nonempty, first, differs, if_false, ih ending rounds (by omega), andThen_done]

theorem many0_of_collects {p : Parser α} (consumes : Consumes p) {input final : Bytes} {as : List α}
    (collects : Collects p input as final) (ending : final = [] ∨ p final = .error) :
    many0 p input = .done final as :=
  many0Loop_of_collects consumes collects ending input.length (Nat.le_refl _)

theorem many1_of_collects {p : Parser α} (consumes : Consumes p) {input final : Bytes} {as : List α}
    (collects : Collects p input as final) (nonempty : as ≠ []) (ending : final = [] ∨ p final = .error) :
    many1 p input = .done final as := by
  cases collects with
  | nil => exact absurd rfl nonempty
  | @cons _ rest _ a as first others =>
    have loop := many0Loop_of_collects consumes others ending rest.length (Nat.le_refl _)
    simp only [many1, first, andThen_done, many1Loop_eq_many0Loop p consumes, loop]

/-- After the first element, a separated list goes on as long as there are a separator and
an element after it. -/
theorem separatedLoop_of_collects {sep : Parser β} {p : Parser α} (sepConsumes : Consumes sep)
    (consumes : Consumes p) {input final : Bytes} {as : List α}
    (collects : Collects (preceded sep p) input as final) (ending : Fails (sep final)) (rounds : Nat)
    (enough : input.length ≤ rounds) : separatedLoop sep p rounds input = .done final as := by
  induction collects generalizing rounds with
  | nil final =>
    cases rounds with
    | zero => rfl
    | succ rounds =>
      rcases ending with failed | failed
      · simp only [separatedLoop, complete, failed]
      · simp only [separatedLoop, complete, failed]
  | @cons input rest final a as first others ih =>
    simp only [preceded, bind_apply, andThen_done_iff] at first
    obtain ⟨afterSep, b, separator, element⟩ := first
    have shorter := sepConsumes input afterSep b separator
    have shorter' := consumes afterSep rest a element
    have differs : afterSep.length ≠ input.length := by omega
    have differs' : rest.length ≠ afterSep.length := by omega
    cases rounds with
    | zero => omega
    | succ rounds =>
      simp only [separatedLoop, complete, separator, element, differs, differs', if_false,
        ih ending rounds (by omega), andThen_done]

theorem separatedNonemptyListComplete_of_collects {sep : Parser β} {p : Parser α}
    (sepConsumes : Consumes sep) (consumes : Consumes p) {input rest final : Bytes} {a : α} {as : List α}
    (first : p input = .done rest a) (others : Collects (preceded sep p) rest as final)
    (ending : Fails (sep final)) :
    separatedNonemptyListComplete sep p input = .done final (a :: as) := by
  have shorter := consumes input rest a first
  have differs : rest.length ≠ input.length := by omega
  simp only [separatedNonemptyListComplete, complete, first, andThen_done, differs, if_false,
    separatedLoop_of_collects sepConsumes consumes others ending rest.length (Nat.le_refl _)]

/-- A list with a first element is read alike by both parsers of separated lists. -/
theorem separatedListComplete_of_collects {sep : Parser β} {p : Parser α}
    (sepConsumes : Consumes sep) (consumes : Consumes p) {input rest final : Bytes} {a : α} {as : List α}
    (first : p input = .done rest a) (others : Collects (preceded sep p) rest as final)
    (ending : Fails (sep final)) :
    separatedListComplete sep p input = .done final (a :: as) := by
  rw [← separatedNonemptyListComplete_of_collects sepConsumes consumes first others ending]
  simp only [separatedListComplete, separatedNonemptyListComplete, complete, first, andThen_done]

/-! ### Texts -/

/-- The text stands for the value in front of each allowed continuation, and is the start
of such a continuation itself. -/
structure TextOf (p : Parser α) (follows : Bytes → Prop) (text : Bytes) (a : α) : Prop where
  reads : ∀ rest, follows rest → p (text ++ rest) = .done rest a
  starts : ∀ rest, follows (text ++ rest)

theorem collects_of_texts {p : Parser α} {follows : Bytes → Prop} {texts : List Bytes} {as : List α}
    (each : List.Forall₂ (TextOf p follows) texts as) {final : Bytes} (allowed : follows final) :
    Collects p (texts.flatten ++ final) as final := by
  induction each with
  | nil => exact .nil final
  | @cons text a texts as first others ih =>
    have next : follows (texts.flatten ++ final) := by
      cases others with
      | nil => exact allowed
      | cons second _ =>
        rw [List.flatten_cons, List.append_assoc]
        exact second.starts _
    rw [List.flatten_cons, List.append_assoc]
    exact .cons (first.reads _ next) ih

theorem collects_at_end {p : Parser α} {follows : Bytes → Prop} {texts : List Bytes} {as : List α}
    (each : List.Forall₂ (TextOf p follows) texts as) (allowed : follows []) : Collects p texts.flatten as [] := by
  have collects := collects_of_texts each allowed
  rwa [List.append_nil] at collects

end Nom
