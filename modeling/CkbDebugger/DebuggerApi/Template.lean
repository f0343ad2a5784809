import CkbDebugger.DebuggerApi.Embed

/-!
# Transaction templates

A transaction file is written in a small language: text with placeholders for the data or the hash of a
file, for a new type id and for a type id that is defined elsewhere. The five passes over the text do what
one reading of the template does.
-/
namespace DebuggerApi

open Regex (Cut Found Piece texts through shortest)

/-! ### Templates -/

inductive Kind where
  | data
  | hash
  | defType
  | refType
  deriving Repr, DecidableEq

def Kind.key : Kind → List Char
  | .data => dataKey
  | .hash => hashKey
  | .defType => defTypeKey
  | .refType => refTypeKey

/-- No two opening braces follow each other, and none is last. -/
def Plain (text : List Char) : Prop := ¬opening <:+: text ++ ['\x7b']

instance (text : List Char) : Decidable (Plain text) := inferInstanceAs (Decidable (¬_))

/-- A text without the quote at its end. -/
def beforeQuote (text : List Char) : List Char := if text.getLast? = some '"' then text.dropLast else text

/-- A text without the quote at its start. -/
def afterQuote (text : List Char) : List Char := if text.head? = some '"' then text.tail else text

/-- Text between placeholders. -/
structure Literal where
  text : List Char
  plain : Plain text
  /-- It also stays apart from a type id script that takes a quote away from it. -/
  unquoted : Plain (beforeQuote text)

structure Placeholder where
  kind : Kind
  name : List Char
  /-- The blanks within the braces. -/
  opened : Bool
  closed : Bool
  nonempty : name ≠ []
  simple : ∀ c ∈ name, c ≠ '\n' ∧ c ≠ '\x7b' ∧ c ≠ '\x7d'
  noBlank : name.getLast? ≠ some ' '

def blank (present : Bool) : List Char := if present then [' '] else []

/-- What is between the opening braces and the end of a placeholder. -/
def Placeholder.inner (p : Placeholder) : List Char :=
  blank p.opened ++ (p.kind.key ++ (p.name ++ (blank p.closed ++ closing)))

def Placeholder.source (p : Placeholder) : List Char := opening ++ p.inner

structure Template where
  start : Literal
  /-- Each placeholder with the text after it. -/
  places : List (Placeholder × Literal)
  /-- There is text between a new type id and another placeholder. -/
  apart : places.IsChain fun a b => a.1.kind = .defType ∨ b.1.kind = .defType → a.2.text ≠ []

namespace Template

variable (t : Template)

/-- The text of the file. -/
def source : List Char := t.start.text ++ t.places.flatMap fun (p, l) => p.source ++ l.text

example : ∃ t : Template, t.source = "\"0x\x7b\x7b hash a \x7d\x7d\"".toList :=
  ⟨⟨⟨['"', '0', 'x'], by decide, by decide⟩,
    [(⟨.hash, ['a'], true, true, by decide, by simp, by decide⟩, ⟨['"'], by decide, by decide⟩)],
    by simp⟩, by decide⟩

/-- The names of the placeholders of a kind. -/
def names (kind : Kind) : List (List Char) := (t.places.filter (·.1.kind = kind)).map (·.1.name)

/-- What a template needs: its files, different names for its type ids, and no other type ids. -/
structure Ready (env : Surroundings) : Prop where
  dataFiles : ∀ name ∈ t.names .data, (env.read name).isSome
  hashFiles : ∀ name ∈ t.names .hash, (env.read name).isSome
  distinct : (t.names .defType).Nodup
  defined : ∀ name ∈ t.names .refType, name ∈ t.names .defType

end Template

/-- The bytes of a file that is there. -/
def Surroundings.bytes (env : Surroundings) (name : List Char) : List UInt8 := (env.read name).getD []

/-- What stands in the place of a placeholder. -/
def Placeholder.value (env : Surroundings) (p : Placeholder) : List Char :=
  match p.kind with
  | .data => hexEncode (env.bytes p.name)
  | .hash => hashText (env.blake2b256 (env.bytes p.name))
  | .defType => typeIdScriptJson env p.name
  | .refType => hashText (env.typeIdScriptHash (utf8 p.name))

/-- The text of a template from the start on. A new type id is an object, not a string: the quotes around
it go. -/
def renderFrom (env : Surroundings) : List Char → List (Placeholder × Literal) → List Char
  | start, [] => start
  | start, (p, l) :: places =>
    if p.kind = .defType then beforeQuote start ++ (p.value env ++ renderFrom env (afterQuote l.text) places)
    else start ++ (p.value env ++ renderFrom env l.text places)

/-- The meaning of a template. -/
def Template.render (env : Surroundings) (t : Template) : List Char := renderFrom env t.start.text t.places

/-! ### Plain texts -/

theorem plain_of_not_mem {text : List Char} (absent : '\x7b' ∉ text) : Plain text := by
  rintro ⟨before, after, split⟩
  induction before generalizing text with
  | nil =>
    cases text with
    | nil => simp [opening] at split
    | cons c text =>
      have first := (List.cons.inj split).1
      exact absent (first ▸ List.mem_cons_self)
  | cons d before ih =>
    cases text with
    | nil => simp [opening] at split
    | cons c text => exact ih (fun member => absent (List.mem_cons_of_mem c member)) (List.cons.inj split).2

theorem Plain.tail {c : Char} {text : List Char} (plain : Plain (c :: text)) : Plain text :=
  fun inside => plain (inside.trans (List.suffix_cons c _).isInfix)

theorem Plain.afterQuote {text : List Char} (plain : Plain text) : Plain (afterQuote text) := by
  unfold DebuggerApi.afterQuote
  split
  · cases text with
    | nil => exact plain
    | cons c text => exact plain.tail
  · exact plain

/-- A text that two placeholders take their quotes from. -/
theorem plain_beforeQuote_afterQuote {text : List Char} (unquoted : Plain (beforeQuote text)) :
    Plain (beforeQuote (afterQuote text)) := by
  by_cases quoted : text.head? = some '"'
  · obtain ⟨rest, rfl⟩ := List.head?_eq_some_iff.mp quoted
    rw [afterQuote, if_pos quoted, List.tail_cons]
    cases rest with
    | nil => exact plain_of_not_mem (by simp [beforeQuote])
    | cons c rest =>
      have same : beforeQuote ('"' :: c :: rest) = '"' :: beforeQuote (c :: rest) := by
        simp only [beforeQuote, List.getLast?_cons_cons]
        split <;> rfl
      rw [same] at unquoted
      exact unquoted.tail
  · rwa [afterQuote, if_neg quoted]

/-- No placeholder begins in a plain text or where it ends. -/
theorem Plain.not_opening {text rest : List Char} (plain : Plain text) (nonempty : text ≠ []) :
    ¬opening <+: text ++ rest := by
  rintro ⟨after, split⟩
  cases text with
  | nil => exact nonempty rfl
  | cons c text =>
    have first : '\x7b' = c := (List.cons.inj split).1
    subst first
    cases text with
    | nil => exact plain ⟨[], [], rfl⟩
    | cons d text =>
      have second : '\x7b' = d := (List.cons.inj (List.cons.inj split).2).1
      subst second
      exact plain ⟨[], text ++ ['\x7b'], rfl⟩

theorem Plain.suffix {text before later : List Char} (plain : Plain text) (split : text = before ++ later) :
    Plain later := by
  induction before generalizing text with
  | nil =>
    rw [split] at plain
    exact plain
  | cons c before ih =>
    rw [split] at plain
    exact ih plain.tail rfl

/-! ### Where placeholders begin -/

/-- The start of a placeholder with a key. -/
def Opens (key text : List Char) : Prop := ∃ opened, opening ++ (blank opened ++ key) <+: text

theorem Opens.opening {key text : List Char} (opens : Opens key text) : opening <+: text := by
  obtain ⟨opened, start⟩ := opens
  exact (List.prefix_append _ _).trans start

theorem front_none {key text : List Char} (next : List Char → Option (Found Char)) (closed : ¬Opens key text) :
    through (placeholder key).front next text = none := by
  by_cases braces : opening <+: text
  · obtain ⟨rest, rfl⟩ := braces
    have missing (opened : Bool) (later : List Char) (split : rest = blank opened ++ later) : ¬key <+: later := by
      rintro ⟨after, rfl⟩
      exact closed ⟨opened, after, by simp [split]⟩
    have inside : through [.optional ' ', .literal key] next rest = none := by
      apply Regex.through_optional_none
      · exact fun later split => Regex.through_literal_none _ _ (missing true later split)
      · exact Regex.through_literal_none _ _ (missing false rest rfl)
    rw [placeholder, Regex.through_literal, inside]
    rfl
  · exact Regex.through_literal_none _ _ braces

theorem front_some {key : List Char} {next : List Char → Option (Found Char)} {rest : List Char} {found : Found Char}
    (opened : Bool) (first : (key ++ rest).head? ≠ some ' ') (here : next rest = some found) :
    through (placeholder key).front next (opening ++ (blank opened ++ (key ++ rest))) =
      some (found.after (opening ++ (blank opened ++ key)).length) := by
  have keyed : through [.literal key] next (key ++ rest) = some (found.after key.length) := by
    rw [Regex.through_literal, through, here]
    rfl
  rw [placeholder, Regex.through_literal]
  cases opened with
  | true =>
    rw [blank, if_pos rfl, List.singleton_append, Regex.through_optional_some keyed]
    simp only [Option.map_some, Found.after, List.length_append, List.length_cons, List.length_nil, Option.some.injEq,
      Found.mk.injEq, true_and]
    omega
  | false =>
    rw [blank, if_neg Bool.false_ne_true, List.nil_append, Regex.through_optional_absent _ _ first, keyed]
    simp only [Option.map_some, Found.after, List.length_append, List.length_nil, Option.some.injEq, Found.mk.injEq,
      true_and]
    omega

/-! ### Where placeholders end -/

def atEnd : List Char → Option (Found Char) := fun _ => some ⟨[], 0⟩

section Closing

variable {key : List Char} {more : List (Regex.Part Char)} {rest : List Char} {n : Nat}

theorem back_none {text : List Char} (here : ¬closing <+: text)
    (later : ∀ rest, text = ' ' :: rest → ¬closing <+: rest) :
    through ((placeholder key).back ++ more) atEnd text = none := by
  apply Regex.through_optional_none
  · exact fun rest split => Regex.through_literal_none _ _ (later rest split)
  · exact Regex.through_literal_none _ _ here

theorem back_some (closed : Bool) (after : through more atEnd rest = some ⟨[], n⟩) :
    through ((placeholder key).back ++ more) atEnd (blank closed ++ (closing ++ rest)) =
      some ⟨[], (blank closed ++ closing).length + n⟩ := by
  have braces : through (.literal closing :: more) atEnd (closing ++ rest) = some ⟨[], closing.length + n⟩ := by
    rw [Regex.through_literal, after]
    rfl
  cases closed with
  | true =>
    refine (Regex.through_optional_some braces).trans ?_
    simp only [Found.after, blank, if_pos, List.length_append, List.length_cons, List.length_nil, Option.some.injEq,
      Found.mk.injEq, true_and]
    omega
  | false => exact (Regex.through_optional_absent _ _ (by simp [closing, blank])).trans braces

/-- The name of a placeholder is where its group ends. -/
theorem shortest_name (p : Placeholder) (after : through more atEnd rest = some ⟨[], n⟩) :
    shortest '\n' (through ((placeholder key).back ++ more) atEnd) (p.name ++ (blank p.closed ++ (closing ++ rest))) =
      some ⟨p.name, p.name.length + ((blank p.closed ++ closing).length + n)⟩ := by
  refine Regex.shortest_append '\n' _ p.name _ _ p.nonempty (fun member => (p.simple _ member).1 rfl) ?_
    (back_some p.closed after)
  intro before later c split _
  have notBrace (d : Char) (member : d ∈ c :: later) : d ≠ '\x7d' :=
    (p.simple d (split ▸ List.mem_append_right before member)).2.2
  apply back_none
  · intro ends
    obtain ⟨_, same⟩ := ends
    exact notBrace c List.mem_cons_self (List.cons.inj same).1.symm
  · intro others same ends
    -- a blank is not the last symbol of the name, so another symbol of it is next
    obtain ⟨rfl, rfl⟩ := List.cons.inj same
    cases later with
    | nil => exact p.noBlank (by rw [split, List.getLast?_append]; rfl)
    | cons d later =>
      obtain ⟨_, same⟩ := ends
      exact notBrace d (by simp) (List.cons.inj same).1.symm

end Closing

theorem key_ne_nil (kind : Kind) : kind.key ≠ [] := by cases kind <;> decide

theorem key_head (kind : Kind) : kind.key.head? ≠ some ' ' := by cases kind <;> decide

theorem brace_not_mem_key (kind : Kind) : '\x7b' ∉ kind.key := by cases kind <;> decide

/-- The placeholders are told apart by their keys. -/
theorem key_eq_of_starts {a b : Kind} {rest : List Char} (start : a.key <+: b.key ++ rest) : a = b := by
  cases a <;> cases b <;> first | rfl | simp [Kind.key, dataKey, hashKey, defTypeKey, refTypeKey] at start

theorem head?_append_of_ne_nil {a b : List Char} (nonempty : a ≠ []) : (a ++ b).head? = a.head? := by
  cases a with
  | nil => exact absurd rfl nonempty
  | cons c a => rfl

theorem core_found (p : Placeholder) {more : List (Regex.Part Char)} {rest : List Char} {n : Nat}
    (after : through more atEnd rest = some ⟨[], n⟩) :
    through (placeholder p.kind.key).front
        (shortest '\n' (through ((placeholder p.kind.key).back ++ more) atEnd)) (p.source ++ rest) =
      some ⟨p.name, p.source.length + n⟩ := by
  have text : p.source ++ rest =
      opening ++ (blank p.opened ++ (p.kind.key ++ (p.name ++ (blank p.closed ++ (closing ++ rest))))) := by
    simp only [Placeholder.source, Placeholder.inner, List.append_assoc]
  have first (others : List Char) : (p.kind.key ++ others).head? ≠ some ' ' := by
    rw [head?_append_of_ne_nil (key_ne_nil p.kind)]
    exact key_head p.kind
  rw [text, front_some p.opened (first _) (shortest_name p after)]
  simp only [Found.after, Placeholder.source, Placeholder.inner, List.length_append, Option.some.injEq,
    Found.mk.injEq, true_and]
  omega

/-! ### Where no placeholder begins -/

theorem not_opens_plain {key text before later rest : List Char} {c : Char} (plain : Plain text)
    (split : text = before ++ c :: later) : ¬Opens key (c :: later ++ rest) :=
  fun opens => (plain.suffix split).not_opening (List.cons_ne_nil c later) opens.opening

theorem brace_not_mem_inner (p : Placeholder) : '\x7b' ∉ p.inner := by
  have name : '\x7b' ∉ p.name := fun member => (p.simple _ member).2.1 rfl
  have blanks (present : Bool) : '\x7b' ∉ blank present := by cases present <;> decide
  simp [Placeholder.inner, brace_not_mem_key, name, blanks, closing]

theorem inner_ne_nil (p : Placeholder) : p.inner ≠ [] := by simp [Placeholder.inner, closing]

/-- A placeholder begins with its own braces only, and with its own key. -/
theorem not_opens_source (p : Placeholder) {kind : Kind} {before later rest : List Char} {c : Char}
    (split : p.source = before ++ c :: later) (other : before = [] → p.kind ≠ kind) :
    ¬Opens kind.key (c :: later ++ rest) := by
  intro opens
  cases before with
  | nil =>
    rw [List.nil_append] at split
    obtain ⟨opened, after, text⟩ := opens
    rw [← split, Placeholder.source, Placeholder.inner] at text
    simp only [List.append_assoc] at text
    have inside := List.append_cancel_left text
    -- blanks come before both keys or before neither
    have start : kind.key <+: p.kind.key ++ (p.name ++ (blank p.closed ++ (closing ++ rest))) := by
      have kindHead (k : Kind) (others : List Char) : (k.key ++ others).head? ≠ some ' ' := by
        rw [head?_append_of_ne_nil (key_ne_nil k)]
        exact key_head k
      cases opened with
      | true =>
        cases shown : p.opened with
        | true =>
          rw [shown] at inside
          exact ⟨after, List.append_cancel_left inside⟩
        | false =>
          rw [shown] at inside
          exact absurd (congrArg List.head? inside).symm (kindHead p.kind _)
      | false =>
        cases shown : p.opened with
        | true =>
          rw [shown] at inside
          exact absurd (congrArg List.head? inside) (kindHead kind _)
        | false =>
          rw [shown] at inside
          exact ⟨after, inside⟩
    exact other rfl (key_eq_of_starts start).symm
  | cons a before =>
    obtain ⟨after, text⟩ := opens.opening
    have first : '\x7b' = c := (List.cons.inj text).1
    have tail := (List.cons.inj split).2
    cases before with
    | nil =>
      -- the second brace of the placeholder, and the symbol after it
      have inside : p.inner = later := (List.cons.inj tail).2
      obtain ⟨d, later', inner⟩ := List.exists_cons_of_ne_nil (inner_ne_nil p)
      rw [← inside, inner] at text
      have second : '\x7b' = d := (List.cons.inj (List.cons.inj text).2).1
      exact brace_not_mem_inner p (by rw [inner, second]; exact List.mem_cons_self)
    | cons b before =>
      have inside : p.inner = before ++ c :: later := (List.cons.inj tail).2
      exact brace_not_mem_inner p (by rw [inside, first]; simp)

end DebuggerApi
