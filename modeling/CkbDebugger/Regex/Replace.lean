import Mathlib.Data.List.Infix

/-!
# Replacing what a pattern matches

Patterns with one group that takes as little as it can, and the functions of the `regex` crate that go
through a text from match to match, the leftmost first. A text that is given in pieces, some plain and some
matches, is replaced piece by piece.
-/
namespace Regex

variable {α : Type}

/-- A match at the start of a text: the symbols of the group, and the length of the whole match. -/
structure Found (α : Type) where
  name : List α
  len : Nat
  deriving Repr, DecidableEq

def Found.after (n : Nat) (found : Found α) : Found α := { found with len := n + found.len }

/-! ### Going through a text -/

section Passes

variable (find : List α → Option (Found α)) (replace : List α → Option (List α))

/-- `replace_all` of a text whose first symbols may belong to a match that has been replaced. The function
that replaces may panic. -/
def replaceFrom : Nat → List α → Option (List α)
  | _, [] => some []
  | skip + 1, _ :: rest => replaceFrom skip rest
  | 0, c :: rest =>
    match find (c :: rest) with
    | some found => do
      let new ← replace found.name
      let others ← replaceFrom (found.len - 1) rest
      return new ++ others
    | none => (replaceFrom 0 rest).map (c :: ·)

def replaceAll (text : List α) : Option (List α) := replaceFrom find replace 0 text

def namesFrom : Nat → List α → List (List α)
  | _, [] => []
  | skip + 1, _ :: rest => namesFrom skip rest
  | 0, c :: rest =>
    match find (c :: rest) with
    | some found => found.name :: namesFrom (found.len - 1) rest
    | none => namesFrom 0 rest

/-- The groups of the matches that `captures_iter` goes through. -/
def names (text : List α) : List (List α) := namesFrom find 0 text

theorem replaceFrom_length (text rest : List α) :
    replaceFrom find replace text.length (text ++ rest) = replaceAll find replace rest := by
  induction text with
  | nil => rfl
  | cons c text ih => exact ih

theorem namesFrom_length (text rest : List α) : namesFrom find text.length (text ++ rest) = names find rest := by
  induction text with
  | nil => rfl
  | cons c text ih => exact ih

/-! ### Texts in pieces -/

/-- A piece of a text: symbols where no match begins, or one match. -/
inductive Piece (α : Type) where
  | plain (text : List α)
  | hit (text name : List α)
  deriving Repr, DecidableEq

def Piece.text : Piece α → List α
  | .plain text => text
  | .hit text _ => text

def Piece.name : Piece α → Option (List α)
  | .plain _ => none
  | .hit _ name => some name

/-- What a piece becomes when matches become their values. -/
def Piece.replaced (value : List α → List α) : Piece α → List α
  | .plain text => text
  | .hit _ name => value name

def texts (pieces : List (Piece α)) : List α := pieces.flatMap Piece.text

/-- The pieces are what the pattern makes of their text. -/
inductive Cut : List (Piece α) → Prop
  | nil : Cut []
  | plain {text : List α} {pieces : List (Piece α)} (rest : Cut pieces)
      (missing : ∀ before later c, text = before ++ c :: later → find (c :: later ++ texts pieces) = none) :
      Cut (.plain text :: pieces)
  | hit {text name : List α} {pieces : List (Piece α)} (rest : Cut pieces) (nonempty : text ≠ [])
      (found : find (text ++ texts pieces) = some ⟨name, text.length⟩) : Cut (.hit text name :: pieces)

theorem replaceAll_plain (text rest : List α)
    (missing : ∀ before later c, text = before ++ c :: later → find (c :: later ++ rest) = none) :
    replaceAll find replace (text ++ rest) = (replaceAll find replace rest).map (text ++ ·) := by
  induction text with
  | nil => simp
  | cons c text ih =>
    have later := ih fun before later d split => missing (c :: before) later d (by rw [split, List.cons_append])
    have here := missing [] text c rfl
    rw [List.cons_append] at here ⊢
    rw [replaceAll, replaceFrom, here]
    change (replaceAll find replace (text ++ rest)).map (c :: ·) = _
    rw [later, Option.map_map]
    rfl

theorem names_plain (text rest : List α)
    (missing : ∀ before later c, text = before ++ c :: later → find (c :: later ++ rest) = none) :
    names find (text ++ rest) = names find rest := by
  induction text with
  | nil => rfl
  | cons c text ih =>
    have here := missing [] text c rfl
    rw [List.cons_append] at here ⊢
    rw [names, namesFrom, here]
    exact ih fun before later d split => missing (c :: before) later d (by rw [split, List.cons_append])

theorem replaceAll_hit (text name rest : List α) (nonempty : text ≠ [])
    (found : find (text ++ rest) = some ⟨name, text.length⟩) :
    replaceAll find replace (text ++ rest) =
      (replace name).bind fun new => (replaceAll find replace rest).map (new ++ ·) := by
  obtain ⟨c, text, rfl⟩ := List.exists_cons_of_ne_nil nonempty
  rw [List.cons_append] at found ⊢
  rw [replaceAll, replaceFrom, found]
  -- the symbols of the match after its first one are passed over
  simp only [List.length_cons, Nat.add_sub_cancel, replaceFrom_length]
  cases replace name with
  | none => rfl
  | some new => cases replaceAll find replace rest <;> rfl

theorem names_hit (text name rest : List α) (nonempty : text ≠ [])
    (found : find (text ++ rest) = some ⟨name, text.length⟩) :
    names find (text ++ rest) = name :: names find rest := by
  obtain ⟨c, text, rfl⟩ := List.exists_cons_of_ne_nil nonempty
  rw [List.cons_append] at found ⊢
  rw [names, namesFrom, found]
  simp only [List.length_cons, Nat.add_sub_cancel, namesFrom_length]

/-- A text is replaced piece by piece, unless the replacement of a match panics. -/
theorem replaceAll_cut {value : List α → List α} (agree : ∀ name new, replace name = some new → new = value name)
    {pieces : List (Piece α)} (cut : Cut find pieces) (out : List α) :
    replaceAll find replace (texts pieces) = some out ↔
      (∀ name ∈ pieces.filterMap Piece.name, (replace name).isSome) ∧ out = pieces.flatMap (Piece.replaced value) := by
  induction cut generalizing out with
  | nil =>
    have empty : replaceAll find replace (texts []) = some [] := rfl
    rw [empty, Option.some.injEq]
    exact ⟨fun same => ⟨by simp, same.symm⟩, fun same => same.2.symm⟩
  -- no match begins in a plain piece, so the search goes on behind it
  | @plain text pieces _ missing ih =>
    have step := replaceAll_plain find replace text (texts pieces) missing
    rw [texts, List.flatMap_cons, Piece.text, ← texts, step, Option.map_eq_some_iff]
    simp only [ih, List.flatMap_cons, Piece.replaced, List.filterMap_cons, Piece.name]
    constructor
    · rintro ⟨others, ⟨all, rfl⟩, rfl⟩
      exact ⟨all, rfl⟩
    · rintro ⟨all, rfl⟩
      exact ⟨_, ⟨all, rfl⟩, rfl⟩
  | @hit text name pieces _ nonempty found ih =>
    have step := replaceAll_hit find replace text name (texts pieces) nonempty found
    rw [texts, List.flatMap_cons, Piece.text, ← texts, step, Option.bind_eq_some_iff]
    simp only [Option.map_eq_some_iff, ih, List.flatMap_cons, Piece.replaced, List.filterMap_cons, Piece.name,
      List.forall_mem_cons]
    constructor
    · rintro ⟨new, first, others, ⟨all, rfl⟩, rfl⟩
      exact ⟨⟨by rw [first]; rfl, all⟩, by rw [agree name new first]⟩
    · rintro ⟨⟨first, all⟩, rfl⟩
      obtain ⟨new, first⟩ := Option.isSome_iff_exists.mp first
      exact ⟨new, first, _, ⟨all, rfl⟩, by rw [agree name new first]⟩

theorem names_cut {pieces : List (Piece α)} (cut : Cut find pieces) :
    names find (texts pieces) = pieces.filterMap Piece.name := by
  induction cut with
  | nil => rfl
  | @plain text pieces _ missing ih =>
    rw [texts, List.flatMap_cons]
    exact (names_plain find text (texts pieces) missing).trans ih
  | @hit text name pieces _ nonempty found ih =>
    rw [texts, List.flatMap_cons]
    refine (names_hit find text name (texts pieces) nonempty found).trans ?_
    rw [ih]
    rfl

end Passes

/-! ### Patterns -/

/-- A part of a pattern without a group: symbols as they stand, or one symbol that may be missing. -/
inductive Part (α : Type) where
  | literal (text : List α)
  | optional (c : α)
  deriving Repr, DecidableEq

/-- Parts, one group of symbols other than one, as few as possible but at least one, and parts again. -/
structure Pattern (α : Type) where
  front : List (Part α)
  outside : α
  back : List (Part α)
  deriving Repr, DecidableEq

variable [DecidableEq α]

/-- Match parts and what follows. A symbol that may be missing is taken if the rest then matches. -/
def through (parts : List (Part α)) (next : List α → Option (Found α)) (text : List α) : Option (Found α) :=
  match parts with
  | [] => next text
  | .literal start :: parts =>
    if start <+: text then (through parts next (text.drop start.length)).map (Found.after start.length) else none
  | .optional c :: parts =>
    if text.head? = some c then
      ((through parts next text.tail).map (Found.after 1)).or (through parts next text)
    else through parts next text

/-- The shortest group that what follows matches after. -/
def shortest (outside : α) (next : List α → Option (Found α)) : List α → Option (Found α)
  | [] => none
  | c :: rest =>
    if c = outside then none
    else
      match next rest with
      | some found => some ⟨[c], 1 + found.len⟩
      | none => (shortest outside next rest).map fun found => ⟨c :: found.name, 1 + found.len⟩

def Pattern.find (pattern : Pattern α) (text : List α) : Option (Found α) :=
  through pattern.front (shortest pattern.outside (through pattern.back fun _ => some ⟨[], 0⟩)) text

theorem through_literal (start rest : List α) (parts : List (Part α)) (next : List α → Option (Found α)) :
    through (.literal start :: parts) next (start ++ rest) =
      (through parts next rest).map (Found.after start.length) := by
  rw [through, if_pos (List.prefix_append start rest), List.drop_left]

theorem through_literal_none {start text : List α} (parts : List (Part α)) (next : List α → Option (Found α))
    (other : ¬start <+: text) : through (.literal start :: parts) next text = none := by
  rw [through, if_neg other]

theorem through_optional_some {c : α} {rest : List α} {parts : List (Part α)} {next : List α → Option (Found α)}
    {found : Found α} (taken : through parts next rest = some found) :
    through (.optional c :: parts) next (c :: rest) = some (found.after 1) := by
  rw [through, List.head?_cons, if_pos rfl, List.tail_cons, taken]
  rfl

theorem through_optional_absent {c : α} {text : List α} (parts : List (Part α)) (next : List α → Option (Found α))
    (absent : text.head? ≠ some c) : through (.optional c :: parts) next text = through parts next text := by
  rw [through, if_neg absent]

theorem through_optional_none {c : α} {text : List α} {parts : List (Part α)} {next : List α → Option (Found α)}
    (taken : ∀ rest, text = c :: rest → through parts next rest = none) (missing : through parts next text = none) :
    through (.optional c :: parts) next text = none := by
  cases text with
  | nil => exact missing
  | cons d rest =>
    by_cases same : d = c
    · subst same
      rw [through, List.head?_cons, if_pos rfl, List.tail_cons, taken rest rfl, missing]
      rfl
    · have absent : (d :: rest).head? ≠ some c := by simpa using same
      rw [through_optional_absent parts next absent, missing]

/-- The group is a text after which the parts that follow match for the first time. -/
theorem shortest_append (outside : α) (next : List α → Option (Found α)) (name rest : List α) (found : Found α)
    (nonempty : name ≠ []) (inside : outside ∉ name)
    (earlier : ∀ before later c, name = before ++ c :: later → before ≠ [] → next (c :: later ++ rest) = none)
    (here : next rest = some found) :
    shortest outside next (name ++ rest) = some ⟨name, name.length + found.len⟩ := by
  induction name with
  | nil => exact absurd rfl nonempty
  | cons c name ih =>
    have other : c ≠ outside := fun same => inside (same ▸ List.mem_cons_self)
    rw [List.cons_append, shortest, if_neg other]
    cases name with
    | nil =>
      rw [List.nil_append, here]
      rfl
    | cons d name =>
      -- nothing matches after `c` yet
      rw [earlier [c] name d rfl (List.cons_ne_nil c [])]
      have rest := ih (List.cons_ne_nil d name) (fun member => inside (List.mem_cons_of_mem c member))
        fun before later e split _ => earlier (c :: before) later e (by rw [split, List.cons_append])
          (List.cons_ne_nil c before)
      simp only [rest, Option.map_some, List.length_cons, Option.some.injEq, Found.mk.injEq, true_and]
      omega

end Regex
