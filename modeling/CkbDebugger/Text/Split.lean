import Mathlib.Data.List.Basic
import Mathlib.Data.List.Infix

/-!
# Texts that are split at separators

`find`, `rfind`, `split` with a separator of two symbols, and `lines` of the Rust standard
library, over any symbols.
-/
namespace Text

variable {α : Type} [DecidableEq α]

/-! ### Cuts at one symbol -/

/-- The texts before and after the first occurrence of a symbol. -/
def cutFirst (c : α) : List α → Option (List α × List α)
  | [] => none
  | d :: rest => if d = c then some ([], rest) else (cutFirst c rest).map fun (x, y) => (d :: x, y)

/-- The texts before and after the last occurrence of a symbol. -/
def cutLast (c : α) : List α → Option (List α × List α)
  | [] => none
  | d :: rest =>
    -- an occurrence further on is the later one
    match cutLast c rest with
    | some (x, y) => some (d :: x, y)
    | none => if d = c then some ([], rest) else none

theorem cutFirst_append (c : α) (x y : List α) (absent : c ∉ x) :
    cutFirst c (x ++ c :: y) = some (x, y) := by
  induction x with
  | nil => simp [cutFirst]
  | cons d x ih =>
    have other : d ≠ c := fun same => absent (same ▸ List.mem_cons_self)
    have later : c ∉ x := fun member => absent (List.mem_cons_of_mem d member)
    simp only [List.cons_append, cutFirst, if_neg other, ih later, Option.map_some]

theorem not_mem_of_cutFirst {c : α} {l x y : List α} (cut : cutFirst c l = some (x, y)) : c ∉ x := by
  induction l generalizing x with
  | nil => cases cut
  | cons d rest ih =>
    unfold cutFirst at cut
    split at cut
    next => cases cut; exact List.not_mem_nil
    next other =>
      obtain ⟨⟨x', y'⟩, cut', equal⟩ := Option.map_eq_some_iff.mp cut
      cases equal
      intro member
      rcases List.mem_cons.mp member with same | member
      · exact other same.symm
      · exact ih cut' member

theorem cutLast_of_not_mem (c : α) (l : List α) (absent : c ∉ l) : cutLast c l = none := by
  induction l with
  | nil => rfl
  | cons d rest ih =>
    have other : d ≠ c := fun same => absent (same ▸ List.mem_cons_self)
    have later : c ∉ rest := fun member => absent (List.mem_cons_of_mem d member)
    simp only [cutLast, ih later, if_neg other]

theorem cutLast_append (c : α) (x y : List α) (absent : c ∉ y) :
    cutLast c (x ++ c :: y) = some (x, y) := by
  induction x with
  | nil => simp only [List.nil_append, cutLast, cutLast_of_not_mem c y absent, if_true]
  | cons d x ih => simp only [List.cons_append, cutLast, ih]

/-! ### Pieces -/

/-- Put a symbol before the first of some pieces. -/
def consFirst (c : α) : List (List α) → List (List α)
  | [] => [[c]]
  | piece :: pieces => (c :: piece) :: pieces

/-- The pieces between the occurrences of the separator `a b`. -/
def splitPair (a b : α) : List α → List (List α)
  | [] => [[]]
  | [c] => [[c]]
  | c :: d :: rest =>
    if c = a ∧ d = b then [] :: splitPair a b rest
    else consFirst c (splitPair a b (d :: rest))

omit [DecidableEq α] in
theorem consFirst_append (c : α) (pieces more : List (List α)) (present : pieces ≠ []) :
    consFirst c (pieces ++ more) = consFirst c pieces ++ more := by
  cases pieces with
  | nil => exact absurd rfl present
  | cons piece pieces => rfl

theorem splitPair_ne_nil (a b : α) (l : List α) : splitPair a b l ≠ [] := by
  fun_cases splitPair a b l with
  | case1 => simp
  | case2 => simp
  | case3 => simp
  | case4 c d rest other =>
    cases splitPair a b (d :: rest) with
    | nil => simp [consFirst]
    | cons piece pieces => simp [consFirst]

/-- An occurrence of the separator ends a piece, whatever is before it: the two symbols
differ, so that no earlier occurrence runs into this one. -/
theorem splitPair_append (a b : α) (different : a ≠ b) (x y : List α) :
    splitPair a b (x ++ a :: b :: y) = splitPair a b x ++ splitPair a b y := by
  fun_induction splitPair a b x with
  | case1 => simp [splitPair]
  -- a text of one symbol, perhaps an `a` that the separator's own `a` keeps from being one
  | case2 c => simp [splitPair, different, consFirst]
  | case3 c d rest found ih => simp only [List.cons_append, splitPair, found, and_self, if_true, ih]
  | case4 c d rest other ih =>
    rw [← consFirst_append c _ _ (splitPair_ne_nil a b (d :: rest)), ← ih]
    simp only [List.cons_append, splitPair, if_neg other]

theorem splitPair_of_not_infix (a b : α) (l : List α) (absent : ¬[a, b] <:+: l) :
    splitPair a b l = [l] := by
  fun_induction splitPair a b l with
  | case1 => rfl
  | case2 c => rfl
  | case3 c d rest found ih =>
    obtain ⟨rfl, rfl⟩ := found
    exact absurd ⟨[], rest, rfl⟩ absent
  | case4 c d rest other ih =>
    rw [ih fun later => absent (later.trans (List.suffix_cons c _).isInfix)]
    rfl

theorem two_le_length_splitPair (a b : α) (different : a ≠ b) (l : List α) (inside : [a, b] <:+: l) :
    2 ≤ (splitPair a b l).length := by
  obtain ⟨x, y, rfl⟩ := inside
  have before := List.length_pos_iff.mpr (splitPair_ne_nil a b x)
  have after := List.length_pos_iff.mpr (splitPair_ne_nil a b y)
  rw [List.append_assoc, List.cons_append, List.cons_append, List.nil_append, splitPair_append a b different,
    List.length_append]
  omega

omit [DecidableEq α] in
/-- A symbol that is not in the separator cuts no occurrence of it. -/
theorem pair_infix_append_cons (a b c : α) (x y : List α) (notFirst : a ≠ c) (notSecond : b ≠ c) :
    [a, b] <:+: x ++ c :: y ↔ [a, b] <:+: x ∨ [a, b] <:+: y := by
  induction x with
  | nil => simp [List.infix_cons_iff, List.cons_prefix_cons, notFirst]
  | cons d x ih =>
    have front : [a, b] <+: d :: (x ++ c :: y) ↔ [a, b] <+: d :: x := by
      cases x with
      | nil => simp [List.cons_prefix_cons, notSecond]
      | cons e x => simp [List.cons_prefix_cons]
    rw [List.cons_append, List.infix_cons_iff, List.infix_cons_iff, front, ih, or_assoc]

/-! ### Lines -/

/-- The lines of a text, without the `nl` or `cr nl` at their end. The last line may lack
it. -/
def lines (nl cr : α) : List α → List (List α)
  | [] => []
  | c :: rest =>
    if c = nl then [] :: lines nl cr rest
    -- one `cr` belongs to the end of a line, a second one to the line
    else if c = cr ∧ rest.head? = some nl then lines nl cr rest
    else consFirst c (lines nl cr rest)

theorem lines_append (nl cr : α) (l rest : List α) (absent : nl ∉ l) (last : l.getLast? ≠ some cr) :
    lines nl cr (l ++ nl :: rest) = l :: lines nl cr rest := by
  induction l with
  | nil => simp [lines]
  | cons c l ih =>
    have other : c ≠ nl := fun same => absent (same ▸ List.mem_cons_self)
    have later : nl ∉ l := fun member => absent (List.mem_cons_of_mem c member)
    -- `c` is not the `cr` of the line's end: that would be its last symbol
    have kept : ¬(c = cr ∧ (l ++ nl :: rest).head? = some nl) := by
      rintro ⟨rfl, next⟩
      cases l with
      | nil => exact last rfl
      | cons d l => exact later (Option.some.inj next ▸ List.mem_cons_self)
    have last' : l.getLast? ≠ some cr := by
      cases l with
      | nil => simp
      | cons d l => rwa [List.getLast?_cons_cons] at last
    rw [List.cons_append, lines, if_neg other, if_neg kept, ih later last']
    rfl

theorem lines_flatMap (nl cr : α) (ls : List (List α)) (absent : ∀ l ∈ ls, nl ∉ l)
    (last : ∀ l ∈ ls, l.getLast? ≠ some cr) : lines nl cr (ls.flatMap (· ++ [nl])) = ls := by
  induction ls with
  | nil => rfl
  | cons l ls ih =>
    rw [List.flatMap_cons, List.append_assoc, List.singleton_append,
      lines_append nl cr l _ (absent l List.mem_cons_self) (last l List.mem_cons_self),
      ih (fun l member => absent l (List.mem_cons_of_mem _ member))
        (fun l member => last l (List.mem_cons_of_mem _ member))]

end Text
