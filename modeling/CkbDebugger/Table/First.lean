import Mathlib.Data.List.Basic
import Mathlib.Data.List.Nodup
import Mathlib.Data.List.Induction

/-!
# The first item of each key

A loop that keeps an item only when its key is new ends with the first item of each key, in
the order in which the keys came up. The place of a key does not change any more.
-/
namespace Table

variable {α K : Type} [DecidableEq K] (key : α → K)

/-- Keep an item whose key is new. -/
def see (firsts : List α) (x : α) : List α :=
  if key x ∈ firsts.map key then firsts else firsts ++ [x]

def seeAll (firsts xs : List α) : List α := xs.foldl (see key) firsts

/-- The number of keys before a key. -/
def place (firsts : List α) (k : K) : Nat := (firsts.map key).idxOf k

variable {key}

theorem see_of_mem {firsts : List α} {x : α} (known : key x ∈ firsts.map key) :
    see key firsts x = firsts := if_pos known

theorem see_of_not_mem {firsts : List α} {x : α} (new : key x ∉ firsts.map key) :
    see key firsts x = firsts ++ [x] := if_neg new

theorem seeAll_cons (firsts : List α) (x : α) (xs : List α) :
    seeAll key firsts (x :: xs) = seeAll key (see key firsts x) xs := List.foldl_cons ..

theorem seeAll_append (firsts xs ys : List α) :
    seeAll key firsts (xs ++ ys) = seeAll key (seeAll key firsts xs) ys := List.foldl_append

/-- What was kept stays in front. -/
theorem seeAll_prefix (key : α → K) (firsts xs : List α) : ∃ more, seeAll key firsts xs = firsts ++ more := by
  induction xs generalizing firsts with
  | nil => exact ⟨[], (List.append_nil _).symm⟩
  | cons x xs ih =>
    rw [seeAll_cons]
    by_cases known : key x ∈ firsts.map key
    · rw [see_of_mem known]
      exact ih firsts
    · obtain ⟨more, rest⟩ := ih (firsts ++ [x])
      exact ⟨x :: more, by rw [see_of_not_mem known, rest, List.append_assoc, List.singleton_append]⟩

theorem mem_of_mem_seeAll {firsts xs : List α} {x : α} (member : x ∈ seeAll key firsts xs) :
    x ∈ firsts ∨ x ∈ xs := by
  induction xs generalizing firsts with
  | nil => exact .inl member
  | cons y ys ih =>
    rw [seeAll_cons] at member
    rcases ih member with before | after
    · by_cases known : key y ∈ firsts.map key
      · rw [see_of_mem known] at before
        exact .inl before
      · rw [see_of_not_mem known, List.mem_append, List.mem_singleton] at before
        rcases before with before | rfl
        · exact .inl before
        · exact .inr List.mem_cons_self
    · exact .inr (List.mem_cons_of_mem y after)

/-- Every key that came up has its item. -/
theorem key_mem_seeAll {firsts xs : List α} {x : α} (member : x ∈ firsts ∨ x ∈ xs) :
    key x ∈ (seeAll key firsts xs).map key := by
  induction xs generalizing firsts with
  | nil =>
    obtain kept := member.resolve_right List.not_mem_nil
    exact List.mem_map_of_mem kept
  | cons y ys ih =>
    rw [seeAll_cons]
    by_cases known : key y ∈ firsts.map key
    · rw [see_of_mem known]
      rcases member with before | member
      · exact ih (.inl before)
      · rcases List.mem_cons.mp member with rfl | after
        · obtain ⟨more, kept⟩ := seeAll_prefix key firsts ys
          rw [kept, List.map_append]
          exact List.mem_append_left _ known
        · exact ih (.inr after)
    · rw [see_of_not_mem known]
      apply ih
      rcases member with before | member
      · exact .inl (List.mem_append_left _ before)
      · rcases List.mem_cons.mp member with rfl | after
        · exact .inl (List.mem_append_right _ (List.mem_singleton.mpr rfl))
        · exact .inr after

theorem key_mem_see (firsts : List α) (x : α) : key x ∈ (see key firsts x).map key := by
  have all : key x ∈ (seeAll key firsts [x]).map key := key_mem_seeAll (.inr List.mem_cons_self)
  exact all

theorem nodup_seeAll {firsts xs : List α} (distinct : (firsts.map key).Nodup) :
    ((seeAll key firsts xs).map key).Nodup := by
  induction xs generalizing firsts with
  | nil => exact distinct
  | cons x xs ih =>
    rw [seeAll_cons]
    by_cases known : key x ∈ firsts.map key
    · rw [see_of_mem known]
      exact ih distinct
    · rw [see_of_not_mem known]
      apply ih
      rw [List.map_append, List.nodup_append]
      refine ⟨distinct, List.nodup_singleton _, ?_⟩
      intro k member other single same
      rw [List.map_singleton, List.mem_singleton] at single
      exact known (single ▸ same ▸ member)

/-- The place of a known key stays. -/
theorem place_seeAll {firsts xs : List α} {k : K} (known : k ∈ firsts.map key) :
    place key (seeAll key firsts xs) k = place key firsts k := by
  obtain ⟨more, kept⟩ := seeAll_prefix key firsts xs
  rw [place, kept, List.map_append, List.idxOf_append_of_mem known, place]

/-- At the place of a key stands the first item that has it. -/
theorem getElem_place (xs : List α) (k : K) : xs[place key xs k]? = xs.find? fun x => key x = k := by
  induction xs with
  | nil => rfl
  | cons x xs ih =>
    rw [place, List.map_cons, List.idxOf_cons, List.find?_cons]
    by_cases here : key x = k
    · simp [here]
    · have other : (key x == k) = false := beq_false_of_ne here
      rw [other, cond_false, List.getElem?_cons_succ, decide_eq_false here]
      exact ih

theorem find_seeAll (firsts xs : List α) (k : K) :
    (seeAll key firsts xs).find? (fun x => key x = k) = (firsts ++ xs).find? fun x => key x = k := by
  induction xs generalizing firsts with
  | nil => rw [List.append_nil, seeAll, List.foldl_nil]
  | cons x xs ih =>
    rw [seeAll_cons, ih, List.find?_append, List.find?_append]
    by_cases known : key x ∈ firsts.map key
    · rw [see_of_mem known, List.find?_cons]
      by_cases here : key x = k
      -- the item of a known key is behind the one that was kept
      · obtain ⟨first, member, same⟩ := List.mem_map.mp known
        obtain ⟨found, search⟩ : ∃ found, firsts.find? (fun x => key x = k) = some found :=
          Option.isSome_iff_exists.mp (List.find?_isSome.mpr ⟨first, member, by simp [same, here]⟩)
        rw [search, Option.some_or, Option.some_or]
      · rw [decide_eq_false here]
    · rw [see_of_not_mem known, ← List.find?_append, ← List.find?_append, List.append_assoc,
        List.singleton_append]

end Table
