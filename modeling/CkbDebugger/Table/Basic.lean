import Mathlib.Data.List.Basic
import Mathlib.Data.List.Induction

/-!
# Tables filled by loops

A map that is only looked up and inserted into. A loop that may fail and inserts entries for each
of its items fills the map with all of them, and of several entries for a key the last one stays.
-/
namespace Table

variable {K V ι σ ε : Type} [DecidableEq K]

def insert (map : K → Option V) (key : K) (value : V) : K → Option V :=
  fun k => if k = key then some value else map k

/-- Insert the entries in their order. -/
def fill (map : K → Option V) (entries : List (K × V)) : K → Option V :=
  entries.foldl (fun map entry => insert map entry.1 entry.2) map

theorem fill_append (map : K → Option V) (xs ys : List (K × V)) :
    fill map (xs ++ ys) = fill (fill map xs) ys := List.foldl_append

/-- The last entry for a key stays. -/
theorem fill_apply (map : K → Option V) (entries : List (K × V)) (key : K) :
    fill map entries key =
      ((entries.findRev? fun entry => entry.1 = key).map Prod.snd).or (map key) := by
  rw [List.findRev?_eq_find?_reverse]
  induction entries using List.reverseRecOn with
  | nil => rfl
  | append_singleton entries entry ih =>
    rw [fill_append, List.reverse_concat, List.find?_cons]
    by_cases same : entry.1 = key
    · simp [fill, insert, same]
    · have kept : fill (fill map entries) [entry] key = fill map entries key := if_neg (Ne.symm same)
      simp [kept, ih, same]

theorem fill_of_forall_ne {map : K → Option V} {entries : List (K × V)} {key : K}
    (other : ∀ entry ∈ entries, entry.1 ≠ key) : fill map entries key = map key := by
  have absent : entries.findRev? (fun entry => entry.1 = key) = none := by
    simpa using other
  rw [fill_apply, absent]
  rfl

/-- Entries that agree on a key leave their value there. -/
theorem fill_of_forall_eq {map : K → Option V} {entries : List (K × V)} {key : K} {value : V}
    (present : ∃ entry ∈ entries, entry.1 = key)
    (agree : ∀ entry ∈ entries, entry.1 = key → entry.2 = value) :
    fill map entries key = some value := by
  rcases found : entries.findRev? (fun entry => entry.1 = key) with _ | entry
  · obtain ⟨entry, mem, same⟩ := present
    simp only [List.findRev?_eq_find?_reverse, List.find?_eq_none, List.mem_reverse,
      decide_eq_true_eq] at found
    exact absurd same (found entry mem)
  · rw [fill_apply, found]
    rw [List.findRev?_eq_find?_reverse] at found
    have same : entry.1 = key := by simpa using List.find?_some found
    rw [← agree entry (List.mem_reverse.mp (List.mem_of_find?_eq_some found)) same]
    rfl

/-- The last item of a list with a property, if some item has it. -/
theorem exists_findRev? {p : ι → Bool} {items : List ι} (present : ∃ item ∈ items, p item) :
    ∃ item, items.findRev? p = some item ∧ item ∈ items ∧ p item := by
  rw [List.findRev?_eq_find?_reverse]
  obtain ⟨item, mem, holds⟩ := present
  obtain ⟨last, found⟩ := Option.isSome_iff_exists.mp
    (List.find?_isSome.mpr ⟨item, List.mem_reverse.mpr mem, holds⟩)
  exact ⟨last, found, List.mem_reverse.mp (List.mem_of_find?_eq_some found), List.find?_some found⟩

/-- The last item with a key decides what a loop over items leaves there. -/
theorem fill_flatMap_last {map : K → Option V} {items : List ι} {entries : ι → List (K × V)}
    {keyOf : ι → K} {key : K} {item : ι} {value : V}
    (keys : ∀ item, ∀ entry ∈ entries item, entry.1 = keyOf item)
    (last : items.findRev? (fun item => keyOf item = key) = some item)
    (single : entries item = [(key, value)]) :
    fill map (items.flatMap entries) key = some value := by
  rw [List.findRev?_eq_find?_reverse, List.find?_eq_some_iff_append] at last
  obtain ⟨-, after, before, split, later⟩ := last
  have items_eq : items = before.reverse ++ item :: after.reverse := by
    simpa using congrArg List.reverse split
  have afterwards : ∀ entry ∈ after.reverse.flatMap entries, entry.1 ≠ key := by
    intro entry mem
    obtain ⟨other, otherMem, entryMem⟩ := List.mem_flatMap.mp mem
    rw [keys other entry entryMem]
    simpa using later other (List.mem_reverse.mp otherMem)
  rw [items_eq, List.flatMap_append, List.flatMap_cons, single, fill_append, fill_append,
    fill_of_forall_ne afterwards]
  exact if_pos rfl

/-- A loop that starts with an empty map fills it at the keys of its items only. -/
theorem exists_of_isSome_fill {items : List ι} {entries : ι → List (K × V)} {keyOf : ι → K} {key : K}
    (keys : ∀ item, ∀ entry ∈ entries item, entry.1 = keyOf item)
    (filled : (fill (fun _ => none) (items.flatMap entries) key).isSome) : ∃ item ∈ items, keyOf item = key := by
  by_contra unused
  have absent : ∀ entry ∈ items.flatMap entries, entry.1 ≠ key := by
    intro entry mem same
    obtain ⟨item, itemMem, entryMem⟩ := List.mem_flatMap.mp mem
    exact unused ⟨item, itemMem, (keys item entry entryMem).symm.trans same⟩
  rw [fill_of_forall_ne absent] at filled
  cases filled

/-! ### Loops -/

theorem run_pure_ok {α : Type} {value : α} {s : σ} {last : α × σ} :
    (pure value : StateT σ (Except ε) α).run s = .ok last ↔ last = (value, s) := by
  have done : (pure value : StateT σ (Except ε) α).run s = .ok (value, s) := rfl
  rw [done, Except.ok.injEq, eq_comm]

theorem run_throw_ok {α : Type} {e : ε} {s : σ} {last : α × σ} :
    (throw e : StateT σ (Except ε) α).run s = .ok last ↔ False := by
  have failed : (throw e : StateT σ (Except ε) α).run s = .error e := rfl
  simp [failed]

/-- A computation that goes on after another one. -/
theorem run_bind_ok {α β : Type} {first : StateT σ (Except ε) α} {next : α → StateT σ (Except ε) β}
    {s : σ} {last : β × σ} :
    (first >>= next).run s = .ok last ↔
      ∃ mid, first.run s = .ok mid ∧ (next mid.1).run mid.2 = .ok last := by
  rw [StateT.run_bind]
  rcases first.run s with e | mid
  · simp [Bind.bind, Except.bind]
  · simp [Bind.bind, Except.bind]

/-- A loop whose rounds need `Good` items and then insert their `entries`. -/
theorem foldlM_ok_iff {step : (K → Option V) → ι → StateT σ (Except ε) (K → Option V)}
    {Good : ι → Prop} {entries : ι → List (K × V)}
    (round : ∀ map item s last, (step map item).run s = .ok last ↔
      Good item ∧ last = (fill map (entries item), s))
    (items : List ι) (map : K → Option V) (s : σ) (last : (K → Option V) × σ) :
    (items.foldlM step map).run s = .ok last ↔
      (∀ item ∈ items, Good item) ∧ last = (fill map (items.flatMap entries), s) := by
  induction items generalizing map with
  | nil => simp [run_pure_ok, fill, -StateT.run_pure]
  | cons item items ih =>
    rw [List.foldlM_cons, run_bind_ok, List.flatMap_cons, fill_append, List.forall_mem_cons, and_assoc]
    constructor
    · rintro ⟨mid, first, rest⟩
      obtain ⟨good, rfl⟩ := (round _ _ _ _).mp first
      exact ⟨good, (ih _).mp rest⟩
    · rintro ⟨good, rest⟩
      exact ⟨_, (round _ _ _ _).mpr ⟨good, rfl⟩, (ih _).mpr rest⟩

end Table
