import Mathlib.Algebra.BigOperators.Group.List.Basic
import Mathlib.Data.List.Perm.Basic

/-!
# Rooted trees in an arena

A tree of shared mutable nodes with links in both directions: every node knows
its parent and lists its children. Nodes are numbered in the order in which they
are made, so that the root is node 0 and children have greater numbers than
their parents.
-/
namespace Tree

structure Arena (α : Type) where
  size : Nat
  label : Nat → α
  parent : Nat → Option Nat
  childs : Nat → List Nat
  occupied : 0 < size
  root : parent 0 = none
  /-- The parent of a node is the node that lists it. -/
  listed : ∀ p c, c ∈ childs p ↔ parent c = some p
  later : ∀ p c, parent c = some p → p < c ∧ c < size
  rooted : ∀ c, 0 < c → c < size → ∃ p, parent c = some p
  distinct : ∀ p, (childs p).Nodup

namespace Arena

variable {α : Type}

/-! ### Operations -/

/-- A root without children. -/
def single (label : α) : Arena α where
  size := 1
  label := fun _ => label
  parent := fun _ => none
  childs := fun _ => []
  occupied := Nat.one_pos
  root := rfl
  listed := by simp
  later := by simp
  rooted := by omega
  distinct := by simp

/-- Give a node a new last child. -/
def push (a : Arena α) (p : Nat) (label : α) (inside : p < a.size) : Arena α where
  size := a.size + 1
  label := fun i => if i = a.size then label else a.label i
  parent := fun i => if i = a.size then some p else a.parent i
  childs := fun i => if i = p then a.childs p ++ [a.size] else a.childs i
  occupied := Nat.succ_pos _
  root := by
    have occupied := a.occupied
    rw [if_neg (by omega), a.root]
  listed := by
    intro q c
    have old : c ∈ a.childs q → c < a.size := fun member => (a.later q c ((a.listed q c).mp member)).2
    by_cases fresh : c = a.size
    · by_cases here : q = p
      · simp [fresh, here]
      · simp only [fresh, here, if_true, if_false, Option.some.injEq]
        constructor
        · intro member
          exact absurd (old (fresh ▸ member)) (by omega)
        · intro same
          exact absurd same.symm here
    · by_cases here : q = p
      · simp [fresh, here, a.listed]
      · simp [fresh, here, a.listed]
  later := by
    intro q c known
    split at known
    · obtain rfl := Option.some.inj known
      omega
    · have before := a.later q c known
      omega
  rooted := by
    intro c positive below
    by_cases fresh : c = a.size
    · exact ⟨p, if_pos fresh⟩
    · obtain ⟨q, known⟩ := a.rooted c positive (by omega)
      exact ⟨q, by rw [if_neg fresh, known]⟩
  distinct := by
    intro q
    split
    · rw [List.nodup_append]
      refine ⟨a.distinct p, by simp, ?_⟩
      intro c member d single same
      have before := (a.later p c ((a.listed p c).mp member)).2
      rw [List.mem_singleton] at single
      omega
    · exact a.distinct q

/-- Change the label of a node. -/
def relabel (a : Arena α) (i : Nat) (f : α → α) : Arena α :=
  { a with label := fun j => if j = i then f (a.label i) else a.label j }

/-- What a change of labels keeps at every label, it keeps at every node. -/
theorem relabel_keeps {β : Type} (read : α → β) {f : α → α} (keeps : ∀ label, read (f label) = read label)
    (a : Arena α) (i j : Nat) : read ((a.relabel i f).label j) = read (a.label j) := by
  simp only [relabel]
  split
  next here => rw [keeps, here]
  · rfl

/-! ### The way to the root -/

def ancestorsFrom (a : Arena α) : Nat → Nat → List Nat
  | 0, _ => []
  | steps + 1, i =>
    i :: match a.parent i with
      | some p => ancestorsFrom a steps p
      | none => []

/-- A node, its parent, and so on up to the root. -/
def ancestors (a : Arena α) (i : Nat) : List Nat := a.ancestorsFrom (i + 1) i

theorem ancestorsFrom_eq (a : Arena α) (steps i : Nat) (enough : i < steps) :
    a.ancestorsFrom steps i = a.ancestors i := by
  induction i using Nat.strongRecOn generalizing steps with
  | ind i ih =>
    obtain ⟨fuel, rfl⟩ : ∃ fuel, steps = fuel + 1 := ⟨steps - 1, by omega⟩
    simp only [ancestors, ancestorsFrom]
    cases known : a.parent i with
    | none => rfl
    | some p =>
      have before := (a.later p i known).1
      simp only
      rw [ih p before fuel (by omega), ih p before i before]

theorem ancestors_eq (a : Arena α) (i : Nat) :
    a.ancestors i = i :: match a.parent i with
      | some p => a.ancestors p
      | none => [] := by
  rw [ancestors, ancestorsFrom]
  cases known : a.parent i with
  | none => rfl
  | some p =>
    simp only
    rw [ancestorsFrom_eq a i p (a.later p i known).1]

theorem mem_ancestors_self (a : Arena α) (i : Nat) : i ∈ a.ancestors i := by
  rw [ancestors_eq]
  exact List.mem_cons_self

theorem ancestors_le (a : Arena α) (i j : Nat) (member : j ∈ a.ancestors i) : j ≤ i := by
  induction i using Nat.strongRecOn with
  | ind i ih =>
    rw [ancestors_eq] at member
    rcases List.mem_cons.mp member with rfl | above
    · exact Nat.le_refl j
    · cases known : a.parent i with
      | none => simp [known] at above
      | some p =>
        rw [known] at above
        have before := (a.later p i known).1
        have bound := ih p before above
        omega

theorem root_mem_ancestors (a : Arena α) (i : Nat) (inside : i < a.size) : 0 ∈ a.ancestors i := by
  induction i using Nat.strongRecOn with
  | ind i ih =>
    by_cases first : i = 0
    · rw [first]
      exact mem_ancestors_self a 0
    · obtain ⟨p, known⟩ := a.rooted i (by omega) inside
      have before := (a.later p i known).1
      rw [ancestors_eq, known]
      exact List.mem_cons_of_mem i (ih p before (by omega))

/-- A search on the way to the root ends at the root when nothing below it passes. -/
theorem find_ancestors_root_iff (a : Arena α) (test : Nat → Bool) (i : Nat) (inside : i < a.size) :
    (a.ancestors i).find? test = some 0 ↔
      test 0 = true ∧ ∀ j ∈ a.ancestors i, j ≠ 0 → test j = false := by
  induction i using Nat.strongRecOn with
  | ind i ih =>
    by_cases first : i = 0
    · rw [first, ancestors_eq, a.root]
      simp
    · obtain ⟨p, known⟩ := a.rooted i (by omega) inside
      have before := (a.later p i known).1
      have above := ih p before (by omega)
      rw [ancestors_eq, known]
      cases passes : test i with
      | true => simp [passes, first]
      | false => simp [passes, above]

/-- A node is a proper ancestor of another one through exactly one of its children. -/
theorem mem_ancestors_iff_child (a : Arena α) (i j : Nat) (different : i ≠ j) :
    i ∈ a.ancestors j ↔ ∃ c ∈ a.childs i, c ∈ a.ancestors j := by
  induction j using Nat.strongRecOn with
  | ind j ih =>
    cases known : a.parent j with
    | none =>
      have only : a.ancestors j = [j] := by rw [ancestors_eq, known]
      simp only [only, List.mem_singleton, different, false_iff]
      rintro ⟨c, child, rfl⟩
      rw [a.listed, known] at child
      cases child
    | some p =>
      have before := (a.later p j known).1
      have chain : a.ancestors j = j :: a.ancestors p := by rw [ancestors_eq, known]
      rw [chain, List.mem_cons]
      by_cases here : i = p
      · subst here
        simp only [mem_ancestors_self, or_true, true_iff]
        exact ⟨j, (a.listed i j).mpr known, List.mem_cons_self⟩
      · simp only [different, false_or]
        rw [ih p before here]
        constructor
        · rintro ⟨c, child, above⟩
          exact ⟨c, child, List.mem_cons_of_mem j above⟩
        · rintro ⟨c, child, above⟩
          rcases List.mem_cons.mp above with rfl | above
          · rw [a.listed, known] at child
            exact absurd (Option.some.inj child).symm here
          · exact ⟨c, child, above⟩

theorem child_unique (a : Arena α) {i j c d : Nat} (c_child : c ∈ a.childs i) (d_child : d ∈ a.childs i)
    (c_above : c ∈ a.ancestors j) (d_above : d ∈ a.ancestors j) : c = d := by
  induction j using Nat.strongRecOn with
  | ind j ih =>
    have c_parent := (a.listed i c).mp c_child
    have d_parent := (a.listed i d).mp d_child
    -- a child of `i` that is not `j` is above the parent of `j`
    have climb : ∀ e f, a.parent e = some i → a.parent f = some i → e = j → f ∈ a.ancestors j →
        e = f := by
      intro e f e_parent f_parent e_here f_above
      rw [ancestors_eq, ← e_here, e_parent] at f_above
      rcases List.mem_cons.mp f_above with same | above
      · exact same.symm
      · have low := ancestors_le a i f above
        have high := (a.later i f f_parent).1
        omega
    by_cases c_here : c = j
    · exact climb c d c_parent d_parent c_here d_above
    · by_cases d_here : d = j
      · exact (climb d c d_parent c_parent d_here c_above).symm
      · rw [ancestors_eq] at c_above d_above
        cases known : a.parent j with
        | none => simp [known, c_here] at c_above
        | some p =>
          rw [known] at c_above d_above
          exact ih p (a.later p j known).1 ((List.mem_cons.mp c_above).resolve_left c_here)
            ((List.mem_cons.mp d_above).resolve_left d_here)

theorem ancestors_congr (a b : Arena α) (i : Nat) (same : ∀ j ≤ i, a.parent j = b.parent j) :
    a.ancestors i = b.ancestors i := by
  induction i using Nat.strongRecOn with
  | ind i ih =>
    rw [ancestors_eq, ancestors_eq, ← same i (Nat.le_refl i)]
    cases known : a.parent i with
    | none => rfl
    | some p =>
      have before := (a.later p i known).1
      simp only
      rw [ih p before fun j below => same j (by omega)]

@[simp] theorem ancestors_relabel (a : Arena α) (i : Nat) (f : α → α) (j : Nat) :
    (a.relabel i f).ancestors j = a.ancestors j :=
  ancestors_congr _ _ _ fun _ _ => rfl

theorem ancestors_push (a : Arena α) (p : Nat) (label : α) (inside : p < a.size) {i : Nat} (old : i < a.size) :
    (a.push p label inside).ancestors i = a.ancestors i :=
  ancestors_congr _ _ _ fun _ below => if_neg (by omega)

theorem ne_of_mem_tail_ancestors (a : Arena α) {i j : Nat} (member : j ∈ (a.ancestors i).tail) : j ≠ i := by
  rw [ancestors_eq, List.tail_cons] at member
  cases known : a.parent i with
  | none => simp [known] at member
  | some p =>
    rw [known] at member
    have above := a.ancestors_le p j member
    have before := (a.later p i known).1
    omega

/-- The way to the root from the first node that passes a test. -/
theorem dropWhile_ancestors (a : Arena α) (test : Nat → Bool) (i : Nat) :
    ((a.ancestors i).dropWhile fun j => !test j) =
      match (a.ancestors i).find? test with
      | some f => a.ancestors f
      | none => [] := by
  induction i using Nat.strongRecOn with
  | ind i ih =>
    rw [ancestors_eq, List.dropWhile_cons, List.find?_cons]
    cases passed : test i with
    | true => simp [ancestors_eq a i]
    | false =>
      cases known : a.parent i with
      | none => simp
      | some p => simpa using ih p (a.later p i known).1

/-! ### A stretch of the way to the root -/

/-- The way up from a node, read at each node that it leaves, and the node where it ends. -/
inductive Path {β : Type} (a : Arena α) (read : α → β) : Nat → List β → Nat → Prop where
  | here (i : Nat) : Path a read i [] i
  | up {i above last : Nat} {marks : List β} (known : a.parent i = some above)
      (rest : Path a read above marks last) : Path a read i (read (a.label i) :: marks) last

theorem Path.congr {β : Type} {a b : Arena α} {read : α → β} {i last : Nat} {marks : List β}
    (path : a.Path read i marks last)
    (same : ∀ j ≤ i, b.parent j = a.parent j ∧ read (b.label j) = read (a.label j)) :
    b.Path read i marks last := by
  induction path with
  | here i => exact .here i
  | @up i above last marks known rest ih =>
    have before := (a.later above i known).1
    have here := same i (Nat.le_refl i)
    rw [← here.2]
    exact .up (here.1.trans known) (ih fun j below => same j (by omega))

theorem Path.last_le {β : Type} {a : Arena α} {read : α → β} {i last : Nat} {marks : List β}
    (path : a.Path read i marks last) : last ≤ i := by
  induction path with
  | here i => exact Nat.le_refl i
  | @up i above last marks known rest ih =>
    have before := (a.later above i known).1
    omega

theorem Path.head {β : Type} {a : Arena α} {read : α → β} {i last : Nat} {mark : β} {marks : List β}
    (path : a.Path read i (mark :: marks) last) : read (a.label i) = mark := by
  cases path
  rfl

/-- A search that only the last mark of a stretch passes ends at the node below the end of it. -/
theorem Path.find {β : Type} {a : Arena α} {read : α → β} {i last : Nat} {front : List β} {mark : β}
    (path : a.Path read i (front ++ [mark]) last) (test : β → Bool)
    (passed : ∀ b ∈ front, test b = false) (stops : test mark = true) :
    ∃ f, (a.ancestors i).find? (fun f => test (read (a.label f))) = some f ∧ a.parent f = some last := by
  induction front generalizing i with
  | nil =>
    cases path with
    | up known rest =>
      cases rest with
      | here => exact ⟨i, by rw [ancestors_eq, List.find?_cons, stops], known⟩
  | cons b front ih =>
    cases path with
    | up known rest =>
      obtain ⟨f, found, parent⟩ := ih rest fun b member => passed b (List.mem_cons_of_mem _ member)
      refine ⟨f, ?_, parent⟩
      rw [ancestors_eq, List.find?_cons, passed _ List.mem_cons_self, known]
      exact found

/-! ### All nodes in preorder -/

def preorderFrom (a : Arena α) : Nat → Nat → List Nat
  | 0, _ => []
  | depth + 1, i => i :: (a.childs i).flatMap (preorderFrom a depth)

/-- A node, and the nodes below each of its children. -/
def preorder (a : Arena α) (i : Nat) : List Nat := a.preorderFrom (a.size - i) i

theorem preorderFrom_congr (a : Arena α) (depth depth' i : Nat) (inside : i < a.size)
    (enough : a.size ≤ depth + i) (enough' : a.size ≤ depth' + i) :
    a.preorderFrom depth i = a.preorderFrom depth' i := by
  induction depth generalizing i depth' with
  | zero => omega
  | succ depth ih =>
    obtain ⟨fuel, rfl⟩ : ∃ fuel, depth' = fuel + 1 := ⟨depth' - 1, by omega⟩
    rw [preorderFrom, preorderFrom]
    congr 1
    apply List.flatMap_congr
    intro c child
    have bounds := a.later i c ((a.listed i c).mp child)
    exact ih fuel c bounds.2 (by omega) (by omega)

theorem preorder_eq (a : Arena α) (i : Nat) (inside : i < a.size) :
    a.preorder i = i :: (a.childs i).flatMap a.preorder := by
  obtain ⟨fuel, equal⟩ : ∃ fuel, a.size - i = fuel + 1 := ⟨a.size - i - 1, by omega⟩
  rw [preorder, equal, preorderFrom]
  congr 1
  apply List.flatMap_congr
  intro c child
  have bounds := a.later i c ((a.listed i c).mp child)
  exact preorderFrom_congr a fuel (a.size - c) c bounds.2 (by omega) (by omega)

/-- A number in each of some lists at most once, and in at most one of them. -/
theorem count_flatMap_le_one (f : Nat → List Nat) (j : Nat) (test : Nat → Bool) (xs : List Nat)
    (each : ∀ x ∈ xs, (f x).count j = if test x then 1 else 0) (distinct : xs.Nodup)
    (unique : ∀ x ∈ xs, ∀ y ∈ xs, test x = true → test y = true → x = y) :
    (xs.flatMap f).count j = if xs.any test then 1 else 0 := by
  induction xs with
  | nil => rfl
  | cons x xs ih =>
    obtain ⟨absent, distinct⟩ := List.nodup_cons.mp distinct
    have rest := ih (fun y member => each y (List.mem_cons_of_mem x member)) distinct
      fun y member z member' => unique y (List.mem_cons_of_mem x member) z (List.mem_cons_of_mem x member')
    rw [List.flatMap_cons, List.count_append, each x List.mem_cons_self, rest, List.any_cons]
    by_cases here : test x = true
    · have none : xs.any test = false := by
        rw [Bool.eq_false_iff]
        intro some
        obtain ⟨y, member, there⟩ := List.any_eq_true.mp some
        have same := unique x List.mem_cons_self y (List.mem_cons_of_mem x member) here there
        exact absent (same ▸ member)
      simp [here, none]
    · simp [here]

/-- A node stands once in the preorder of each of its ancestors, and in no other. -/
theorem count_preorder (a : Arena α) (i j : Nat) (inside : i < a.size) :
    (a.preorder i).count j = if i ∈ a.ancestors j then 1 else 0 := by
  obtain ⟨distance, far⟩ : ∃ distance, a.size - i = distance := ⟨_, rfl⟩
  -- children are closer to the end of the arena
  induction distance using Nat.strongRecOn generalizing i with
  | ind distance ih =>
    have below : ∀ c ∈ a.childs i, (a.preorder c).count j =
        if (a.ancestors j).contains c then 1 else 0 := by
      intro c child
      have bounds := a.later i c ((a.listed i c).mp child)
      rw [ih (a.size - c) (by omega) c bounds.2 rfl]
      simp
    have total := count_flatMap_le_one a.preorder j (fun c => (a.ancestors j).contains c) (a.childs i)
      below (a.distinct i) fun c c_child d d_child c_above d_above =>
        a.child_unique c_child d_child (by simpa using c_above) (by simpa using d_above)
    rw [preorder_eq a i inside, List.count_cons, total]
    by_cases here : i = j
    · subst here
      have none : (a.childs i).any (fun c => (a.ancestors i).contains c) = false := by
        rw [Bool.eq_false_iff]
        intro some
        obtain ⟨c, child, above⟩ := List.any_eq_true.mp some
        have low := a.ancestors_le i c (by simpa using above)
        have high := (a.later i c ((a.listed i c).mp child)).1
        omega
      rw [none]
      simp [mem_ancestors_self]
    · have children := a.mem_ancestors_iff_child i j here
      simp [here, children]

/-- The preorder from the root has every node once. -/
theorem preorder_perm (a : Arena α) : (a.preorder 0).Perm (List.range a.size) := by
  rw [List.perm_iff_count]
  intro j
  rw [count_preorder a 0 j a.occupied, List.nodup_range.count]
  by_cases inside : j < a.size
  · rw [if_pos (a.root_mem_ancestors j inside), if_pos (List.mem_range.mpr inside)]
  · have outside : a.parent j = none := by
      cases known : a.parent j with
      | none => rfl
      | some p => exact absurd (a.later p j known).2 inside
    have absent : 0 ∉ a.ancestors j := by
      have occupied := a.occupied
      rw [ancestors_eq, outside, List.mem_singleton]
      omega
    rw [if_neg absent, if_neg fun member => inside (List.mem_range.mp member)]

end Arena

end Tree
