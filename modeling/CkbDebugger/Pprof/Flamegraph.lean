import Mathlib.Algebra.GroupWithZero.Nat
import CkbDebugger.Pprof.Profile

/-!
# Cycle conservation

Whatever jumps a program makes, the trie stays a tree, its nodes share out the
cycles of all steps, and the flame graph prints each node once.
-/
namespace Pprof

open Tree (Arena)
open CkbVm (Error)

/-! ### The tree -/

/-- The nodes that are reached from the root through the lists of children. -/
inductive Reachable (trie : Arena TrieNode) : Nat → Prop where
  | root : Reachable trie 0
  | child {p c : Nat} (reached : Reachable trie p) (listed : c ∈ trie.childs p) : Reachable trie c

theorem reachable_iff (trie : Arena TrieNode) (i : Nat) : Reachable trie i ↔ i < trie.size := by
  constructor
  · intro reached
    induction reached with
    | root => exact trie.occupied
    | child _ listed _ => exact (trie.later _ _ ((trie.listed _ _).mp listed)).2
  · intro inside
    -- the parent of a node is made before it
    induction i using Nat.strongRecOn with
    | ind i ih =>
      by_cases first : i = 0
      · rw [first]
        exact .root
      · obtain ⟨p, known⟩ := trie.rooted i (by omega) inside
        have before := (trie.later p i known).1
        exact .child (ih p before (by omega)) ((trie.listed p i).mpr known)

/-! ### The sum of the cycles -/

def cyclesOf (trie : Arena TrieNode) (i : Nat) : Nat := (trie.label i).cycles.toNat

def totalCycles (trie : Arena TrieNode) : Nat := ((List.range trie.size).map (cyclesOf trie)).sum

theorem sum_range_update (f g : Nat → Nat) (i n : Nat) (inside : i < n)
    (same : ∀ j, j ≠ i → g j = f j) :
    ((List.range n).map g).sum + f i = ((List.range n).map f).sum + g i := by
  induction n with
  | zero => omega
  | succ n ih =>
    simp only [List.range_succ, List.map_append, List.sum_append, List.map_cons, List.map_nil,
      List.sum_singleton]
    by_cases last : i = n
    · have before : (List.range n).map g = (List.range n).map f := by
        apply List.map_congr_left
        intro j member
        have small := List.mem_range.mp member
        exact same j (by omega)
      rw [before, last]
      omega
    · have rest := ih (by omega)
      have other := same n (Ne.symm last)
      omega

theorem cyclesOf_le_total (trie : Arena TrieNode) (i : Nat) (inside : i < trie.size) :
    cyclesOf trie i ≤ totalCycles trie := by
  -- compare with the sum in which the node counts nothing
  have split := sum_range_update (cyclesOf trie) (fun j => if j = i then 0 else cyclesOf trie j) i trie.size
    inside (fun j other => if_neg other)
  simp only [if_true, Nat.add_zero] at split
  unfold totalCycles
  omega

theorem totalCycles_charge (p : Profile) (cycles pc : UInt64)
    (small : totalCycles p.trie + cycles.toNat < 2 ^ 64) :
    totalCycles (p.charge cycles pc).trie = totalCycles p.trie + cycles.toNat := by
  have one := cyclesOf_le_total p.trie p.trieNode p.inside
  have here : cyclesOf (p.charge cycles pc).trie p.trieNode =
      cyclesOf p.trie p.trieNode + cycles.toNat := by
    simp only [cyclesOf, Profile.charge, Profile.modify, Arena.relabel, if_true, UInt64.toNat_add]
    unfold cyclesOf at one
    omega
  have other : ∀ j, j ≠ p.trieNode →
      cyclesOf (p.charge cycles pc).trie j = cyclesOf p.trie j := by
    intro j different
    simp only [cyclesOf, Profile.charge, Profile.modify, Arena.relabel, different, if_false]
  have split := sum_range_update _ _ p.trieNode p.trie.size p.inside other
  unfold totalCycles
  rw [here] at split
  have size : (p.charge cycles pc).trie.size = p.trie.size := rfl
  rw [size]
  omega

theorem totalCycles_call (p : Profile) (view : View) (addr link : UInt64) :
    totalCycles (p.call view addr link).trie = totalCycles p.trie := by
  have size : (p.call view addr link).trie.size = p.trie.size + 1 := rfl
  have fresh : cyclesOf (p.call view addr link).trie p.trie.size = 0 := by
    simp only [cyclesOf, Profile.call, Arena.push, if_true]
    rfl
  have old : (List.range p.trie.size).map (cyclesOf (p.call view addr link).trie) =
      (List.range p.trie.size).map (cyclesOf p.trie) := by
    apply List.map_congr_left
    intro j member
    have small := List.mem_range.mp member
    simp only [cyclesOf, Profile.call, Arena.push, if_neg (Nat.ne_of_lt small)]
  simp only [totalCycles, size, List.range_succ, List.map_append, List.sum_append, List.map_cons,
    List.map_nil, List.sum_singleton, fresh, old, Nat.add_zero]

theorem totalCycles_quitOrSkip {p left : Profile} {view : View} {addr : UInt64}
    (returned : p.quitOrSkip view addr = some left) : totalCycles left.trie = totalCycles p.trie := by
  rcases quitOrSkip_trie returned with equal | equal
  · rw [equal]
  · rw [equal]
    have same : ∀ j, cyclesOf (p.trie.relabel p.trieNode fun node =>
        { node with exitRegs := view.registers }) j = cyclesOf p.trie j := by
      intro j
      exact congrArg UInt64.toNat (Arena.relabel_keeps TrieNode.cycles (by intro _; rfl) _ _ j)
    simp only [totalCycles, funext same]
    rfl

/-- The cycles of the instruction that a step decodes. -/
def Profile.stepCycles (p : Profile) (view : View) : Nat :=
  match p.decodes view with
  | some inst => (view.instructionCycleFunc inst).toNat
  | none => 0

theorem totalCycles_step {p q : Profile} {view : View} (steps : p.Steps view q)
    (small : totalCycles p.trie + p.stepCycles view < 2 ^ 64) :
    totalCycles q.trie = totalCycles p.trie + p.stepCycles view := by
  unfold Profile.stepCycles at *
  cases steps with
  | failed nothing => simp only [nothing, Nat.add_zero]
  | stayed inst decoded noJump =>
    simp only [decoded] at small ⊢
    exact totalCycles_charge p _ _ small
  | called inst decoded addr jump symbol =>
    simp only [decoded] at small ⊢
    rw [totalCycles_call, totalCycles_charge p _ _ small]
  | quit inst decoded addr jump plain left returned =>
    simp only [decoded] at small ⊢
    rw [totalCycles_quitOrSkip returned, totalCycles_charge p _ _ small]

/-- A sequence of steps that all return, with the cycles of the decoded instructions. -/
def Profile.run (p : Profile) : List View → Option (Profile × Nat)
  | [] => some (p, 0)
  | view :: views =>
    match p.step view with
    | none => none
    | some (_, next) => (next.run views).map fun (last, total) => (last, p.stepCycles view + total)

theorem totalCycles_run {p q : Profile} {views : List View} {total : Nat}
    (returned : p.run views = some (q, total)) (small : totalCycles p.trie + total < 2 ^ 64) :
    totalCycles q.trie = totalCycles p.trie + total := by
  induction views generalizing p total with
  | nil =>
    cases returned
    rfl
  | cons view views ih =>
    unfold Profile.run at returned
    split at returned
    · cases returned
    next result next stepped =>
      obtain ⟨⟨last, rest⟩, ran, equal⟩ := Option.map_eq_some_iff.mp returned
      obtain ⟨rfl, rfl⟩ := Prod.mk.inj equal
      have first := totalCycles_step (step_steps stepped) (by omega)
      rw [ih ran (by omega), first]
      omega

/-! ### The printed lines -/

section Display

variable (getTag : UInt64 → Tags) (trie : Arena TrieNode)

def nodeName (i : Nat) : String := (getTag (trie.label i).addr).simple

/-- The names on the way from the root to a node, given from the node upwards. -/
def pathText : List Nat → String
  | [] => ""
  | [i] => nodeName getTag trie i
  | i :: above => pathText above ++ "; " ++ nodeName getTag trie i

/-- The line of a node: its path and its cycles. -/
def nodeLine (i : Nat) : String :=
  pathText getTag trie (trie.ancestors i) ++ " " ++ toString (trie.label i).cycles ++ "\n"

/-- What is printed before the name of a node. -/
def leadingText (i : Nat) : String :=
  match trie.parent i with
  | some p => pathText getTag trie (trie.ancestors p) ++ "; "
  | none => ""

theorem pathText_ancestors (i : Nat) : pathText getTag trie (trie.ancestors i) =
    leadingText getTag trie i ++ nodeName getTag trie i := by
  rw [Arena.ancestors_eq, leadingText]
  cases known : trie.parent i with
  | none => simp [pathText]
  | some p =>
    simp only
    rw [Arena.ancestors_eq trie p]
    rfl

theorem displayFlamegraphRec_eq (depth i : Nat) (inside : i < trie.size)
    (enough : trie.size ≤ depth + i) :
    displayFlamegraphRec getTag trie depth (leadingText getTag trie i) i =
      (trie.preorder i).map (nodeLine getTag trie) := by
  -- children have greater numbers, so a depth that reaches the last node is enough
  induction depth generalizing i with
  | zero => omega
  | succ depth ih =>
    have name := pathText_ancestors getTag trie i
    rw [Arena.preorder_eq trie i inside, List.map_cons, List.map_flatMap, displayFlamegraphRec]
    congr 1
    · rw [nodeLine, name]
      rfl
    · apply List.flatMap_congr
      intro c child
      have known := (trie.listed i c).mp child
      have bounds := trie.later i c known
      have leading : leadingText getTag trie c = leadingText getTag trie i ++
          (getTag (trie.label i).addr).simple ++ "; " := by
        rw [leadingText, known]
        simp only
        rw [name, nodeName]
      rw [← ih c bounds.2 (by omega), leading]

end Display

/-- The trie of a profile is a tree that shares out a number of cycles, and the
flame graph prints it node by node. -/
structure FlameTree (p : Profile) (total : Nat) : Prop where
  finite : (p.trie.preorder 0).Nodup ∧ ∀ i, i ∈ p.trie.preorder 0 ↔ Reachable p.trie i
  root : p.trie.parent 0 = none
  parents : ∀ i, Reachable p.trie i → ∀ c, c ∈ p.trie.childs i ↔ p.trie.parent c = some i
  rooted : ∀ c, Reachable p.trie c → c ≠ 0 → ∃ i, Reachable p.trie i ∧ c ∈ p.trie.childs i
  current : Reachable p.trie p.trieNode
  cycles : ((p.trie.preorder 0).map (cyclesOf p.trie)).sum = total
  printed : ∀ getTag, p.displayFlamegraph getTag = (p.trie.preorder 0).map (nodeLine getTag p.trie)

theorem flameTree_of_total (p : Profile) : FlameTree p (totalCycles p.trie) where
  finite := by
    refine ⟨p.trie.preorder_perm.nodup_iff.mpr List.nodup_range, ?_⟩
    intro i
    rw [p.trie.preorder_perm.mem_iff, List.mem_range, reachable_iff]
  root := p.trie.root
  parents := fun i _ c => p.trie.listed i c
  rooted := by
    intro c reached other
    obtain ⟨i, known⟩ := p.trie.rooted c (by omega) ((reachable_iff _ _).mp reached)
    have bounds := p.trie.later i c known
    exact ⟨i, (reachable_iff _ _).mpr (by omega), (p.trie.listed i c).mpr known⟩
  current := (reachable_iff _ _).mpr p.inside
  cycles := (p.trie.preorder_perm.map _).sum_eq
  printed := by
    intro getTag
    have top : leadingText getTag p.trie 0 = "" := by rw [leadingText, p.trie.root]
    rw [Profile.displayFlamegraph, ← top]
    exact displayFlamegraphRec_eq getTag p.trie p.trie.size 0 p.trie.occupied (by omega)

/-- After any steps of a new profile, the trie is a tree whose nodes share out the
cycles of the decoded instructions, and the flame graph prints each of its nodes
once. -/
theorem run_flameTree (entry : UInt64) (cacheFun : UInt64 → Bool) (sbrkAddr sbrkHeap : UInt64)
    (views : List View) (p : Profile) (total : Nat)
    (returned : (Profile.new entry cacheFun sbrkAddr sbrkHeap).run views = some (p, total))
    (small : total < 2 ^ 64) : FlameTree p total := by
  have fresh : totalCycles (Profile.new entry cacheFun sbrkAddr sbrkHeap).trie = 0 := rfl
  have sum := totalCycles_run returned (by omega)
  rw [fresh, Nat.zero_add] at sum
  rw [← sum]
  exact flameTree_of_total p

/-- A `JAL` from `0x100` to `0x200` that costs three cycles. -/
def jumpAndLink : View where
  pc := 0x100
  registers := fun _ => 0x1000
  decoded := .ok ⟨.jal, 4, 0x100, CkbVm.ZERO, 0⟩
  instructionCycleFunc := fun _ => 3

theorem jumpAndLink_flameTree : ∃ p,
    (Profile.new 0x100 (fun addr => addr == 0x200) 0 0).run [jumpAndLink] = some (p, 3) ∧
      p.trieNode = 1 ∧ FlameTree p 3 :=
  ⟨_, rfl, rfl, run_flameTree 0x100 (fun addr => addr == 0x200) 0 0 [jumpAndLink] _ 3 rfl (by decide)⟩

end Pprof
