import Mathlib.Data.Set.Basic
import CkbDebugger.Pprof.Profile

/-!
# The trie follows the call stack

A run of the profiler is read as a sequence of calls, tail calls, returns, local
jumps and other instructions. The stack of the calls that have not returned is
kept beside the profile; the profiler knows nothing of it and finds returns by
their addresses alone.
-/
namespace Pprof

open Tree (Arena)
open CkbVm (Instruction)

/-! ### Events -/

inductive Event where
  | call
  | tailCall
  | ret
  | localJump
  | other
  deriving Repr, DecidableEq

/-- The calls that have not returned, the innermost first: the link of each, and
the node that was current when it was made. -/
abbrev CallStack := List (UInt64 × Nat)

/-- What the next instruction has to be for an event. `key` is what tells a call
from a tail call: the calls are those whose key is in `calls`. -/
def Occurs (key : View → Instruction → UInt64) (calls : Set UInt64) (p : Profile) (stack : CallStack)
    (view : View) (inst : Instruction) : Event → Prop
  | .call => ∃ addr, view.jumpTarget inst = some addr ∧ p.cacheFun addr = true ∧
      p.cacheFun (view.link inst) = false ∧ key view inst ∈ calls
  | .tailCall => ∃ addr, view.jumpTarget inst = some addr ∧ p.cacheFun addr = true ∧
      key view inst ∉ calls
  | .ret => ∃ link node rest, stack = (link, node) :: rest ∧ view.jumpTarget inst = some link
  | .localJump => ∃ addr, view.jumpTarget inst = some addr ∧ p.cacheFun addr = false ∧ addr ≠ 0 ∧
      ∀ i ∈ p.trie.ancestors p.trieNode, (p.trie.label i).link ≠ addr
  | .other => view.jumpTarget inst = none

def CallStack.after (stack : CallStack) (p : Profile) (view : View) (inst : Instruction) :
    Event → CallStack
  | .call => (view.link inst, p.trieNode) :: stack
  | .ret => stack.tail
  | _ => stack

/-- The profiles and stacks of the well-nested runs from a new profile. -/
inductive WellNested (key : View → Instruction → UInt64) (calls : Set UInt64) (start : Profile) :
    Profile → CallStack → Prop where
  | start : WellNested key calls start start []
  | step {p q : Profile} {stack : CallStack} {view : View} {inst : Instruction} (event : Event)
      (reached : WellNested key calls start p stack) (decoded : p.decodes view = some inst)
      (occurs : Occurs key calls p stack view inst event)
      (stepped : p.step view = some (.ok (), q)) :
      WellNested key calls start q (stack.after p view inst event)

/-- What the profiler should do at an event. -/
def Follows (p q : Profile) (stack : CallStack) (view : View) (inst : Instruction) : Event → Prop
  | .call | .tailCall => q.trieNode = p.trie.size ∧ q.trie.parent q.trieNode = some p.trieNode ∧
      q.trie.childs p.trieNode = p.trie.childs p.trieNode ++ [q.trieNode] ∧
      view.jumpTarget inst = some q.node.addr
  | .ret => ∃ link node rest, stack = (link, node) :: rest ∧ q.trieNode = node
  | .localJump | .other => q.trieNode = p.trieNode

/-- The cycles of a step go to the node that was current. -/
def ChargesCurrent (p q : Profile) (cycles : UInt64) : Prop :=
  ∀ i < p.trie.size, (q.trie.label i).cycles =
    if i = p.trieNode then (p.trie.label i).cycles + cycles else (p.trie.label i).cycles

/-! ### The stack on the way to the root -/

/-- From a node to the root, the links are those of the open calls, with links of
tail calls between them. -/
inductive Chain (links : Set UInt64) (cacheFun : UInt64 → Bool) (trie : Arena TrieNode) :
    Nat → CallStack → Prop where
  | bottom (i : Nat) : Chain links cacheFun trie i []
  | tail {i above : Nat} {stack : CallStack} (known : trie.parent i = some above)
      (foreign : (trie.label i).link ∉ links) (rest : Chain links cacheFun trie above stack) :
      Chain links cacheFun trie i stack
  | call {i above : Nat} {link : UInt64} {stack : CallStack} (known : trie.parent i = some above)
      (linked : (trie.label i).link = link) (own : link ∈ links) (plain : cacheFun link = false)
      (rest : Chain links cacheFun trie above stack) :
      Chain links cacheFun trie i ((link, above) :: stack)

variable {links : Set UInt64} {cacheFun : UInt64 → Bool}

theorem Chain.congr {trie trie' : Arena TrieNode} {i : Nat} {stack : CallStack}
    (chain : Chain links cacheFun trie i stack)
    (same : ∀ j ≤ i, trie'.parent j = trie.parent j ∧ (trie'.label j).link = (trie.label j).link) :
    Chain links cacheFun trie' i stack := by
  -- parents have smaller numbers, so the way up stays among the nodes that are the same
  induction chain with
  | bottom i => exact .bottom i
  | @tail i above stack known foreign rest ih =>
    have before := (trie.later above i known).1
    have here := same i (Nat.le_refl i)
    exact .tail (here.1.trans known) (here.2 ▸ foreign) (ih fun j below => same j (by omega))
  | @call i above link stack known linked own plain rest ih =>
    have before := (trie.later above i known).1
    have here := same i (Nat.le_refl i)
    exact .call (here.1.trans known) (here.2.trans linked) own plain
      (ih fun j below => same j (by omega))

/-- The search for the link of the innermost open call ends at the call's node. -/
theorem Chain.find_link {trie : Arena TrieNode} {i node : Nat} {link : UInt64} {stack : CallStack}
    (chain : Chain links cacheFun trie i ((link, node) :: stack)) :
    link ∈ links ∧ cacheFun link = false ∧ Chain links cacheFun trie node stack ∧
    ∃ f, (trie.ancestors i).find? (fun f => (trie.label f).link == link) = some f ∧
      trie.parent f = some node := by
  obtain ⟨calls, equal⟩ : ∃ calls, calls = (link, node) :: stack := ⟨_, rfl⟩
  rw [← equal] at chain
  induction chain with
  | bottom i => cases equal
  | @tail i above stack' known foreign rest ih =>
    obtain ⟨own, plain, below, f, found, parent⟩ := ih equal
    refine ⟨own, plain, below, f, ?_, parent⟩
    -- the link of a tail call is no call's link
    have other : ((trie.label i).link == link) = false := by
      rw [beq_eq_false_iff_ne]
      rintro rfl
      exact foreign own
    rw [Arena.ancestors_eq, known, List.find?_cons, other]
    exact found
  | @call i above link' stack' known linked own plain rest ih =>
    cases equal
    refine ⟨own, plain, rest, i, ?_, known⟩
    rw [Arena.ancestors_eq, List.find?_cons, linked, beq_self_eq_true]

/-! ### One event -/

theorem charge_chargesCurrent (p : Profile) (cycles pc : UInt64) :
    ChargesCurrent p (p.charge cycles pc) cycles := by
  intro i _
  simp only [Profile.charge, Profile.modify, Arena.relabel]
  split
  next here => rw [here]
  · rfl

section Event

variable {p : Profile} {stack : CallStack} {view : View} {inst : Instruction}

/-- A jump to a function symbol opens a child of the current node. -/
theorem call_follows (p : Profile) (view : View) (cycles addr link : UInt64) :
    let q := (p.charge cycles view.pc).call view addr link
    (q.trieNode = p.trie.size ∧ q.trie.parent q.trieNode = some p.trieNode ∧
      q.trie.childs p.trieNode = p.trie.childs p.trieNode ++ [q.trieNode] ∧ q.node.addr = addr) ∧
    ChargesCurrent p q cycles ∧ (q.trie.label q.trieNode).link = link ∧
    ∀ j < p.trie.size, q.trie.parent j = p.trie.parent j ∧
      (q.trie.label j).link = (p.trie.label j).link := by
  intro q
  have size : (p.charge cycles view.pc).trie.size = p.trie.size := rfl
  refine ⟨⟨rfl, if_pos rfl, if_pos rfl, ?_⟩, ?_, ?_, ?_⟩
  · exact congrArg TrieNode.addr (if_pos rfl)
  · intro i inside
    have old : q.trie.label i = (p.charge cycles view.pc).trie.label i := if_neg (by omega)
    rw [old]
    exact charge_chargesCurrent p cycles view.pc i inside
  · exact congrArg TrieNode.link (if_pos rfl)
  · intro j inside
    have old : q.trie.label j = (p.charge cycles view.pc).trie.label j := if_neg (by omega)
    refine ⟨if_neg (by omega), ?_⟩
    rw [old, charge_link]

/-- A step that jumps to a function symbol, by a call or by a tail call: what is open stays
open above the new node. -/
theorem symbol_jump_follows {addr : UInt64} (chain : Chain links p.cacheFun p.trie p.trieNode stack)
    (decoded : p.decodes view = some inst) (jump : view.jumpTarget inst = some addr)
    (symbol : p.cacheFun addr = true) :
    ∃ q, p.step view = some (.ok (), q) ∧ Follows p q stack view inst .call ∧
      ChargesCurrent p q (view.instructionCycleFunc inst) ∧ q.cacheFun = p.cacheFun ∧
      (q.trie.label q.trieNode).link = view.link inst ∧ Chain links p.cacheFun q.trie p.trieNode stack := by
  have stepped := step_of_decodes decoded
  rw [jump] at stepped
  simp only [symbol, if_true] at stepped
  obtain ⟨⟨fresh, parent, child, target⟩, charges, link, same⟩ := call_follows p view
    (view.instructionCycleFunc inst) addr (view.link inst)
  refine ⟨_, stepped, ⟨fresh, parent, child, by rw [jump, target]⟩, charges, rfl, link, ?_⟩
  exact chain.congr fun j below => same j (lt_of_le_of_lt below p.inside)

/-- A step from a profile whose trie follows the calls does what its event asks for. -/
theorem event_follows {event : Event} (chain : Chain links p.cacheFun p.trie p.trieNode stack)
    (decoded : p.decodes view = some inst)
    (occurs : Occurs View.link links p stack view inst event) :
    ∃ q, p.step view = some (.ok (), q) ∧ Follows p q stack view inst event ∧
      ChargesCurrent p q (view.instructionCycleFunc inst) ∧
      Chain links q.cacheFun q.trie q.trieNode (stack.after p view inst event) := by
  have stepped := step_of_decodes decoded
  cases event with
  | call =>
    obtain ⟨addr, jump, symbol, plain, own⟩ := occurs
    obtain ⟨q, made, follows, charges, functions, link, rest⟩ := symbol_jump_follows chain decoded jump symbol
    refine ⟨q, made, follows, charges, ?_⟩
    rw [functions]
    exact .call follows.2.1 link own plain rest
  | tailCall =>
    obtain ⟨addr, jump, symbol, foreign⟩ := occurs
    obtain ⟨q, made, follows, charges, functions, link, rest⟩ := symbol_jump_follows chain decoded jump symbol
    refine ⟨q, made, follows, charges, ?_⟩
    rw [functions]
    exact .tail follows.2.1 (by rw [link]; exact foreign) rest
  | ret =>
    -- the profiler finds the innermost open call by its link, and goes to its parent
    obtain ⟨link, node, rest, rfl, jump⟩ := occurs
    obtain ⟨_, plain, below, f, found, parent⟩ := chain.find_link
    rw [jump] at stepped
    simp only [plain, Bool.false_eq_true, if_false] at stepped
    rw [← find_charged p (view.instructionCycleFunc inst) view.pc] at found
    obtain ⟨left, quit, here, same, trie⟩ := quitOrSkip_of_find found parent
    rw [quit] at stepped
    refine ⟨left, stepped, ⟨link, node, rest, rfl, here⟩, ?_, ?_⟩
    · intro i inside
      rw [← charge_chargesCurrent p (view.instructionCycleFunc inst) view.pc i inside, trie]
      exact Arena.relabel_keeps TrieNode.cycles (by intro _; rfl) _ _ i
    · rw [CallStack.after, List.tail_cons, here, same, trie]
      refine below.congr fun j _ => ⟨rfl, ?_⟩
      rw [← charge_link p (view.instructionCycleFunc inst) view.pc j]
      exact Arena.relabel_keeps TrieNode.link (by intro _; rfl) _ _ j
  | localJump =>
    obtain ⟨addr, jump, plain, _, elsewhere⟩ := occurs
    have missing : (p.trie.ancestors p.trieNode).find? (fun f => (p.trie.label f).link == addr) = none := by
      rw [List.find?_eq_none]
      intro i member
      simpa using elsewhere i member
    rw [← find_charged p (view.instructionCycleFunc inst) view.pc] at missing
    rw [jump] at stepped
    simp only [plain, Bool.false_eq_true, if_false, quitOrSkip_of_none missing] at stepped
    exact ⟨_, stepped, rfl, charge_chargesCurrent p _ _,
      chain.congr fun j _ => ⟨rfl, charge_link p _ _ j⟩⟩
  | other =>
    rw [show view.jumpTarget inst = none from occurs] at stepped
    exact ⟨_, stepped, rfl, charge_chargesCurrent p _ _,
      chain.congr fun j _ => ⟨rfl, charge_link p _ _ j⟩⟩

end Event

/-! ### Whole runs -/

theorem wellNested_chain {start p : Profile} {stack : CallStack}
    (reached : WellNested View.link links start p stack) :
    Chain links p.cacheFun p.trie p.trieNode stack := by
  induction reached with
  | start => exact .bottom _
  | step event _ decoded occurs stepped ih =>
    obtain ⟨q, made, _, _, chain⟩ := event_follows ih decoded occurs
    obtain ⟨_, rfl⟩ := Prod.mk.inj (Option.some.inj (made.symm.trans stepped))
    exact chain

/-- In every run in which no tail call comes from in front of the link of a call, the
profiler does at every event what it should: a return goes to the node that was
current at the matching call, a call or tail call opens a child of the current
node, and every instruction is charged to the node that was current. -/
theorem trie_follows_calls (calls : Set UInt64) (start p : Profile) (stack : CallStack) (view : View)
    (inst : Instruction) (event : Event) (reached : WellNested View.link calls start p stack)
    (decoded : p.decodes view = some inst)
    (occurs : Occurs View.link calls p stack view inst event) :
    ∃ q, p.step view = some (.ok (), q) ∧ Follows p q stack view inst event ∧
      ChargesCurrent p q (view.instructionCycleFunc inst) := by
  obtain ⟨q, stepped, follows, charges, _⟩ := event_follows (wellNested_chain reached) decoded occurs
  exact ⟨q, stepped, follows, charges⟩

/-! ### Runs with a tail call next to a call -/

/-- A JAL of the given length, at one cycle for an instruction. -/
def jalFrom (pc length offset rd : UInt64) : View where
  pc := pc
  registers := fun _ => 0x10000
  decoded := .ok ⟨.jal, length, offset, CkbVm.ZERO, rd * 256⟩
  instructionCycleFunc := fun _ => 1

/-- A return, a JALR through `ra`. -/
def retFrom (pc ra : UInt64) : View where
  pc := pc
  registers := fun r => if r = CkbVm.RA then ra else 0x10000
  decoded := .ok ⟨.jalr, 4, 0, CkbVm.RA, 0⟩
  instructionCycleFunc := fun _ => 1

/-- A program with functions at `0x10aae` and `0x40200`. -/
def twoFunctions : Profile := .new 0x40000 (fun addr => addr == 0x10aae || addr == 0x40200) 0 0

/-- The call of the first function, at `0x40000`. The upper half of its word `0xaafd00ef` is the
C.J by `0x1fe`. -/
def firstCall : View := jalFrom 0x40000 4 (-0x2f552) 1

theorem trie_follows_call_and_return : ∃ p q,
    twoFunctions.step firstCall = some (.ok (), p) ∧
    p.step (retFrom 0x10aae 0x40004) = some (.ok (), q) ∧ p.trieNode = 1 ∧ q.trieNode = 0 := by
  have called : ∃ p, twoFunctions.step firstCall = some (.ok (), p) ∧ p.trieNode = 1 ∧
      p.decodes (retFrom 0x10aae 0x40004) = some ⟨.jalr, 4, 0, CkbVm.RA, 0⟩ := ⟨_, rfl, rfl, rfl⟩
  obtain ⟨p, stepped, here, decoded⟩ := called
  have occurs : Occurs View.link {0x40004} twoFunctions [] firstCall
      ⟨.jal, 4, -0x2f552, CkbVm.ZERO, 1 * 256⟩ .call := ⟨0x10aae, rfl, rfl, rfl, rfl⟩
  have reached : WellNested View.link {0x40004} twoFunctions p [(0x40004, 0)] :=
    .step .call .start rfl occurs stepped
  obtain ⟨q, returned, follows, _⟩ := trie_follows_calls {0x40004} twoFunctions p [(0x40004, 0)]
    (retFrom 0x10aae 0x40004) ⟨.jalr, 4, 0, CkbVm.RA, 0⟩ .ret reached decoded ⟨0x40004, 0, [], rfl, rfl⟩
  obtain ⟨_, _, _, same, back⟩ := follows
  cases same
  exact ⟨p, q, stepped, returned, here, back⟩

/-- The called function jumps into the middle of the call, to the C.J at `0x40002`: a tail call of
the second function with the same link as the call. The return from the call then goes to the
called function's node instead of the caller's. -/
theorem overlapping_tail_call_misses_return : ∃ p q,
    WellNested (fun view _ => view.pc) {0x40000} twoFunctions p [(0x40004, 0)] ∧
    Occurs (fun view _ => view.pc) {0x40000} p [(0x40004, 0)] (retFrom 0x40200 0x40004)
      ⟨.jalr, 4, 0, CkbVm.RA, 0⟩ .ret ∧
    p.decodes (retFrom 0x40200 0x40004) = some ⟨.jalr, 4, 0, CkbVm.RA, 0⟩ ∧
    p.step (retFrom 0x40200 0x40004) = some (.ok (), q) ∧
    ¬Follows p q [(0x40004, 0)] (retFrom 0x40200 0x40004) ⟨.jalr, 4, 0, CkbVm.RA, 0⟩ .ret := by
  have first : Occurs (fun view _ => view.pc) {0x40000} twoFunctions [] firstCall
      ⟨.jal, 4, -0x2f552, CkbVm.ZERO, 1 * 256⟩ .call := ⟨0x10aae, rfl, rfl, rfl, rfl⟩
  have elsewhere : (jalFrom 0x40002 2 0x1fe 0).pc ∉ ({0x40000} : Set UInt64) := fun same =>
    absurd (show (0x40002 : UInt64) = 0x40000 from same) (by decide)
  obtain ⟨p, called, local', inside, q, jumped, second, decoded, r, tailCalled, third, s, returned, here⟩ : ∃ p,
      twoFunctions.step firstCall = some (.ok (), p) ∧
      Occurs (fun view _ => view.pc) {0x40000} p [(0x40004, 0)] (jalFrom 0x10aae 4 0x2f554 0)
        ⟨.jal, 4, 0x2f554, CkbVm.ZERO, 0 * 256⟩ .localJump ∧
      p.decodes (jalFrom 0x10aae 4 0x2f554 0) = some ⟨.jal, 4, 0x2f554, CkbVm.ZERO, 0 * 256⟩ ∧ ∃ q,
      p.step (jalFrom 0x10aae 4 0x2f554 0) = some (.ok (), q) ∧
      Occurs (fun view _ => view.pc) {0x40000} q [(0x40004, 0)] (jalFrom 0x40002 2 0x1fe 0)
        ⟨.jal, 2, 0x1fe, CkbVm.ZERO, 0 * 256⟩ .tailCall ∧
      q.decodes (jalFrom 0x40002 2 0x1fe 0) = some ⟨.jal, 2, 0x1fe, CkbVm.ZERO, 0 * 256⟩ ∧ ∃ r,
      q.step (jalFrom 0x40002 2 0x1fe 0) = some (.ok (), r) ∧
      r.decodes (retFrom 0x40200 0x40004) = some ⟨.jalr, 4, 0, CkbVm.RA, 0⟩ ∧ ∃ s,
      r.step (retFrom 0x40200 0x40004) = some (.ok (), s) ∧ s.trieNode = 1 :=
    ⟨_, rfl, ⟨0x40002, rfl, rfl, by decide, by decide⟩, rfl, _, rfl, ⟨0x40200, rfl, rfl, elsewhere⟩, rfl, _, rfl, rfl,
      _, rfl, rfl⟩
  -- the run: a call, a jump into the middle of it, and from there the tail call
  have nested : WellNested (fun view _ => view.pc) {0x40000} twoFunctions p [(0x40004, 0)] :=
    .step .call .start rfl first called
  have nested : WellNested (fun view _ => view.pc) {0x40000} twoFunctions q [(0x40004, 0)] :=
    .step .localJump nested inside local' jumped
  refine ⟨r, s, .step .tailCall nested decoded second tailCalled, ⟨0x40004, 0, [], rfl, rfl⟩, third, returned, ?_⟩
  rintro ⟨_, _, _, same, back⟩
  cases same
  rw [here] at back
  cases back

/-! ### Plain jumps -/

/-- The profiles that steps make of a new one. -/
inductive Profile.Reachable : Profile → Prop where
  | new (entry : UInt64) (cacheFun : UInt64 → Bool) (sbrkAddr sbrkHeap : UInt64) :
      Reachable (.new entry cacheFun sbrkAddr sbrkHeap)
  | step {p q : Profile} {view : View} {result : Except CkbVm.Error Unit} (reached : Reachable p)
      (stepped : p.step view = some (result, q)) : Reachable q

/-- A JAL or JALR that the profile is about to look at and that stays inside its function: it
keeps no link, goes to no function symbol, and is not the return through `ra`. `rd` is the
destination register, at which the profiler does not look. -/
structure PlainJump (rd : Instruction → Fin 32) (p : Profile) (view : View) (inst : Instruction)
    (addr : UInt64) : Prop where
  executed : p.decodes view = some inst
  opcode : inst.opcode = .jal ∨ inst.opcode = .jalr
  noLink : rd inst = CkbVm.ZERO
  target : view.jumpTarget inst = some addr
  inside : p.cacheFun addr = false
  noReturn : ¬(inst.opcode = .jalr ∧ inst.rs1 = CkbVm.RA)

/-- The step returns and the current node stays. -/
def Profile.KeepsNode (p : Profile) (view : View) : Prop :=
  ∃ result q, p.step view = some (result, q) ∧ q.trieNode = p.trieNode

/-- A plain jump keeps the current node exactly if it does not go to the link of an open
activation. -/
theorem plain_jump_keeps_node_iff (rd : Instruction → Fin 32) (p : Profile) (view : View)
    (inst : Instruction) (addr : UInt64) (jump : PlainJump rd p view inst addr) :
    p.KeepsNode view ↔ ∀ i ∈ p.trie.ancestors p.trieNode, (p.trie.label i).link ≠ addr := by
  have plain : p.cacheFun addr ≠ true := by simp [jump.inside]
  have stepped := step_of_decodes jump.executed
  rw [jump.target] at stepped
  simp only [if_neg plain] at stepped
  unfold Profile.KeepsNode
  rw [stepped]
  constructor
  · rintro ⟨result, q, returned, same⟩ i member linked
    obtain ⟨left, quit, equal⟩ := Option.map_eq_some_iff.mp returned
    cases equal
    -- the first link that is found belongs to an open activation, and its parent is another node
    obtain ⟨f, found⟩ : ∃ f, (p.trie.ancestors p.trieNode).find?
        (fun f => (p.trie.label f).link == addr) = some f :=
      Option.isSome_iff_exists.mp (List.find?_isSome.mpr ⟨i, member, by simpa using linked⟩)
    have above := p.trie.ancestors_le p.trieNode f (List.mem_of_find?_eq_some found)
    rw [← find_charged p (view.instructionCycleFunc inst) view.pc] at found
    cases known : p.trie.parent f with
    | some parent =>
      obtain ⟨left', quit', moved, -, -⟩ := quitOrSkip_of_find found known
      rw [quit] at quit'
      obtain rfl := Option.some.inj quit'
      have before := (p.trie.later parent f known).1
      omega
    -- the root's link: the profiler does not return from it
    | none =>
      unfold Profile.quitOrSkip at quit
      rw [found] at quit
      simp only at quit
      split at quit
      next q' known' =>
        have same : p.trie.parent f = some q' := known'
        rw [known] at same
        cases same
      next => cases quit
  · intro foreign
    have missing : (p.trie.ancestors p.trieNode).find? (fun f => (p.trie.label f).link == addr) = none :=
      List.find?_eq_none.mpr fun i member => by simpa using foreign i member
    rw [← find_charged p (view.instructionCycleFunc inst) view.pc] at missing
    rw [quitOrSkip_of_none missing]
    exact ⟨_, _, rfl, rfl⟩

/-- The destination register, from the bits above the opcode. -/
def rdField (inst : Instruction) : Fin 32 := ⟨inst.word.toNat / 256 % 32, Nat.mod_lt _ (by decide)⟩

/-- A function at `0x200` that the program starts with. -/
def oneFunction : Profile := .new 0x200 (fun addr => addr == 0x200) 0 0

/-- After the function has called itself from `0x210`, a jump from `0x208` to `0x218`, past the
instruction after the call, keeps the node of the second activation. -/
theorem forward_jump_keeps_node : ∃ p, oneFunction.step (jalFrom 0x210 4 (-16) 1) = some (.ok (), p) ∧
    p.trieNode = 1 ∧ p.KeepsNode (jalFrom 0x208 4 16 0) := by
  obtain ⟨p, called, here, jump, apart⟩ : ∃ p, oneFunction.step (jalFrom 0x210 4 (-16) 1) = some (.ok (), p) ∧
      p.trieNode = 1 ∧
      PlainJump rdField p (jalFrom 0x208 4 16 0) ⟨.jal, 4, 16, CkbVm.ZERO, 0⟩ 0x218 ∧
      ∀ i ∈ p.trie.ancestors p.trieNode, (p.trie.label i).link ≠ 0x218 :=
    ⟨_, rfl, rfl, ⟨rfl, .inl rfl, rfl, rfl, rfl, by simp⟩, by decide⟩
  exact ⟨p, called, here, (plain_jump_keeps_node_iff rdField p (jalFrom 0x208 4 16 0) _ 0x218 jump).mpr apart⟩

/-- A jump from `0x208` to the instruction after the call itself, by the second activation, is taken
for the return from it. -/
theorem recursive_jump_taken_for_return : ∃ p, p.Reachable ∧
    PlainJump rdField p (jalFrom 0x208 4 12 0) ⟨.jal, 4, 12, CkbVm.ZERO, 0⟩ 0x214 ∧
    ¬p.KeepsNode (jalFrom 0x208 4 12 0) := by
  obtain ⟨p, called, here, jump, q, stepped, back⟩ : ∃ p,
      oneFunction.step (jalFrom 0x210 4 (-16) 1) = some (.ok (), p) ∧ p.trieNode = 1 ∧
      PlainJump rdField p (jalFrom 0x208 4 12 0) ⟨.jal, 4, 12, CkbVm.ZERO, 0⟩ 0x214 ∧ ∃ q,
      p.step (jalFrom 0x208 4 12 0) = some (.ok (), q) ∧ q.trieNode = 0 :=
    ⟨_, rfl, rfl, ⟨rfl, .inl rfl, rfl, rfl, rfl, by simp⟩, _, rfl, rfl⟩
  refine ⟨p, .step (.new _ _ _ _) called, jump, ?_⟩
  rintro ⟨result, q', stepped', same⟩
  rw [stepped] at stepped'
  cases stepped'
  rw [back, here] at same
  cases same

end Pprof
