import CkbDebugger.CkbVm.Machine
import CkbDebugger.Tree.Arena

/-!
# The profiler

`Profile::step` looks at the instruction that the machine is about to execute. It
charges the instruction's cycles to the current node of a trie of activations,
opens a child node for a jump to a function symbol, and takes a jump to the link
address of an open node for the return from it.
-/
namespace Pprof

open Tree (Arena)
open CkbVm (Error Instruction SP A0)

/-! ### What the profiler sees of the machine -/

/-- The machine before a step: `decoded` is what the decoder returns at `pc`. -/
structure View where
  pc : UInt64
  registers : Fin 32 → UInt64
  decoded : Except Error Instruction
  instructionCycleFunc : Instruction → UInt64

/-- The address that a jump goes to, with the lowest bit cleared. -/
def View.jumpTarget (view : View) (inst : Instruction) : Option UInt64 :=
  match inst.opcode with
  | .jal => some ((view.pc + inst.immediate) &&& 0xfffffffffffffffe)
  | .jalr => some ((view.registers inst.rs1 + inst.immediate) &&& 0xfffffffffffffffe)
  | .farJumpAbs => some (inst.immediate &&& 0xfffffffffffffffe)
  | .farJumpRel => some ((view.pc + inst.immediate) &&& 0xfffffffffffffffe)
  | _ => none

/-- The address of the instruction after the current one. -/
def View.link (view : View) (inst : Instruction) : UInt64 := view.pc + inst.length

/-! ### The profile -/

/-- The data of a node; `entryRegs` and `exitRegs` are `regs[0]` and `regs[1]`. -/
structure TrieNode where
  addr : UInt64
  link : UInt64
  pc : UInt64
  cycles : UInt64
  entryRegs : Fin 32 → UInt64
  exitRegs : Fin 32 → UInt64

/-- `TrieNode::root`, with the address that `Profile::new` gives it. -/
def TrieNode.root (entry : UInt64) : TrieNode := ⟨entry, 0, 0, 0, fun _ => 0, fun _ => 0⟩

/-- The trie with its current node. `cacheFun` tells the function symbols. -/
structure Profile where
  trie : Arena TrieNode
  trieNode : Nat
  inside : trieNode < trie.size
  cacheFun : UInt64 → Bool
  sbrkAddr : UInt64
  sbrkHeap : UInt64

/-- `Profile::new`, from what it reads out of the program. -/
def Profile.new (entry : UInt64) (cacheFun : UInt64 → Bool) (sbrkAddr sbrkHeap : UInt64) : Profile where
  trie := .single (.root entry)
  trieNode := 0
  inside := Nat.one_pos
  cacheFun := cacheFun
  sbrkAddr := sbrkAddr
  sbrkHeap := sbrkHeap

def Profile.node (p : Profile) : TrieNode := p.trie.label p.trieNode

/-- Change the data of the current node. -/
def Profile.modify (p : Profile) (f : TrieNode → TrieNode) : Profile :=
  { p with trie := p.trie.relabel p.trieNode f, inside := p.inside }

def Profile.charge (p : Profile) (cycles pc : UInt64) : Profile :=
  p.modify fun node => { node with cycles := node.cycles + cycles, pc := pc }

/-- The closure `call`. -/
def Profile.call (p : Profile) (view : View) (addr link : UInt64) : Profile :=
  { p with
    trie := p.trie.push p.trieNode ⟨addr, link, view.pc, 0, view.registers, fun _ => 0⟩ p.inside
    trieNode := p.trie.size
    inside := Nat.lt_succ_self _ }

/-- The closure `sbrk_or_skip`: the program break, which a return from `_sbrk` sets. -/
def Profile.sbrkOrSkip (p : Profile) : UInt64 :=
  if p.node.addr = p.sbrkAddr then p.node.entryRegs A0 + p.node.exitRegs A0 else p.sbrkHeap

/-- The closure `quit_or_skip`: look for a node with the link on the way to the
root, and go to its parent. The root has no parent: `unimplemented!()`. -/
def Profile.quitOrSkip (p : Profile) (view : View) (addr : UInt64) : Option Profile :=
  match (p.trie.ancestors p.trieNode).find? fun f => (p.trie.label f).link == addr with
  -- a jump inside the function
  | none => some p
  | some f =>
    let left := p.modify fun node => { node with exitRegs := view.registers }
    match known : p.trie.parent f with
    | some q =>
      some { left with
        trieNode := q
        inside := Nat.lt_trans (p.trie.later q f known).1 (p.trie.later q f known).2
        sbrkHeap := left.sbrkOrSkip }
    | none => none

/-- `Profile::step`: the result with the new profile, or `none` for a panic. -/
def Profile.step (p : Profile) (view : View) : Option (Except Error Unit × Profile) :=
  if view.registers SP < p.sbrkHeap then
    some (.error (.external s!"Heap and stack overlapping sp={view.registers SP} heap={p.sbrkHeap}"), p)
  else
    match view.decoded with
    | .error e => some (.error e, p)
    | .ok inst =>
      -- the jump itself is still charged to the node that it leaves
      let charged := p.charge (view.instructionCycleFunc inst) view.pc
      match view.jumpTarget inst with
      | none => some (.ok (), charged)
      | some addr =>
        if charged.cacheFun addr then some (.ok (), charged.call view addr (view.link inst))
        else (charged.quitOrSkip view addr).map fun left => (.ok (), left)

/-! ### What a step does -/

/-- The error of a step that finds the stack pointer below the program break. -/
def HeapStackOverlap (e : Error) : Prop :=
  ∃ sp heap : UInt64, e = .external s!"Heap and stack overlapping sp={sp} heap={heap}"

/-- The instruction that a step decodes: none when the stack has met the heap. -/
def Profile.decodes (p : Profile) (view : View) : Option Instruction :=
  if view.registers SP < p.sbrkHeap then none else view.decoded.toOption

/-- A step that returns either leaves the profile alone, or charges the decoded
instruction and then stays, opens a child, or goes to another node. -/
inductive Profile.Steps (p : Profile) (view : View) : Profile → Prop where
  | failed (nothing : p.decodes view = none) : Steps p view p
  | stayed (inst : Instruction) (decoded : p.decodes view = some inst)
      (noJump : view.jumpTarget inst = none) :
      Steps p view (p.charge (view.instructionCycleFunc inst) view.pc)
  | called (inst : Instruction) (decoded : p.decodes view = some inst) (addr : UInt64)
      (jump : view.jumpTarget inst = some addr) (symbol : p.cacheFun addr = true) :
      Steps p view
        ((p.charge (view.instructionCycleFunc inst) view.pc).call view addr (view.link inst))
  | quit (inst : Instruction) (decoded : p.decodes view = some inst) (addr : UInt64)
      (jump : view.jumpTarget inst = some addr) (plain : p.cacheFun addr = false) (left : Profile)
      (returned : (p.charge (view.instructionCycleFunc inst) view.pc).quitOrSkip view addr = some left) :
      Steps p view left

theorem step_steps {p q : Profile} {view : View} {result : Except Error Unit}
    (returned : p.step view = some (result, q)) : p.Steps view q := by
  unfold Profile.step at returned
  split at returned
  next overlapping =>
    cases returned
    exact .failed (if_pos overlapping)
  next apart =>
    have decodes : p.decodes view = view.decoded.toOption := if_neg apart
    split at returned
    next e failed =>
      cases returned
      exact .failed (by rw [decodes, failed]; rfl)
    next inst decoded =>
      have found : p.decodes view = some inst := by rw [decodes, decoded]; rfl
      split at returned
      next noJump =>
        cases returned
        exact .stayed inst found noJump
      next addr jump =>
        simp only at returned
        split at returned
        next symbol =>
          cases returned
          exact .called inst found addr jump symbol
        next plain =>
          obtain ⟨left, quit, equal⟩ := Option.map_eq_some_iff.mp returned
          cases equal
          exact .quit inst found addr jump (Bool.eq_false_iff.mpr plain) _ quit

/-- A jump that is not a call changes no node's cycles and no edge of the trie. -/
theorem quitOrSkip_trie {p left : Profile} {view : View} {addr : UInt64}
    (returned : p.quitOrSkip view addr = some left) :
    left.trie = p.trie ∨
      left.trie = p.trie.relabel p.trieNode fun node => { node with exitRegs := view.registers } := by
  unfold Profile.quitOrSkip at returned
  split at returned
  · cases returned
    exact .inl rfl
  · simp only at returned
    split at returned
    · cases returned
      exact .inr rfl
    · cases returned

theorem decodes_eq_some_iff {p : Profile} {view : View} {inst : Instruction} :
    p.decodes view = some inst ↔ ¬view.registers SP < p.sbrkHeap ∧ view.decoded = .ok inst := by
  unfold Profile.decodes
  cases view.decoded <;> simp [Except.toOption]

/-- A step that decodes nothing reports the overlapping or the error of the decoder. -/
theorem step_of_decodes_none {p : Profile} {view : View} (nothing : p.decodes view = none) :
    ∃ e, p.step view = some (.error e, p) ∧ (HeapStackOverlap e ∨ view.decoded = .error e) := by
  by_cases overlap : view.registers SP < p.sbrkHeap
  · exact ⟨_, if_pos overlap, .inl ⟨_, _, rfl⟩⟩
  · cases result : view.decoded with
    | error e => exact ⟨e, by rw [Profile.step, if_neg overlap, result], .inr rfl⟩
    | ok inst =>
      rw [decodes_eq_some_iff.mpr ⟨overlap, result⟩] at nothing
      cases nothing

theorem step_of_decodes {p : Profile} {view : View} {inst : Instruction}
    (decoded : p.decodes view = some inst) :
    p.step view =
      match view.jumpTarget inst with
      | none => some (.ok (), p.charge (view.instructionCycleFunc inst) view.pc)
      | some addr =>
        if p.cacheFun addr then
          some (.ok (), (p.charge (view.instructionCycleFunc inst) view.pc).call view addr (view.link inst))
        else ((p.charge (view.instructionCycleFunc inst) view.pc).quitOrSkip view addr).map
          fun left => (.ok (), left) := by
  obtain ⟨apart, ok⟩ := decodes_eq_some_iff.mp decoded
  rw [Profile.step, if_neg apart, ok]
  rfl

/-- The only errors of a step are the overlapping and those of the decoder. -/
theorem step_error {p q : Profile} {view : View} {e : Error}
    (failed : p.step view = some (.error e, q)) : HeapStackOverlap e ∨ view.decoded = .error e := by
  cases decoded : p.decodes view with
  | none =>
    obtain ⟨e', stepped, kind⟩ := step_of_decodes_none decoded
    rw [stepped] at failed
    cases failed
    exact kind
  | some inst =>
    rw [step_of_decodes decoded] at failed
    split at failed
    · cases failed
    · split at failed
      · cases failed
      · obtain ⟨left, _, equal⟩ := Option.map_eq_some_iff.mp failed
        cases equal

/-- Charging leaves the links and the shape of the trie alone. -/
theorem charge_link (p : Profile) (cycles pc : UInt64) (i : Nat) :
    ((p.charge cycles pc).trie.label i).link = (p.trie.label i).link := by
  simp only [Profile.charge, Profile.modify]
  exact Arena.relabel_keeps TrieNode.link (by intro _; rfl) p.trie p.trieNode i

/-- A jump that is not a call goes to the parent of the node with the link. -/
theorem quitOrSkip_of_find {p : Profile} {view : View} {addr : UInt64} {f q : Nat}
    (found : (p.trie.ancestors p.trieNode).find? (fun f => (p.trie.label f).link == addr) = some f)
    (known : p.trie.parent f = some q) :
    ∃ left, p.quitOrSkip view addr = some left ∧ left.trieNode = q ∧ left.cacheFun = p.cacheFun ∧
      left.trie = p.trie.relabel p.trieNode fun node => { node with exitRegs := view.registers } := by
  unfold Profile.quitOrSkip
  rw [found]
  simp only
  split
  next q' known' =>
    obtain rfl := Option.some.inj (known.symm.trans known')
    exact ⟨_, rfl, rfl, rfl, rfl⟩
  next missing =>
    rw [known] at missing
    cases missing

theorem quitOrSkip_of_none {p : Profile} {view : View} {addr : UInt64}
    (missing : (p.trie.ancestors p.trieNode).find? (fun f => (p.trie.label f).link == addr) = none) :
    p.quitOrSkip view addr = some p := by
  unfold Profile.quitOrSkip
  rw [missing]

/-- A profile that is charged and then looks for a link looks where it did before. -/
theorem find_charged (p : Profile) (cycles pc addr : UInt64) :
    ((p.charge cycles pc).trie.ancestors (p.charge cycles pc).trieNode).find?
      (fun f => ((p.charge cycles pc).trie.label f).link == addr) =
    (p.trie.ancestors p.trieNode).find? (fun f => (p.trie.label f).link == addr) := by
  have links : (fun f => ((p.charge cycles pc).trie.label f).link == addr) =
      fun f => (p.trie.label f).link == addr := by
    funext f
    rw [charge_link]
  rw [links, Profile.charge, Profile.modify, Arena.ancestors_relabel]

/-! ### The flame graph -/

structure Tags where
  addr : UInt64
  file : String
  line : UInt32
  func : String
  deriving Repr, DecidableEq

/-- `Tags::func`, with a name made from the address when there is none. -/
def Tags.funcName (tags : Tags) : String :=
  if tags.func ≠ "??" then tags.func
  else "func_0x" ++ String.ofList (Nat.toDigits 16 tags.addr.toNat)

def Tags.simple (tags : Tags) : String := tags.file ++ ":" ++ tags.funcName

/-- `display_flamegraph_rec`, with the depth below a node as fuel. `getTag` is the
lookup of an address in the debug information. -/
def displayFlamegraphRec (getTag : UInt64 → Tags) (trie : Arena TrieNode) :
    Nat → String → Nat → List String
  | 0, _, _ => []
  | depth + 1, leading, node =>
    let name := leading ++ (getTag (trie.label node).addr).simple
    (name ++ " " ++ toString (trie.label node).cycles ++ "\n") ::
      (trie.childs node).flatMap (displayFlamegraphRec getTag trie depth (name ++ "; "))

/-- The lines that `display_flamegraph` writes. -/
def Profile.displayFlamegraph (p : Profile) (getTag : UInt64 → Tags) : List String :=
  displayFlamegraphRec getTag p.trie p.trie.size "" 0

end Pprof
