import CkbDebugger.Pprof.CallStack

/-!
# The program break of the heap guard

A step is refused when the stack pointer is below the heap. The profiler learns how
far the heap goes from the returns of `_sbrk`: the argument is in the registers kept
at the jump to `_sbrk`, the result in those at the return. Here the activations of
functions are kept beside the profile, and the break is computed from them.
-/
namespace Pprof

open Tree (Arena)
open CkbVm (Instruction SP A0)

/-! ### Activations -/

/-- A function that runs: its address, its link, and its first argument. -/
structure Activation where
  addr : UInt64
  link : UInt64
  incr : UInt64
  deriving Repr, DecidableEq

/-- The activation that the profiler keeps in a node. -/
def TrieNode.activation (node : TrieNode) : Activation := ⟨node.addr, node.link, node.entryRegs A0⟩

/-- The activation that a jump to a function symbol starts. -/
def View.activation (view : View) (inst : Instruction) : Activation :=
  ⟨(view.jumpTarget inst).getD 0, view.link inst, view.registers A0⟩

/-- A call that has not returned: the node that was current when it was made, the
called function, and the functions reached from it by tail calls, the latest first. -/
structure CallFrame where
  caller : Nat
  called : Activation
  tails : List Activation

/-- What ends when the call returns. -/
def CallFrame.activations (frame : CallFrame) : List Activation := frame.tails ++ [frame.called]

/-- The function that runs. -/
def CallFrame.running (frame : CallFrame) : Activation := frame.tails.headD frame.called

/-- The functions that have ended in a tail call. -/
def CallFrame.replaced (frame : CallFrame) : List Activation := frame.activations.tail

def CallFrame.tailCall (frame : CallFrame) (activation : Activation) : CallFrame :=
  { frame with tails := activation :: frame.tails }

theorem CallFrame.activations_eq (frame : CallFrame) :
    frame.activations = frame.running :: frame.replaced := by
  cases tails : frame.tails <;> simp [CallFrame.activations, CallFrame.running, CallFrame.replaced, tails]

def framesAfter (frames : List CallFrame) (p : Profile) (view : View) (inst : Instruction) :
    Event → List CallFrame
  | .call => ⟨p.trieNode, view.activation inst, []⟩ :: frames
  | .tailCall => frames.modifyHead fun frame => frame.tailCall (view.activation inst)
  | .ret => frames.tail
  | .localJump | .other => frames

/-- The calls of the frames, as the stack that tells returns. -/
def callsOf (frames : List CallFrame) : CallStack :=
  frames.map fun frame => (frame.called.link, frame.caller)

/-! ### The break -/

/-- The break after the return from an activation: `_sbrk(incr)` returns the old break,
or -1 when it has not moved it. -/
def breakAfterReturn (sbrkAddr result brk : UInt64) (activation : Activation) : UInt64 :=
  if activation.addr = sbrkAddr ∧ result ≠ -1 then result + activation.incr else brk

/-- The break after an event. A return ends every activation of the frame. -/
def breakAfter (sbrkAddr brk : UInt64) (frames : List CallFrame) (view : View) : Event → UInt64
  | .ret => (frames.head?.elim [] CallFrame.activations).foldl
      (breakAfterReturn sbrkAddr (view.registers A0)) brk
  | _ => brk

/-- The well-nested runs, with their open activations and the program break. The calls
are told from the tail calls by their sites. Every step meets the given condition. -/
inductive BreakRun (meets : List CallFrame → View → Event → Prop) (calls : Set UInt64)
    (start : Profile) : Profile → List CallFrame → UInt64 → Prop where
  | start : BreakRun meets calls start start [] start.sbrkHeap
  | step {p q : Profile} {frames : List CallFrame} {brk : UInt64} {view : View} {inst : Instruction}
      (event : Event) (reached : BreakRun meets calls start p frames brk)
      (decoded : p.decodes view = some inst)
      (occurs : Occurs (fun view _ => view.pc) calls p (callsOf frames) view inst event)
      (stepped : p.step view = some (.ok (), q)) (met : meets frames view event) :
      BreakRun meets calls start q (framesAfter frames p view inst event)
        (breakAfter start.sbrkAddr brk frames view event)

theorem callsOf_framesAfter (frames : List CallFrame) (p : Profile) (view : View) (inst : Instruction)
    (event : Event) :
    callsOf (framesAfter frames p view inst event) = (callsOf frames).after p view inst event := by
  cases event with
  | call => rfl
  | tailCall => cases frames <;> rfl
  | ret => cases frames <;> rfl
  | localJump => rfl
  | other => rfl

/-- Without the activations these are the runs of the call stack. -/
theorem BreakRun.wellNested {meets : List CallFrame → View → Event → Prop} {calls : Set UInt64}
    {start p : Profile} {frames : List CallFrame} {brk : UInt64}
    (run : BreakRun meets calls start p frames brk) :
    WellNested (fun view _ => view.pc) calls start p (callsOf frames) := by
  induction run with
  | start => exact .start
  | step event reached decoded occurs stepped met ih =>
    rw [callsOf_framesAfter]
    exact .step event ih decoded occurs stepped

/-! ### What the profiler sees of a return -/

/-- What a return has to be like. No function of the frame has the link of the call by a
tail call, since the profiler finds the call by its link. When the result is -1 the
function that returns is not `_sbrk`, since the profiler does not look for -1. Otherwise
`_sbrk` has not ended in a tail call, since the profiler looks at the current node alone. -/
def Traceable (sbrkAddr : UInt64) (frames : List CallFrame) (view : View) : Event → Prop
  | .ret => ∀ frame ∈ frames.head?,
      (∀ tail ∈ frame.tails, tail.link ≠ frame.called.link) ∧
      (view.registers A0 = -1 → frame.running.addr ≠ sbrkAddr) ∧
      (view.registers A0 ≠ -1 → ∀ replaced ∈ frame.replaced, replaced.addr ≠ sbrkAddr)
  | _ => True

/-- The guard of a step goes by the given break. -/
structure Profile.GuardedBy (p : Profile) (brk : UInt64) : Prop where
  heap : p.sbrkHeap = brk
  refuses : ∀ view : View, view.registers SP < brk → p.step view =
    some (.error (.external s!"Heap and stack overlapping sp={view.registers SP} heap={brk}"), p)
  passes : ∀ (view : View) (e : CkbVm.Error) (q : Profile), ¬view.registers SP < brk →
    p.step view = some (.error e, q) → view.decoded = .error e

theorem guardedBy_sbrkHeap (p : Profile) : p.GuardedBy p.sbrkHeap where
  heap := by rfl
  refuses := fun view below => if_pos below
  passes := by
    intro view e q above failed
    cases decoded : view.decoded with
    | error e' =>
      rw [Profile.step, if_neg above, decoded] at failed
      cases failed
      rfl
    | ok inst =>
      rw [step_of_decodes (decodes_eq_some_iff.mpr ⟨above, decoded⟩)] at failed
      split at failed
      · cases failed
      · split at failed
        · cases failed
        · obtain ⟨left, _, equal⟩ := Option.map_eq_some_iff.mp failed
          cases equal

/-! ### The activations on the way to the root -/

/-- The way from a node to the root passes the activations of the frames. -/
inductive Stands (trie : Arena TrieNode) : Nat → List CallFrame → Prop where
  | bottom (i : Nat) : Stands trie i []
  | frame {i : Nat} {frame : CallFrame} {frames : List CallFrame}
      (path : trie.Path TrieNode.activation i frame.activations frame.caller)
      (rest : Stands trie frame.caller frames) : Stands trie i (frame :: frames)

theorem Stands.congr {trie trie' : Arena TrieNode} {i : Nat} {frames : List CallFrame}
    (stands : Stands trie i frames)
    (same : ∀ j ≤ i, trie'.parent j = trie.parent j ∧
      (trie'.label j).activation = (trie.label j).activation) :
    Stands trie' i frames := by
  induction stands with
  | bottom i => exact .bottom i
  | frame path rest ih =>
    have below := path.last_le
    exact .frame (path.congr same) (ih fun j bound => same j (Nat.le_trans bound below))

section Step

variable {p q : Profile} {frames : List CallFrame} {view : View} {inst : Instruction} {addr : UInt64}

/-- Charging changes no activation. -/
theorem charge_activation (p : Profile) (cycles pc : UInt64) (i : Nat) :
    ((p.charge cycles pc).trie.label i).activation = (p.trie.label i).activation := by
  simp only [Profile.charge, Profile.modify]
  exact Arena.relabel_keeps TrieNode.activation (by intro _; rfl) p.trie p.trieNode i

theorem Stands.charge {i : Nat} (stands : Stands p.trie i frames) (cycles pc : UInt64) :
    Stands (p.charge cycles pc).trie i frames :=
  stands.congr fun j _ => ⟨rfl, charge_activation p cycles pc j⟩

/-- A jump to a function symbol puts its activation on top of what stands. -/
theorem call_activation (p : Profile) (jump : view.jumpTarget inst = some addr) :
    let q := p.call view addr (view.link inst)
    q.trie.parent q.trieNode = some p.trieNode ∧
    (q.trie.label q.trieNode).activation = view.activation inst ∧
    ∀ j ≤ p.trieNode, q.trie.parent j = p.trie.parent j ∧
      (q.trie.label j).activation = (p.trie.label j).activation := by
  intro q
  have label : q.trie.label q.trieNode = ⟨addr, view.link inst, view.pc, 0, view.registers, fun _ => 0⟩ :=
    if_pos rfl
  refine ⟨if_pos rfl, ?_, ?_⟩
  · rw [label, View.activation, jump]
    rfl
  · intro j below
    have old : j ≠ p.trie.size := Nat.ne_of_lt (Nat.lt_of_le_of_lt below p.inside)
    exact ⟨if_neg old, congrArg TrieNode.activation (if_neg old)⟩

/-- The return of the innermost frame: it ends at the caller, and the heap is what the
function that runs says. -/
theorem return_activation {frame : CallFrame} (p : Profile) (view : View)
    (path : p.trie.Path TrieNode.activation p.trieNode frame.activations frame.caller)
    (linked : ∀ tail ∈ frame.tails, tail.link ≠ frame.called.link) :
    ∃ left, p.quitOrSkip view frame.called.link = some left ∧ left.trieNode = frame.caller ∧
      left.cacheFun = p.cacheFun ∧ left.sbrkAddr = p.sbrkAddr ∧
      (∀ j, left.trie.parent j = p.trie.parent j ∧
        (left.trie.label j).activation = (p.trie.label j).activation) ∧
      left.sbrkHeap = if frame.running.addr = p.sbrkAddr then
        frame.running.incr + view.registers A0 else p.sbrkHeap := by
  obtain ⟨f, found, known⟩ := path.find (fun activation => activation.link == frame.called.link)
    (by simpa using linked) (by simp)
  have here : p.node.activation = frame.running := by
    rw [frame.activations_eq] at path
    exact path.head
  -- the registers of the return are kept in the node of the function that runs
  have exited : (p.modify fun node => { node with exitRegs := view.registers }).node =
      { p.node with exitRegs := view.registers } := if_pos rfl
  unfold Profile.quitOrSkip
  rw [show (fun f => (p.trie.label f).link == frame.called.link) =
    fun f => (p.trie.label f).activation.link == frame.called.link from rfl, found]
  simp only
  split
  next above known' =>
    obtain rfl := Option.some.inj (known.symm.trans known')
    refine ⟨_, rfl, rfl, rfl, rfl, fun j => ⟨rfl, ?_⟩, ?_⟩
    · exact Arena.relabel_keeps TrieNode.activation
        (f := fun node => { node with exitRegs := view.registers }) (by intro _; rfl) p.trie p.trieNode j
    · simp only [Profile.sbrkOrSkip, exited, ← here]
      rfl
  next missing =>
    rw [known] at missing
    cases missing

end Step

/-! ### Whole runs -/

/-- The profile knows the frames and the break. -/
structure Tracks (start p : Profile) (frames : List CallFrame) (brk : UInt64) : Prop where
  functions : p.cacheFun = start.cacheFun
  sbrkAddr : p.sbrkAddr = start.sbrkAddr
  heap : p.sbrkHeap = brk
  stands : Stands p.trie p.trieNode frames
  plain : ∀ frame ∈ frames, start.cacheFun frame.called.link = false

theorem foldl_breakAfterReturn (sbrkAddr result brk : UInt64) (activations : List Activation)
    (none : ∀ activation ∈ activations, ¬(activation.addr = sbrkAddr ∧ result ≠ -1)) :
    activations.foldl (breakAfterReturn sbrkAddr result) brk = brk := by
  induction activations with
  | nil => rfl
  | cons activation rest ih =>
    rw [List.foldl_cons, breakAfterReturn, if_neg (none activation List.mem_cons_self)]
    exact ih fun other member => none other (List.mem_cons_of_mem _ member)

/-- Among the activations of a frame that can be traced only the running one counts. -/
theorem breakAfter_ret (sbrkAddr brk : UInt64) (frame : CallFrame) (frames : List CallFrame) (view : View)
    (met : Traceable sbrkAddr (frame :: frames) view .ret) :
    breakAfter sbrkAddr brk (frame :: frames) view .ret =
      if frame.running.addr = sbrkAddr then frame.running.incr + view.registers A0 else brk := by
  obtain ⟨-, failed, moved⟩ := met frame rfl
  have rest : ∀ brk', frame.replaced.foldl (breakAfterReturn sbrkAddr (view.registers A0)) brk' = brk' := by
    intro brk'
    apply foldl_breakAfterReturn
    intro activation member counts
    exact moved counts.2 activation member counts.1
  simp only [breakAfter, List.head?_cons, Option.elim_some, frame.activations_eq, List.foldl_cons, rest]
  by_cases here : frame.running.addr = sbrkAddr
  · have success : view.registers A0 ≠ -1 := fun result => failed result here
    rw [breakAfterReturn, if_pos ⟨here, success⟩, if_pos here, UInt64.add_comm]
  · rw [breakAfterReturn, if_neg fun counts => here counts.1, if_neg here]

section Tracking

variable {start p q : Profile} {frames : List CallFrame} {brk : UInt64} {view : View} {inst : Instruction}
  {addr : UInt64}

/-- A step has jumped to a function symbol. -/
structure Enters (p q : Profile) (view : View) (inst : Instruction) (frames : List CallFrame) : Prop where
  functions : q.cacheFun = p.cacheFun
  sbrkAddr : q.sbrkAddr = p.sbrkAddr
  heap : q.sbrkHeap = p.sbrkHeap
  parent : q.trie.parent q.trieNode = some p.trieNode
  activation : (q.trie.label q.trieNode).activation = view.activation inst
  below : Stands q.trie p.trieNode frames

theorem enters_of_symbol (stands : Stands p.trie p.trieNode frames) (decoded : p.decodes view = some inst)
    (jump : view.jumpTarget inst = some addr) (symbol : p.cacheFun addr = true)
    (stepped : p.step view = some (.ok (), q)) : Enters p q view inst frames := by
  have charged := stands.charge (view.instructionCycleFunc inst) view.pc
  obtain ⟨parent, label, same⟩ := call_activation (p.charge (view.instructionCycleFunc inst) view.pc) jump
  rw [step_of_decodes decoded, jump] at stepped
  simp only [symbol, if_true] at stepped
  cases stepped
  exact ⟨rfl, rfl, rfl, parent, label, charged.congr same⟩

theorem Tracks.call (tracks : Tracks start p frames brk) (entered : Enters p q view inst frames)
    (plain : p.cacheFun (view.link inst) = false) :
    Tracks start q (⟨p.trieNode, view.activation inst, []⟩ :: frames) brk := by
  refine ⟨entered.functions.trans tracks.functions, entered.sbrkAddr.trans tracks.sbrkAddr,
    entered.heap.trans tracks.heap, .frame ?_ entered.below, ?_⟩
  · rw [CallFrame.activations, List.nil_append, ← entered.activation]
    exact .up entered.parent (.here _)
  · intro frame member
    rcases List.mem_cons.mp member with rfl | member
    · rw [← tracks.functions]
      exact plain
    · exact tracks.plain frame member

/-- The function that is left stays on the way from the new one to the caller. -/
theorem Tracks.tailCall (tracks : Tracks start p frames brk) (entered : Enters p q view inst frames) :
    Tracks start q (frames.modifyHead fun frame => frame.tailCall (view.activation inst)) brk := by
  refine ⟨entered.functions.trans tracks.functions, entered.sbrkAddr.trans tracks.sbrkAddr,
    entered.heap.trans tracks.heap, ?_, ?_⟩
  · have below := entered.below
    cases frames with
    | nil => exact .bottom _
    | cons frame frames =>
      cases below with
      | frame path rest =>
        have longer := Arena.Path.up entered.parent path
        rw [entered.activation] at longer
        exact .frame longer rest
  · cases frames with
    | nil => exact tracks.plain
    | cons frame frames =>
      intro other member
      rcases List.mem_cons.mp member with rfl | member
      · exact tracks.plain frame List.mem_cons_self
      · exact tracks.plain other (List.mem_cons_of_mem _ member)

theorem Tracks.ret {frame : CallFrame} (tracks : Tracks start p (frame :: frames) brk)
    (decoded : p.decodes view = some inst) (jump : view.jumpTarget inst = some frame.called.link)
    (stepped : p.step view = some (.ok (), q)) (met : Traceable start.sbrkAddr (frame :: frames) view .ret) :
    Tracks start q frames (breakAfter start.sbrkAddr brk (frame :: frames) view .ret) := by
  have charged := tracks.stands.charge (view.instructionCycleFunc inst) view.pc
  cases charged with
  | frame path below =>
    obtain ⟨left, quit, here, functions, sbrkAddr, kept, heap⟩ := return_activation
      (p.charge (view.instructionCycleFunc inst) view.pc) view path (met frame rfl).1
    have plain : p.cacheFun frame.called.link = false := by
      rw [tracks.functions]
      exact tracks.plain frame List.mem_cons_self
    -- the link is no symbol, so the jump is taken for a return and not for a call
    rw [step_of_decodes decoded, jump] at stepped
    simp only [plain, Bool.false_eq_true, if_false] at stepped
    rw [quit] at stepped
    cases stepped
    refine ⟨functions.trans tracks.functions, sbrkAddr.trans tracks.sbrkAddr, ?_, ?_, ?_⟩
    · rw [breakAfter_ret _ _ _ _ _ met, heap, ← tracks.heap, ← tracks.sbrkAddr]
      rfl
    · rw [here]
      exact below.congr fun j _ => kept j
    · intro other member
      exact tracks.plain other (List.mem_cons_of_mem _ member)

theorem tracks_step {calls : Set UInt64} {event : Event} (tracks : Tracks start p frames brk)
    (decoded : p.decodes view = some inst)
    (occurs : Occurs (fun view _ => view.pc) calls p (callsOf frames) view inst event)
    (stepped : p.step view = some (.ok (), q)) (met : Traceable start.sbrkAddr frames view event) :
    Tracks start q (framesAfter frames p view inst event)
      (breakAfter start.sbrkAddr brk frames view event) := by
  cases event with
  | call =>
    obtain ⟨addr, jump, symbol, plain, _⟩ := occurs
    exact tracks.call (enters_of_symbol tracks.stands decoded jump symbol stepped) plain
  | tailCall =>
    obtain ⟨addr, jump, symbol, _⟩ := occurs
    exact tracks.tailCall (enters_of_symbol tracks.stands decoded jump symbol stepped)
  | ret =>
    obtain ⟨link, node, rest, same, jump⟩ := occurs
    cases frames with
    | nil => cases same
    | cons frame frames =>
      cases same
      exact tracks.ret decoded jump stepped met
  | localJump =>
    obtain ⟨addr, jump, plain, _, elsewhere⟩ := occurs
    have charged := tracks.stands.charge (view.instructionCycleFunc inst) view.pc
    -- a target that is no link of an ancestor leaves the node
    have missing : (p.trie.ancestors p.trieNode).find? (fun f => (p.trie.label f).link == addr) = none :=
      List.find?_eq_none.mpr fun i member => by simpa using elsewhere i member
    rw [← find_charged p (view.instructionCycleFunc inst) view.pc] at missing
    rw [step_of_decodes decoded, jump] at stepped
    simp only [plain, Bool.false_eq_true, if_false, quitOrSkip_of_none missing] at stepped
    cases stepped
    exact ⟨tracks.functions, tracks.sbrkAddr, tracks.heap, charged, tracks.plain⟩
  | other =>
    have charged := tracks.stands.charge (view.instructionCycleFunc inst) view.pc
    rw [step_of_decodes decoded, show view.jumpTarget inst = none from occurs] at stepped
    cases stepped
    exact ⟨tracks.functions, tracks.sbrkAddr, tracks.heap, charged, tracks.plain⟩

end Tracking

theorem tracks_run {calls : Set UInt64} {start p : Profile} {frames : List CallFrame} {brk : UInt64}
    (run : BreakRun (Traceable start.sbrkAddr) calls start p frames brk) : Tracks start p frames brk := by
  induction run with
  | start => exact ⟨rfl, rfl, rfl, .bottom _, by simp⟩
  | step event _ decoded occurs stepped met ih => exact tracks_step ih decoded occurs stepped met

/-- In every run in which every return can be traced, the guard goes by the program break: it
is `_end` at first, what a successful `_sbrk` has made of it later, and a step is refused
exactly when the stack pointer is below it. -/
theorem guard_uses_program_break (calls : Set UInt64) (entry : UInt64) (cacheFun : UInt64 → Bool)
    (sbrkAddr endAddr : UInt64) (p : Profile) (frames : List CallFrame) (brk : UInt64)
    (run : BreakRun (Traceable sbrkAddr) calls (.new entry cacheFun sbrkAddr endAddr) p frames brk) :
    p.GuardedBy brk := by
  have tracks : Tracks (.new entry cacheFun sbrkAddr endAddr) p frames brk := tracks_run run
  rw [← tracks.heap]
  exact guardedBy_sbrkHeap p

/-! ### A call of `_sbrk` and its return -/

/-- A program with `_sbrk` at `0x200` and `_end` at `0x1000`. -/
def sbrkProgram : Profile := .new 0x100 (fun addr => addr == 0x200) 0x200 0x1000

/-- The call of `_sbrk(0x10)`, from `0x100`. -/
def sbrkCall : View :=
  { jalFrom 0x100 4 0x100 1 with registers := fun r => if r = A0 then 0x10 else 0x2000 }

/-- The return from `_sbrk`, with its result. -/
def sbrkReturn (result : UInt64) : View :=
  { retFrom 0x200 0x104 with
    registers := fun r => if r = CkbVm.RA then 0x104 else if r = A0 then result else 0x2000 }

/-- The program calls `_sbrk`, which succeeds or fails. -/
theorem sbrk_call_runs (meets : List CallFrame → View → Event → Prop) (result : UInt64)
    (either : result = 0x1000 ∨ result = -1) (called : meets [] sbrkCall .call)
    (returned : meets [⟨0, ⟨0x200, 0x104, 0x10⟩, []⟩] (sbrkReturn result) .ret) :
    ∃ p, p.sbrkHeap = 0x10 + result ∧ BreakRun meets {0x100} sbrkProgram p []
      (breakAfterReturn 0x200 result 0x1000 ⟨0x200, 0x104, 0x10⟩) := by
  obtain ⟨p, first, q, decoded, back, second, heap⟩ : ∃ p,
      sbrkProgram.step sbrkCall = some (.ok (), p) ∧ ∃ q,
      p.decodes (sbrkReturn result) = some ⟨.jalr, 4, 0, CkbVm.RA, 0⟩ ∧
      (sbrkReturn result).jumpTarget ⟨.jalr, 4, 0, CkbVm.RA, 0⟩ = some 0x104 ∧
      p.step (sbrkReturn result) = some (.ok (), q) ∧ q.sbrkHeap = 0x10 + result := by
    rcases either with rfl | rfl
    · exact ⟨_, rfl, _, rfl, rfl, rfl, rfl⟩
    · exact ⟨_, rfl, _, rfl, rfl, rfl, rfl⟩
  have calls : Occurs (fun view _ => view.pc) {0x100} sbrkProgram (callsOf []) sbrkCall
      ⟨.jal, 4, 0x100, CkbVm.ZERO, 1 * 256⟩ .call := ⟨0x200, rfl, rfl, rfl, rfl⟩
  have call : BreakRun meets {0x100} sbrkProgram p [⟨0, ⟨0x200, 0x104, 0x10⟩, []⟩] 0x1000 :=
    .step .call .start rfl calls first called
  exact ⟨q, heap, .step .ret call decoded ⟨0x104, 0, [], rfl, back⟩ second returned⟩

/-- `_sbrk(0x10)` gives the old break, and the guard follows to the new one. -/
theorem guard_uses_break_of_sbrk : ∃ p : Profile,
    BreakRun (Traceable 0x200) {0x100} sbrkProgram p [] 0x1010 ∧ p.sbrkHeap = 0x1010 ∧ p.GuardedBy 0x1010 := by
  obtain ⟨p, heap, run⟩ := sbrk_call_runs (Traceable 0x200) 0x1000 (.inl rfl) trivial (by
    intro frame here
    obtain rfl := Option.some.inj here
    exact ⟨by simp, fun failed => absurd failed (by decide), by simp [CallFrame.replaced, CallFrame.activations]⟩)
  refine ⟨p, run, heap, ?_⟩
  exact guard_uses_program_break {0x100} 0x100 (fun addr => addr == 0x200) 0x200 0x1000 p [] 0x1010 run

/-- `_sbrk(0x10)` fails: the break stays at `_end`, but the heap of the profile becomes `0xf`,
so that a stack pointer below the break is let through. -/
theorem failed_sbrk_moves_heap : ∃ p : Profile,
    BreakRun (fun _ _ _ => True) {0x100} sbrkProgram p [] 0x1000 ∧ p.sbrkHeap = 0xf ∧
    ¬p.GuardedBy 0x1000 := by
  obtain ⟨p, heap, run⟩ := sbrk_call_runs (fun _ _ _ => True) (-1) (.inr rfl) trivial trivial
  refine ⟨p, run, heap, fun guarded => ?_⟩
  have same : (0x10 : UInt64) + -1 = 0x1000 := heap.symm.trans guarded.heap
  exact absurd same (by decide)

end Pprof
