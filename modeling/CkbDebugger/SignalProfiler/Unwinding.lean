import Mathlib.Data.Finite.Prod
import Mathlib.Data.Fintype.Option
import Mathlib.Logic.Relation
import CkbDebugger.Loop.Finite
import CkbDebugger.SignalProfiler.Unwinder

/-!
# When unwinding ends

The registers of a caller are found from those of its callee and from the memory, which does not
change meanwhile. There are finitely many register files, so unwinding goes on for ever exactly if it
comes back to one of them.
-/
namespace SignalProfiler

open Relation (ReflTransGen TransGen)

/-! ### Tables -/

/-- The rules that need nothing but registers and memory. -/
inductive RegisterRule.Plain : RegisterRule → Prop where
  | sameValue : Plain .sameValue
  | register (r : UInt16) : Plain (.register r)
  | offset (n : Int64) : Plain (.offset n)
  | valOffset (n : Int64) : Plain (.valOffset n)

structure UnwindTableRow.Plain (row : UnwindTableRow) : Prop where
  cfa : ∃ register offset, row.cfa = .registerAndOffset register offset
  rules : ∀ entry ∈ row.registers, entry.2.Plain

/-- Every address has no row or a plain one. -/
def PlainTable (context : DebugContext) : Prop :=
  ∀ address, unwindInfo context address = .ok none ∨ ∃ row, unwindInfo context address = .ok (some row) ∧ row.Plain

def Loads (machine : Machine) : Prop := ∀ addr, ∃ value, machine.load64 addr = .ok value

/-- A row is about the registers of the machine, and has no rule of its own for the stack pointer. -/
structure UnwindTableRow.InRange (row : UnwindTableRow) : Prop where
  cfa : ∀ register offset, row.cfa = .registerAndOffset register offset → register.toNat < 32
  targets : ∀ entry ∈ row.registers, entry.1 ≠ SP ∧ entry.1.toNat < 32
  sources : ∀ entry ∈ row.registers, ∀ r, entry.2 = .register r → r.toNat < 32

/-! ### Callers -/

/-- Unwinding goes from a frame to the one that called it. -/
def Caller (context : DebugContext) (machine : Machine) (registers next : Registers) : Prop :=
  ∃ caller row cfa, registers.read RA = some (some caller) ∧
    generateState context registers caller = some (.ok (some (row, cfa))) ∧
    (extractSymbol context caller).isSome ∧ newRegisters machine registers row cfa = some next

/-- A frame is among its own callers. -/
def Cyclic (context : DebugContext) (machine : Machine) : Prop :=
  ∃ registers, ReflTransGen (Caller context machine) machine.initial registers ∧
    TransGen (Caller context machine) registers registers

/-- The rows and the symbols on the way can be used. -/
structure Usable (context : DebugContext) (machine : Machine) : Prop where
  start : (extractSymbol context machine.pc).isSome
  callers : ∀ registers, ReflTransGen (Caller context machine) machine.initial registers →
    ∀ caller row, registers.read RA = some (some caller) → unwindInfo context caller = .ok (some row) →
      row.InRange ∧ (extractSymbol context caller).isSome

/-! ### The registers of a caller -/

section Rows

theorem read_isSome_iff (registers : Registers) (reg : UInt16) : (registers.read reg).isSome ↔ reg.toNat < 32 := by
  unfold Registers.read
  split <;> simp [*]

theorem write_isSome_iff (registers : Registers) (reg : UInt16) (value : Option UInt64) :
    (registers.write reg value).isSome ↔ reg.toNat < 32 := by
  unfold Registers.write
  split <;> simp [*]

variable {machine : Machine} (loads : Loads machine)

include loads in
theorem value_isSome_iff {rule : RegisterRule} (plain : rule.Plain) (registers : Registers) (cfa : UInt64)
    {reg : UInt16} (inside : reg.toNat < 32) :
    (rule.value machine registers cfa reg).isSome ↔ ∀ r, rule = .register r → r.toNat < 32 := by
  cases plain with
  | sameValue => simpa [RegisterRule.value] using (read_isSome_iff registers reg).mpr inside
  | register r => simpa [RegisterRule.value] using read_isSome_iff registers r
  | offset n =>
    obtain ⟨value, loaded⟩ := loads (cfa + n.toUInt64)
    simp [RegisterRule.value, loaded]
  | valOffset n => simp [RegisterRule.value]

include loads in
theorem applyRule_isSome_iff {entry : UInt16 × RegisterRule} (plain : entry.2.Plain) (registers newregs : Registers)
    (cfa : UInt64) :
    (applyRule machine registers cfa newregs entry).isSome ↔
      (entry.1 ≠ SP ∧ entry.1.toNat < 32) ∧ ∀ r, entry.2 = .register r → r.toNat < 32 := by
  unfold applyRule
  by_cases stackPointer : entry.1 = SP
  · simp [stackPointer]
  · rw [if_neg stackPointer]
    by_cases inside : entry.1.toNat < 32
    · rw [← value_isSome_iff loads plain registers cfa inside]
      rcases entry.2.value machine registers cfa entry.1 with _ | value
      · simp
      · simpa [stackPointer, inside] using (write_isSome_iff newregs entry.1 value).mpr inside
    · rcases entry.2.value machine registers cfa entry.1 with _ | value
      · simp [inside]
      · simpa [inside] using (write_isSome_iff newregs entry.1 value).not.mpr inside

/-- A loop succeeds where each of its rounds does, if that depends on the item only. -/
theorem foldlM_isSome_iff {α β : Type} {f : β → α → Option β} {P : α → Prop} {items : List α}
    (rounds : ∀ item ∈ items, ∀ b, (f b item).isSome ↔ P item) (b : β) :
    (items.foldlM f b).isSome ↔ ∀ item ∈ items, P item := by
  induction items generalizing b with
  | nil => simp
  | cons item items ih =>
    rw [List.forall_mem_cons] at rounds
    rw [List.foldlM_cons, List.forall_mem_cons, ← rounds.1 b]
    rcases f b item with _ | next
    · simp
    · simpa using ih rounds.2 next

/-- The registers without the return address. -/
def Registers.clear (registers : Registers) : Registers :=
  Function.update registers ⟨RA.toNat, by decide⟩ none

theorem newRegisters_eq (machine : Machine) (registers : Registers) (row : UnwindTableRow) (cfa : UInt64) :
    newRegisters machine registers row cfa =
      (row.registers.foldlM (applyRule machine registers cfa) registers.clear).bind fun newregs =>
        newregs.write SP (some cfa) := rfl

include loads in
theorem newRegisters_isSome_iff {row : UnwindTableRow} (plain : row.Plain) (registers : Registers) (cfa : UInt64) :
    (newRegisters machine registers row cfa).isSome ↔
      ∀ entry ∈ row.registers, (entry.1 ≠ SP ∧ entry.1.toNat < 32) ∧ ∀ r, entry.2 = .register r → r.toNat < 32 := by
  rw [newRegisters_eq, ← foldlM_isSome_iff
    (fun entry mem newregs => applyRule_isSome_iff loads (plain.rules entry mem) registers newregs cfa)
    (registers.clear)]
  rcases row.registers.foldlM (applyRule machine registers cfa) registers.clear with _ | newregs
  · simp
  · simpa using (write_isSome_iff newregs SP (some cfa)).mpr (by decide)

end Rows

/-! ### Known registers -/

/-- At most the return address is unknown. -/
def Known (registers : Registers) : Prop := ∀ i, registers i = none → i.val = RA.toNat

section Known

variable {machine : Machine} {registers newregs next : Registers} {cfa : UInt64}

theorem read_ne_none (known : ∀ i, registers i ≠ none) {reg : UInt16} {value : Option UInt64}
    (read : registers.read reg = some value) : value ≠ none := by
  unfold Registers.read at read
  split at read
  · rw [← Option.some.inj read]
    exact known _
  · cases read

theorem known_write (known : Known newregs) {reg : UInt16} {value : Option UInt64} (some : value ≠ none)
    (written : newregs.write reg value = .some next) : Known next := by
  unfold Registers.write at written
  split at written
  next inside =>
    intro i unknown
    rw [← Option.some.inj written, Function.update_apply] at unknown
    split at unknown
    · exact absurd unknown some
    · exact known i unknown
  next => cases written

theorem value_ne_none (known : ∀ i, registers i ≠ none) {rule : RegisterRule} {reg : UInt16}
    {value : Option UInt64} (ruled : rule.value machine registers cfa reg = some value) : value ≠ none := by
  cases rule with
  | sameValue => exact read_ne_none known ruled
  | register r => exact read_ne_none known ruled
  | offset n =>
    simp only [RegisterRule.value] at ruled
    split at ruled
    · simp [← Option.some.inj ruled]
    · cases ruled
  | valOffset n => simp [← Option.some.inj ruled]
  | _ => cases ruled

theorem known_applyRule (all : ∀ i, registers i ≠ none) (known : Known newregs) {entry : UInt16 × RegisterRule}
    (applied : applyRule machine registers cfa newregs entry = some next) : Known next := by
  unfold applyRule at applied
  split at applied
  · cases applied
  · obtain ⟨value, ruled, written⟩ := Option.bind_eq_some_iff.mp applied
    exact known_write known (value_ne_none all ruled) written

theorem known_newRegisters (all : ∀ i, registers i ≠ none) {row : UnwindTableRow}
    (found : newRegisters machine registers row cfa = some next) : Known next := by
  rw [newRegisters_eq] at found
  obtain ⟨last, applied, written⟩ := Option.bind_eq_some_iff.mp found
  have knownCleared : Known registers.clear := by
    intro i unknown
    rw [Registers.clear, Function.update_apply] at unknown
    split at unknown
    next same => rw [same]
    next => exact absurd unknown (all i)
  -- each rule writes a known value
  have loop : ∀ (entries : List (UInt16 × RegisterRule)) (newregs : Registers), Known newregs →
      entries.foldlM (applyRule machine registers cfa) newregs = some last → Known last := by
    intro entries
    induction entries with
    | nil =>
      intro newregs known done
      rw [← Option.some.inj done]
      exact known
    | cons entry entries ih =>
      intro newregs known done
      rw [List.foldlM_cons] at done
      obtain ⟨mid, first, rest⟩ := Option.bind_eq_some_iff.mp done
      exact ih mid (known_applyRule all known first) rest
  exact known_write (loop row.registers registers.clear knownCleared applied) (by simp) written

/-- Where the return address is known too, so are all registers. -/
theorem all_of_known (known : Known registers) {caller : UInt64} (read : registers.read RA = some (some caller)) :
    ∀ i, registers i ≠ none := by
  intro i unknown
  have same := known i unknown
  unfold Registers.read at read
  rw [dif_pos (by decide), Option.some.injEq] at read
  rw [show i = ⟨RA.toNat, by decide⟩ from Fin.ext same, read] at unknown
  cases unknown

end Known

/-! ### Frames -/

/-- A round of the walk over the registers of the frames; it leaves with whether there is no panic. -/
def frameRound (context : DebugContext) (machine : Machine) : Option Registers → Loop.Round (Option Registers) Bool
  | none => .leave false
  | some registers =>
    match registers.read RA with
    | some (some caller) =>
      match generateState context registers caller with
      | some (.ok (some (row, cfa))) =>
        if (extractSymbol context caller).isSome then .again (newRegisters machine registers row cfa) else .leave false
      | some (.ok none) => .leave true
      | _ => .leave false
    | some none => .leave true
    | none => .leave false

section Frames

variable {context : DebugContext} {machine : Machine}

theorem frameRound_again_iff {registers : Registers} {next : Option Registers} :
    frameRound context machine (some registers) = .again next ↔
      ∃ caller row cfa, registers.read RA = some (some caller) ∧
        generateState context registers caller = some (.ok (some (row, cfa))) ∧
        (extractSymbol context caller).isSome ∧ newRegisters machine registers row cfa = next := by
  simp only [frameRound]
  rcases registers.read RA with _ | _ | caller
  · simp
  · simp
  · simp only [Option.some.injEq, exists_eq_left', exists_and_left]
    rcases generateState context registers caller with _ | _ | _ | ⟨row, cfa⟩
    · simp
    · simp
    · simp
    · by_cases symbol : (extractSymbol context caller).isSome <;> simp [symbol]

theorem again_some_iff {registers next : Registers} :
    frameRound context machine (some registers) = .again (some next) ↔ Caller context machine registers next :=
  frameRound_again_iff

theorem reaches_of_callers {registers last : Registers}
    (callers : ReflTransGen (Caller context machine) registers last) :
    Loop.Reaches (frameRound context machine) (some registers) (some last) := by
  induction callers with
  | refl => exact .start
  | tail _ caller ih => exact ih.again (again_some_iff.mpr caller)

theorem callers_of_reaches {registers last : Registers}
    (reached : Loop.Reaches (frameRound context machine) (some registers) (some last)) :
    ReflTransGen (Caller context machine) registers last := by
  generalize target : some last = state at reached
  induction reached generalizing last with
  | start =>
    rw [Option.some.inj target]
  | @again before _ _ went ih =>
    subst target
    -- a walk that has panicked does not go on
    rcases before with _ | registers
    · cases went
    · exact (ih rfl).tail (again_some_iff.mp went)

/-- The walk ends after a panic. -/
theorem eq_none_of_reaches {state : Option Registers}
    (reached : Loop.Reaches (frameRound context machine) none state) : state = none := by
  induction reached with
  | start => rfl
  | again _ went ih =>
    subst ih
    cases went

/-- The walk comes back to registers exactly if a frame is among its own callers. -/
theorem recurs_iff : Loop.Recurs (frameRound context machine) (some machine.initial) ↔ Cyclic context machine := by
  constructor
  · rintro ⟨_ | registers, next, reached, went, back⟩
    · cases went
    · rcases next with _ | next
      · cases eq_none_of_reaches back
      · exact ⟨registers, callers_of_reaches reached,
          .head' (again_some_iff.mp went) (callers_of_reaches back)⟩
  · rintro ⟨registers, callers, cycle⟩
    obtain ⟨next, caller, back⟩ := TransGen.head'_iff.mp cycle
    exact ⟨some registers, some next, reaches_of_callers callers, again_some_iff.mpr caller, reaches_of_callers back⟩

theorem known_initial (machine : Machine) : Known machine.initial := by
  intro i unknown
  cases unknown

theorem known_of_callers {registers : Registers}
    (callers : ReflTransGen (Caller context machine) machine.initial registers) : Known registers := by
  induction callers with
  | refl => exact known_initial machine
  | tail _ caller ih =>
    obtain ⟨_, _, _, read, _, _, found⟩ := caller
    exact known_newRegisters (all_of_known ih read) found

theorem generateState_row {registers : Registers} {caller : UInt64} {row : UnwindTableRow} {register : UInt16}
    {offset : Int64} (info : unwindInfo context caller = .ok (some row))
    (rule : row.cfa = .registerAndOffset register offset) (all : ∀ i, registers i ≠ none) :
    (register.toNat < 32 ∧ ∃ cfa, generateState context registers caller = some (.ok (some (row, cfa)))) ∨
      (¬ register.toNat < 32 ∧ generateState context registers caller = none) := by
  simp only [generateState, info, rule]
  by_cases inside : register.toNat < 32
  · obtain ⟨known, read⟩ := Option.isSome_iff_exists.mp ((read_isSome_iff registers register).mpr inside)
    obtain ⟨value, rfl⟩ := Option.ne_none_iff_exists'.mp (read_ne_none all read)
    exact .inl ⟨inside, _, by rw [read]⟩
  · have out : registers.read register = none := by
      simpa using (read_isSome_iff registers register).not.mpr inside
    exact .inr ⟨inside, by rw [out]⟩

theorem inRange_iff {row : UnwindTableRow} {register : UInt16} {offset : Int64}
    (rule : row.cfa = .registerAndOffset register offset) :
    row.InRange ↔ register.toNat < 32 ∧ ∀ entry ∈ row.registers,
      (entry.1 ≠ SP ∧ entry.1.toNat < 32) ∧ ∀ r, entry.2 = .register r → r.toNat < 32 := by
  constructor
  · intro inRange
    exact ⟨inRange.cfa register offset rule, fun entry mem => ⟨inRange.targets entry mem, inRange.sources entry mem⟩⟩
  · rintro ⟨inside, entries⟩
    refine ⟨fun other _ same => ?_, fun entry mem => (entries entry mem).1, fun entry mem => (entries entry mem).2⟩
    rw [rule, CfaRule.registerAndOffset.injEq] at same
    rwa [← same.1]

/-- A round with a row panics, at once or in the next round, unless the row and the symbol can be used. -/
theorem frame_row_usable_iff (loads : Loads machine) {registers : Registers} (known : Known registers)
    {caller : UInt64} (read : registers.read RA = some (some caller)) {row : UnwindTableRow}
    (info : unwindInfo context caller = .ok (some row)) (plain : row.Plain) :
    (frameRound context machine (some registers) ≠ .leave false ∧
      frameRound context machine (some registers) ≠ .again none) ↔
    row.InRange ∧ (extractSymbol context caller).isSome := by
  obtain ⟨register, offset, rule⟩ := plain.cfa
  rw [inRange_iff rule]
  -- the canonical frame address is looked up at once, the other registers after the symbol
  obtain ⟨inside, cfa, state⟩ | ⟨outside, state⟩ := generateState_row info rule (all_of_known known read)
  · rw [← newRegisters_isSome_iff loads plain registers cfa]
    by_cases symbol : (extractSymbol context caller).isSome
    · simp [frameRound, read, state, symbol, inside, Option.isSome_iff_ne_none]
    · simp [frameRound, read, state, symbol]
  · simp [frameRound, read, state, outside]

theorem frame_usable_iff (plain : PlainTable context) (loads : Loads machine) {registers : Registers}
    (known : Known registers) :
    (frameRound context machine (some registers) ≠ .leave false ∧
      frameRound context machine (some registers) ≠ .again none) ↔
    ∀ caller row, registers.read RA = some (some caller) → unwindInfo context caller = .ok (some row) →
      row.InRange ∧ (extractSymbol context caller).isSome := by
  constructor
  · intro going caller row read info
    obtain none | ⟨found, same, plainRow⟩ := plain caller
    · cases none.symm.trans info
    · obtain rfl : found = row := by simpa using same.symm.trans info
      exact (frame_row_usable_iff loads known read info plainRow).mp going
  · intro usable
    rcases read : registers.read RA with _ | _ | caller
    · have inside := (read_isSome_iff registers RA).mpr (by decide)
      rw [read] at inside
      cases inside
    · simp [frameRound, read]
    · obtain none | ⟨row, info, plainRow⟩ := plain caller
      · simp [frameRound, read, generateState, none]
      · exact (frame_row_usable_iff loads known read info plainRow).mpr (usable caller row read info)

/-- The walk never panics. -/
theorem usable_iff (plain : PlainTable context) (loads : Loads machine) :
    (∀ state, Loop.Reaches (frameRound context machine) (some machine.initial) state →
      frameRound context machine state ≠ .leave false) ↔
    ∀ registers, ReflTransGen (Caller context machine) machine.initial registers →
      ∀ caller row, registers.read RA = some (some caller) → unwindInfo context caller = .ok (some row) →
        row.InRange ∧ (extractSymbol context caller).isSome := by
  constructor
  · intro quiet registers callers
    have reached := reaches_of_callers callers
    refine (frame_usable_iff plain loads (known_of_callers callers)).mp ⟨quiet _ reached, fun went => ?_⟩
    exact quiet none (reached.again went) rfl
  · intro usable state reached
    cases reached with
    | start =>
      exact ((frame_usable_iff plain loads (known_initial machine)).mpr (usable _ .refl)).1
    | @again before _ before_reached went =>
      -- the registers before were usable, so the round did not lead to a panic
      rcases before with _ | registers
      · cases went
      · have callers := callers_of_reaches before_reached
        have going := (frame_usable_iff plain loads (known_of_callers callers)).mpr (usable registers callers)
        rcases state with _ | next
        · exact absurd went going.2
        · have onward := callers.tail (again_some_iff.mp went)
          exact ((frame_usable_iff plain loads (known_of_callers onward)).mpr (usable next onward)).1

end Frames

/-! ### The unwinder walks over the frames -/

section Walk

variable {context : DebugContext} {machine : Machine}

/-- The unwinder is about to look at the frame with these registers. -/
def LooksAt (machine : Machine) (frame : Option Registers) (s : StackUnwinder × List Symbol) : Prop :=
  s.1.atStart = false ∧ frame = s.1.advance machine

theorem stackRound_follows {frame : Option Registers} {s : StackUnwinder × List Symbol}
    (looks : LooksAt machine frame s) :
    (∃ left, frameRound context machine frame = .leave (Option.isSome left) ∧
      stackRound context machine s = .leave left) ∨
    ∃ frame' s', frameRound context machine frame = .again frame' ∧ stackRound context machine s = .again s' ∧
      LooksAt machine frame' s' := by
  obtain ⟨⟨registers, state, atStart⟩, stack⟩ := s
  obtain ⟨rfl, rfl⟩ := looks
  -- from here on the unwinder and the walk look at the same registers
  simp only [stackRound, StackUnwinder.next, Bool.false_eq_true, if_false]
  rcases StackUnwinder.advance machine _ with _ | next
  · exact .inl ⟨none, rfl, rfl⟩
  · simp only [frameRound, Option.bind_eq_bind, Option.bind_some]
    rcases next.read RA with _ | _ | caller
    · exact .inl ⟨none, rfl, rfl⟩
    · exact .inl ⟨some stack, rfl, rfl⟩
    · simp only [Option.bind_some]
      rcases generateState context next caller with _ | _ | _ | ⟨row, cfa⟩
      · exact .inl ⟨none, rfl, rfl⟩
      · exact .inl ⟨none, rfl, rfl⟩
      · exact .inl ⟨some stack, rfl, rfl⟩
      · simp only [Option.bind_some]
        rcases extractSymbol context caller with _ | symbol
        · exact .inl ⟨none, rfl, rfl⟩
        -- the registers of this frame are taken up in the next round
        · exact .inr ⟨_, _, rfl, rfl, rfl, rfl⟩

theorem run_frameRound {frame : Option Registers} {s : StackUnwinder × List Symbol} (looks : LooksAt machine frame s)
    (rounds : Nat) : Loop.run (frameRound context machine) rounds frame =
      (Loop.run (stackRound context machine) rounds s).map Option.isSome := by
  obtain ⟨_, _, never⟩ | same := Loop.run_follows (LooksAt machine) Option.isSome (fun _ => False)
    (fun _ _ _ looks => .inr (stackRound_follows looks)) rounds looks
  · exact never.elim
  · exact same

/-- The unwinder after the symbol of the pc. -/
def StackUnwinder.started (machine : Machine) : StackUnwinder where
  registers := machine.initial
  state := none
  atStart := false

variable (context machine) in
theorem run_started (symbol : Symbol) (rounds : Nat) :
    Loop.run (frameRound context machine) rounds (some machine.initial) =
      (Loop.run (stackRound context machine) rounds (.started machine, [symbol])).map Option.isSome := by
  have looks : LooksAt machine (some machine.initial) (.started machine, [symbol]) := ⟨rfl, rfl⟩
  exact run_frameRound looks rounds

theorem collectStack_succ (rounds : Nat) : collectStack context machine (rounds + 1) =
    match extractSymbol context machine.pc with
    | some symbol => Loop.run (stackRound context machine) rounds (.started machine, [symbol])
    | none => some none := by
  simp only [collectStack, Loop.run, stackRound, StackUnwinder.next, StackUnwinder.new, if_true]
  rcases extractSymbol context machine.pc with _ | symbol
  · rfl
  · rfl

/-- After the symbol of the pc, a stack is collected exactly if the walk ends without a panic. -/
theorem exists_collectStack_iff :
    (∃ rounds stack, collectStack context machine rounds = some (some stack)) ↔
      (extractSymbol context machine.pc).isSome ∧
        ∃ rounds, Loop.run (frameRound context machine) rounds (some machine.initial) = some true := by
  constructor
  · rintro ⟨_ | rounds, stack, collected⟩
    · cases collected
    · rw [collectStack_succ] at collected
      rcases start : extractSymbol context machine.pc with _ | symbol
      · simp only [start] at collected
        cases collected
      · simp only [start] at collected
        exact ⟨rfl, rounds, by rw [run_started context machine symbol, collected, Option.map_some, Option.isSome_some]⟩
  · rintro ⟨start, rounds, ended⟩
    obtain ⟨symbol, start⟩ := Option.isSome_iff_exists.mp start
    rw [run_started context machine symbol, Option.map_eq_some_iff] at ended
    obtain ⟨_ | stack, collected, quiet⟩ := ended
    · cases quiet
    · exact ⟨rounds + 1, stack, by rw [collectStack_succ, start]; exact collected⟩

instance finiteUInt64 : Finite UInt64 := Finite.of_injective UInt64.toFin fun _ _ => UInt64.toFin_inj.mp

/-- The walk ends without a panic exactly if it does not come back to registers and never panics. -/
theorem exists_run_true_iff :
    (∃ rounds, Loop.run (frameRound context machine) rounds (some machine.initial) = some true) ↔
      ¬ Cyclic context machine ∧ ∀ state, Loop.Reaches (frameRound context machine) (some machine.initial) state →
        frameRound context machine state ≠ .leave false := by
  -- the states are the register files, and these are finitely many
  rw [← recurs_iff, ← Loop.exists_run_iff_not_recurs]
  constructor
  · rintro ⟨rounds, ended⟩
    refine ⟨⟨rounds, true, ended⟩, fun state reached panicked => ?_⟩
    obtain ⟨others, broken⟩ := (Loop.exists_run_iff (some machine.initial) false).mpr ⟨state, reached, panicked⟩
    cases (Loop.run_unique ended broken).1
  · rintro ⟨⟨rounds, quiet, ended⟩, never⟩
    cases quiet with
    | true => exact ⟨rounds, ended⟩
    | false =>
      obtain ⟨state, reached, panicked⟩ := (Loop.exists_run_iff (some machine.initial) false).mp ⟨rounds, ended⟩
      exact absurd panicked (never state reached)

end Walk

/-- Unwinding ends with a stack exactly if its rows and symbols can be used and no frame is among its
own callers. The handler returns when it does, unless the count of the stack overflows. -/
theorem unwinding_ends_iff (context : DebugContext) (machine : Machine) (plain : PlainTable context)
    (loads : Loads machine) :
    ((∃ rounds stack, collectStack context machine rounds = some (some stack)) ↔
      Usable context machine ∧ ¬ Cyclic context machine) ∧
    ∀ overflowChecks report after,
      (∃ rounds, perfSignalHandler overflowChecks machine rounds (some ⟨context, report⟩) = some (.returned after)) ↔
        ∃ rounds stack next, collectStack context machine rounds = some (some stack) ∧
          report.record overflowChecks ⟨stack⟩ = some next ∧ after = some ⟨context, next⟩ := by
  constructor
  · rw [exists_collectStack_iff, exists_run_true_iff, usable_iff plain loads]
    constructor
    · rintro ⟨start, acyclic, callers⟩
      exact ⟨⟨start, callers⟩, acyclic⟩
    · rintro ⟨usable, acyclic⟩
      exact ⟨usable.start, acyclic, usable.callers⟩
  · intro overflowChecks report after
    simp only [perfSignalHandler]
    constructor
    -- the handler can fail to return in three ways: no end, a panic, and a count that overflows
    · rintro ⟨rounds, handled⟩
      rcases collected : collectStack context machine rounds with _ | _ | stack
      · simp [collected] at handled
      · simp [collected] at handled
      · simp only [collected] at handled
        rcases recorded : report.record overflowChecks ⟨stack⟩ with _ | next
        · simp [recorded] at handled
        · simp only [recorded, Option.some.injEq, Handled.returned.injEq] at handled
          exact ⟨rounds, stack, next, collected, recorded, handled.symm⟩
    · rintro ⟨rounds, stack, next, collected, recorded, rfl⟩
      exact ⟨rounds, by simp only [collected, recorded]⟩

/-! ### Stacks -/

/-- A program with one row. -/
def oneRow (row : UnwindTableRow) : DebugContext where
  fdeForAddress _ := .table [.ok row]
  findLocation _ := .ok none
  findFrames _ := .ok [.ok (some (.ok "main"))]

theorem oneRow_plain {row : UnwindTableRow} (plain : row.Plain) : PlainTable (oneRow row) := by
  intro address
  by_cases here : row.contains address
  · exact .inr ⟨row, by simp [unwindInfo, oneRow, findRow, here], plain⟩
  · exact .inl (by simp [unwindInfo, oneRow, findRow, here])

/-- The frame is the sixteen bytes above the stack pointer. -/
def spRow : UnwindTableRow where
  startAddress := 0x100
  endAddress := 0x140
  cfa := .registerAndOffset SP 16
  registers := [(RA, .offset (-8))]

theorem spRow_plain : spRow.Plain where
  cfa := ⟨_, _, rfl⟩
  rules := by
    intro entry mem
    obtain rfl := List.mem_singleton.mp mem
    exact .offset _

/-- Called from the function, which was called from nowhere. -/
def intactMachine : Machine where
  registers i := if i.val = RA.toNat then 0x104 else 0x2000
  pc := 0x200
  load64 _ := .ok 0

theorem intactStack_ends : Usable (oneRow spRow) intactMachine ∧ ¬ Cyclic (oneRow spRow) intactMachine := by
  have ends := unwinding_ends_iff (oneRow spRow) intactMachine (oneRow_plain spRow_plain) fun _ => ⟨0, rfl⟩
  exact ends.1.mp ⟨3, List.replicate 2 { name := some "main", line := none, file := none }, by decide⟩

/-- `s0`, which is the frame pointer. -/
def S0 : UInt16 := 8

/-- The frame ends at the frame pointer. -/
def fpRow : UnwindTableRow where
  startAddress := 0x100
  endAddress := 0x140
  cfa := .registerAndOffset S0 0
  registers := [(RA, .offset (-8)), (S0, .offset (-16))]

theorem fpRow_plain : fpRow.Plain where
  cfa := ⟨_, _, rfl⟩
  rules := by
    intro entry mem
    rcases List.mem_cons.mp mem with rfl | rest
    · exact .offset _
    · obtain rfl := List.mem_singleton.mp rest
      exact .offset _

/-- The frame pointer that is saved in the frame points to the frame itself. -/
def corruptedMachine : Machine where
  registers i := if i.val = RA.toNat then 0x104 else 0x1000
  pc := 0x104
  load64 addr := if addr = 0xff8 then .ok 0x104 else .ok 0x1000

theorem corrupted_round : frameRound (oneRow fpRow) corruptedMachine (some corruptedMachine.initial) =
    .again (some corruptedMachine.initial) := by
  have values : ∀ i, (newRegisters corruptedMachine corruptedMachine.initial fpRow 0x1000).map (fun next => next i) =
      some (corruptedMachine.initial i) := by decide
  refine again_some_iff.mpr ⟨0x104, fpRow, 0x1000, by decide, by decide, by decide, ?_⟩
  obtain ⟨next, found⟩ : ∃ next, newRegisters corruptedMachine corruptedMachine.initial fpRow 0x1000 = some next :=
    Option.isSome_iff_exists.mp (by decide)
  rw [found] at values ⊢
  exact congrArg some (funext fun i => Option.some.inj (values i))

theorem corrupted_collectStack (rounds : Nat) : collectStack (oneRow fpRow) corruptedMachine rounds = none := by
  cases rounds with
  | zero => rfl
  | succ rounds =>
    have endless := Loop.run_eq_none_of_round_trip corrupted_round .start rounds
    rw [run_started _ _ { name := some "main", line := none, file := none }, Option.map_eq_none_iff] at endless
    exact (collectStack_succ rounds).trans endless

/-- The unwinder goes round in the frame, and the handler does not return. -/
theorem corruptedStack_hangs : PlainTable (oneRow fpRow) ∧ Loads corruptedMachine ∧
    ¬ ∃ overflowChecks rounds handled,
      perfSignalHandler overflowChecks corruptedMachine rounds (some ⟨oneRow fpRow, .empty⟩) = some handled := by
  refine ⟨oneRow_plain fpRow_plain, fun addr => ?_, ?_⟩
  · by_cases saved : addr = 0xff8
    · exact ⟨0x104, if_pos saved⟩
    · exact ⟨0x1000, if_neg saved⟩
  · rintro ⟨overflowChecks, rounds, handled, returned⟩
    simp only [perfSignalHandler, corrupted_collectStack] at returned
    cases returned

end SignalProfiler
