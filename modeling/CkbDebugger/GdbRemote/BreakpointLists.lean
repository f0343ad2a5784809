import CkbDebugger.GdbRemote.HexText

/-!
# Breakpoint packets with conditions and commands

The packets that insert a breakpoint may carry two lists of bytecodes. Each bytecode is written
after its length, so that its bytes may be anything, also what looks like the start of the other
list.
-/
namespace GdbRemote

open Nom

/-! ### The texts -/

/-- A bytecode behind its length. -/
def ExpressionText (text : Bytes) (code : Bytecode) : Prop :=
  ∃ len length, Digits len length ∧ length.toNat = code.bytecode.length ∧
    text = ascii "X" ++ (len ++ (ascii "," ++ code.bytecode))

/-- At least one bytecode. -/
def ExpressionsText (text : Bytes) (list : List Bytecode) : Prop :=
  list ≠ [] ∧ ∃ texts, List.Forall₂ ExpressionText texts list ∧ text = texts.flatten

inductive ConditionsText : Bytes → Option (List Bytecode) → Prop where
  | none : ConditionsText [] none
  | some {text : Bytes} {list : List Bytecode} (written : ExpressionsText text list) :
      ConditionsText (ascii ";" ++ text) (some list)

/-- Commands may have a flag in front that asks to keep them. -/
inductive CommandsText : Bytes → Option (List Bytecode) → Prop where
  | none : CommandsText [] none
  | plain {text : Bytes} {list : List Bytecode} (written : ExpressionsText text list) :
      CommandsText (ascii ";cmds" ++ text) (some list)
  | persistent {flag text : Bytes} {value : UInt64} {list : List Bytecode} (number : Digits flag value)
      (written : ExpressionsText text list) :
      CommandsText (ascii ";cmds" ++ (flag ++ (ascii "," ++ text))) (some list)

/-! ### Parsing -/

theorem expression_text {text : Bytes} {code : Bytecode} (written : ExpressionText text code) :
    TextOf parseCondOrCommandExpression (fun _ => True) text code where
  reads := by
    intro rest _
    obtain ⟨len, length, number, same, rfl⟩ := written
    have comma : ∀ b ∈ (ascii "," ++ (code.bytecode ++ rest)).head?, isHexDigit b = false :=
      stops_at_mark rfl _
    have bytes : take length.toNat (code.bytecode ++ rest) = .done rest code.bytecode := by
      simp [take, same]
    simp only [parseCondOrCommandExpression, bind_apply, List.append_assoc, literal_append, andThen_done,
      hexValue_digits number comma, bytes, pure_apply]
  starts := fun _ => trivial

/-- What ends a list of bytecodes: the end of the packet, or another list. -/
theorem expressions_read {text : Bytes} {list : List Bytecode} (written : ExpressionsText text list)
    {rest : Bytes} (ending : rest = [] ∨ parseCondOrCommandExpression rest = .error) :
    many1 parseCondOrCommandExpression (text ++ rest) = .done rest list := by
  obtain ⟨nonempty, texts, each, rfl⟩ := written
  have collects := @collects_of_texts _ _ _ _ _ (each.imp fun _ _ code => expression_text code) rest trivial
  exact many1_of_collects consumes_parseCondOrCommandExpression collects nonempty ending

theorem expressions_at_end {text : Bytes} {list : List Bytecode} (written : ExpressionsText text list) :
    many1 parseCondOrCommandExpression text = .done [] list := by
  have read := @expressions_read _ _ written [] (Or.inl rfl)
  rwa [List.append_nil] at read

theorem commands_end {cmds : Bytes} {commands : Option (List Bytecode)} (written : CommandsText cmds commands) :
    cmds = [] ∨ parseCondOrCommandExpression cmds = .error := by
  cases written with
  | none => exact Or.inl rfl
  | plain => exact Or.inr rfl
  | persistent => exact Or.inr rfl

theorem maybeConditionList_text {conds cmds : Bytes} {conditions commands : Option (List Bytecode)}
    (written : ConditionsText conds conditions) (after : CommandsText cmds commands) :
    maybeConditionList (conds ++ cmds) = .done cmds conditions := by
  cases written with
  | none =>
    -- commands start like conditions, but no bytecode comes next
    cases after with
    | none => rfl
    | plain => rfl
    | persistent => rfl
  | some list =>
    simp only [maybeConditionList, parseConditionList, bind_apply, List.append_assoc, literal_append,
      andThen_done, expressions_read list (commands_end after)]

theorem parseCommandListBody_plain {text : Bytes} {list : List Bytecode} (written : ExpressionsText text list) :
    parseCommandListBody text = .done [] list := by
  have read := expressions_at_end written
  have noFlag : hexValue text = .error := by
    obtain ⟨nonempty, texts, each, rfl⟩ := written
    cases each with
    | nil => exact absurd rfl nonempty
    | cons first _ =>
      obtain ⟨len, length, _, _, rfl⟩ := first
      rfl
  rw [parseCommandListBody, altComplete_cons_of_fails]
  · exact altComplete_cons_of_done read _
  · left
    rw [bind_apply, noFlag, andThen_error]

theorem parseCommandListBody_persistent {flag text : Bytes} {value : UInt64} {list : List Bytecode}
    (number : Digits flag value) (written : ExpressionsText text list) :
    parseCommandListBody (flag ++ (ascii "," ++ text)) = .done [] list := by
  have read := expressions_at_end written
  have comma : ∀ b ∈ (ascii "," ++ text).head?, isHexDigit b = false :=
    stops_at_mark rfl _
  -- a flag is looked for first
  apply altComplete_cons_of_done
  simp only [bind_apply, hexValue_digits number comma, andThen_done, literal_append, read]

theorem maybeCommandList_text {cmds : Bytes} {commands : Option (List Bytecode)}
    (written : CommandsText cmds commands) : maybeCommandList cmds = .done [] commands := by
  cases written with
  | none => rfl
  | plain list =>
    simp only [maybeCommandList, parseCommandList, bind_apply, literal_append, andThen_done,
      parseCommandListBody_plain list]
  | persistent number list =>
    simp only [maybeCommandList, parseCommandList, bind_apply, literal_append, andThen_done,
      parseCommandListBody_persistent number list]

theorem parseCondAndCommandList_text {conds cmds : Bytes} {conditions commands : Option (List Bytecode)}
    (first : ConditionsText conds conditions) (second : CommandsText cmds commands) :
    parseCondAndCommandList (conds ++ cmds) = .done [] (conditions, commands) := by
  simp only [parseCondAndCommandList, bind_apply, maybeConditionList_text first second, andThen_done,
    maybeCommandList_text second, pure_apply]

/-! ### Whole packets -/

/-- The commands that insert a breakpoint, by the digit of the packet. -/
def insertBreakpoint : ZType → Option (Breakpoint → Command)
  | .softwareBreakpoint => some .insertSoftwareBreakpoint
  | .hardwareBreakpoint => some .insertHardwareBreakpoint
  | _ => none

/-- A packet that inserts a breakpoint is read back with its conditions and commands, one that
removes a breakpoint or a watchpoint with its address and kind, and nothing is left of either. -/
theorem breakpoint_packets_decode {addr kind : Bytes} {addrValue kindValue : UInt64}
    (addrNumber : Digits addr addrValue) (kindNumber : Digits kind kindValue) :
    (∀ type insert, insertBreakpoint type = some insert →
      ∀ conds conditions, ConditionsText conds conditions → ∀ cmds commands, CommandsText cmds commands →
        parseZPacket (ascii (zName .insert type) ++ (addr ++ (ascii "," ++ (kind ++ (conds ++ cmds))))) =
          .done [] (insert ⟨addrValue, kindValue, conditions, commands⟩)) ∧
      ∀ type, parseZPacket (ascii (zName .remove type) ++ (addr ++ (ascii "," ++ kind))) =
        .done [] (removeCommand type addrValue kindValue) := by
  constructor
  · intro type insert inserts conds conditions first cmds commands second
    have lists := parseCondAndCommandList_text first second
    rw [parseZPacket_fields .insert type addrNumber kindNumber (lists_stop lists)]
    cases type with
    | softwareBreakpoint =>
      cases inserts
      simp only [insertCommand, map_apply, unwrapDone, lists, andThen_done]
    | hardwareBreakpoint =>
      cases inserts
      simp only [insertCommand, map_apply, unwrapDone, lists, andThen_done]
    | writeWatchpoint => cases inserts
    | readWatchpoint => cases inserts
    | accessWatchpoint => cases inserts
  · intro type
    have fields := @parseZPacket_fields .remove type _ _ [] _ _ addrNumber kindNumber (by simp)
    rw [List.append_nil] at fields
    exact fields

/-- A condition whose bytes look like the start of a command list, an empty one, and a command. -/
theorem misleading_condition :
    parseZPacket (ascii "Z1,4a0,2;X6,;cmdsXX0,;cmds1,X1,X") = .done [] (.insertHardwareBreakpoint
      ⟨0x4a0, 2, some [⟨ascii ";cmdsX"⟩, ⟨[]⟩], some [⟨ascii "X"⟩]⟩) := by
  have addrNumber : Digits (ascii "4a0") 0x4a0 := digits_of_all (by decide) rfl rfl
  have kindNumber : Digits (ascii "2") 2 := digits_of_all (by decide) rfl rfl
  have misleading : ExpressionText (ascii "X6,;cmdsX") ⟨ascii ";cmdsX"⟩ :=
    ⟨ascii "6", 6, digits_of_all (by decide) rfl rfl, by decide, rfl⟩
  have nothing : ExpressionText (ascii "X0,") ⟨[]⟩ :=
    ⟨ascii "0", 0, digits_of_all (by decide) rfl rfl, by decide, rfl⟩
  have command : ExpressionText (ascii "X1,X") ⟨ascii "X"⟩ :=
    ⟨ascii "1", 1, digits_of_all (by decide) rfl rfl, by decide, rfl⟩
  have conditions : ExpressionsText (ascii "X6,;cmdsXX0,") [⟨ascii ";cmdsX"⟩, ⟨[]⟩] :=
    ⟨by simp, _, .cons misleading (.cons nothing .nil), rfl⟩
  have commands : ExpressionsText (ascii "X1,X") [⟨ascii "X"⟩] := ⟨by simp, _, .cons command .nil, rfl⟩
  have flag : Digits (ascii "1") 1 := digits_of_all (by decide) rfl rfl
  exact (breakpoint_packets_decode addrNumber kindNumber).1 .hardwareBreakpoint _ rfl _ _ (.some conditions) _ _
    (.persistent flag commands)

end GdbRemote
