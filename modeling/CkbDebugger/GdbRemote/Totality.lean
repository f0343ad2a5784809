import CkbDebugger.GdbRemote.Overflow

/-!
# Payloads on which the request parser panics

The parser has two `unwrap`s that a client can reach: the conversion of a run
of hexadecimal digits to a `u64`, and the condition and command lists of a
`Z0` or `Z1` packet. `crashTable` lists, packet by packet, what has to follow
the packet's name for one of them to fail, and `command_panicsOn` proves the
list exact.
-/
namespace GdbRemote

open Nom

/-! ### Lists of bytecodes -/

theorem parseCondOrCommandExpression_panicsOn :
    PanicsOn parseCondOrCommandExpression [("X", FieldOverflow [])] :=
  PanicsOn.literal_bind "X" fun _ => lastField_panic_iff _ fun _ =>
    quiet_bind (quiet_literal _) fun _ => quiet_bind (quiet_take _) fun _ => quiet_pure _

theorem consumes_parseCondOrCommandExpression : Consumes parseCondOrCommandExpression :=
  consumes_bind (consumes_literal "X" (by decide)) fun _ =>
    shrinks_bind consumes_hexValue.shrinks fun _ => shrinks_bind (shrinks_literal _) fun _ =>
      shrinks_bind (shrinks_take _) fun _ => shrinks_pure _

/-- The length of a bytecode, and as many bytes. -/
def Expression : Grammar := fun input rest => ∃ length code, input = ascii "X" ++ length ∧
  Number length (ascii "," ++ (code ++ rest)) ∧ code.length = hexNumber (length.takeWhile isHexDigit)

theorem parses_expression : Parses parseCondOrCommandExpression Expression := by
  intro input rest
  simp only [parseCondOrCommandExpression, bind_apply, andThen_done_iff, literal_done_iff, take_done_iff, pure_apply,
    IResult.done.injEq, Expression, ← parses_hexValue _ _]
  constructor
  · rintro ⟨_, length, _, ⟨rfl, _⟩, _, len, read, _, _, ⟨rfl, _⟩, _, code, ⟨rfl, size⟩, rfl, _⟩
    exact ⟨length, code, rfl, ⟨len, read⟩, size.trans (hexValue_denotes read)⟩
  · rintro ⟨length, code, rfl, ⟨len, read⟩, size⟩
    exact ⟨_, length, _, ⟨rfl, rfl⟩, _, len, read, _, _, ⟨rfl, rfl⟩, _, code,
      ⟨rfl, size.trans (hexValue_denotes read).symm⟩, rfl, rfl⟩

/-- Something else than a bytecode, also the end of the input, but not a bytecode that is cut off. -/
def NoExpression (input : Bytes) : Prop :=
  ¬ascii "X" <+: input ∨ ∃ length, input = ascii "X" ++ length ∧
    ((length ≠ [] ∧ NoDigit length) ∨ ∃ rest, Number length rest ∧ rest ≠ [] ∧ ¬ascii "," <+: rest)

theorem expression_ends_iff (input : Bytes) :
    input = [] ∨ parseCondOrCommandExpression input = .error ↔ NoExpression input := by
  simp only [parseCondOrCommandExpression, bind_apply, andThen_error_iff, @literal_byte_error_iff "X" 88 rfl,
    @literal_byte_error_iff "," 44 rfl, hexValue_error_iff, literal_done_iff, take_ne_error, pure_apply, reduceCtorEq,
    and_false, exists_false, or_false, NoExpression, ← parses_hexValue _ _]
  constructor
  · rintro (rfl | ⟨_, other⟩ | ⟨length, _, ⟨rfl, _⟩, none | ⟨rest, len, read, other⟩⟩)
    · exact Or.inl (by decide)
    · exact Or.inl other
    · exact Or.inr ⟨length, rfl, Or.inl none⟩
    · exact Or.inr ⟨length, rfl, Or.inr ⟨rest, ⟨len, read⟩, other⟩⟩
  · rintro (other | ⟨length, rfl, none | ⟨rest, ⟨len, read⟩, other⟩⟩)
    · by_cases nil : input = []
      · exact Or.inl nil
      · exact Or.inr (Or.inl ⟨nil, other⟩)
    · exact Or.inr (Or.inr ⟨length, _, ⟨rfl, rfl⟩, Or.inl none⟩)
    · exact Or.inr (Or.inr ⟨length, _, ⟨rfl, rfl⟩, Or.inr ⟨rest, len, read, other⟩⟩)

/-- A bytecode that the input ends in: in its length, before the comma, or in its bytes. -/
def CutExpression (input : Bytes) : Prop :=
  ∃ length, input = ascii "X" ++ length ∧ (length = [] ∨ ∃ rest, Number length rest ∧
    (rest = [] ∨ ∃ code, rest = ascii "," ++ code ∧ code.length < hexNumber (length.takeWhile isHexDigit)))

theorem expression_incomplete_iff (input : Bytes) :
    parseCondOrCommandExpression input = .incomplete ↔ input = [] ∨ CutExpression input := by
  simp only [parseCondOrCommandExpression, bind_apply, andThen_incomplete_iff, @literal_byte_incomplete_iff "X" 88 rfl,
    @literal_byte_incomplete_iff "," 44 rfl, hexValue_incomplete_iff, literal_done_iff, take_incomplete_iff, pure_apply,
    reduceCtorEq, and_false, exists_false, or_false, CutExpression, ← parses_hexValue _ _]
  refine or_congr_right ⟨?_, ?_⟩
  · rintro ⟨length, _, ⟨rfl, _⟩, none | ⟨rest, len, read, nil | ⟨code, _, ⟨rfl, _⟩, short⟩⟩⟩
    · exact ⟨length, rfl, Or.inl none⟩
    · exact ⟨length, rfl, Or.inr ⟨rest, ⟨len, read⟩, Or.inl nil⟩⟩
    · exact ⟨length, rfl, Or.inr ⟨_, ⟨len, read⟩, Or.inr ⟨code, rfl, hexValue_denotes read ▸ short⟩⟩⟩
  · rintro ⟨length, rfl, none | ⟨rest, ⟨len, read⟩, nil | ⟨code, rfl, short⟩⟩⟩
    · exact ⟨length, _, ⟨rfl, rfl⟩, Or.inl none⟩
    · exact ⟨length, _, ⟨rfl, rfl⟩, Or.inr ⟨rest, len, read, Or.inl nil⟩⟩
    · have few := (hexValue_denotes read).symm ▸ short
      exact ⟨length, _, ⟨rfl, rfl⟩, Or.inr ⟨_, len, read, Or.inr ⟨code, _, ⟨rfl, rfl⟩, few⟩⟩⟩

/-- One or more whole bytecodes, up to where no cut off one follows. -/
def BytecodeRun : Grammar := Expression.some NoExpression

theorem parses_bytecodes : Parses (many1 parseCondOrCommandExpression) BytecodeRun :=
  parses_expression.many1 consumes_parseCondOrCommandExpression expression_ends_iff

/-- The length of one of the bytecodes of a list does not fit in 64 bits. -/
def BytecodeOverflow (input : Bytes) : Prop :=
  ∃ rest, Relation.ReflTransGen Expression input (ascii "X" ++ rest) ∧ Oversized rest

theorem bytecodes_panic_iff (input : Bytes) :
    many1 parseCondOrCommandExpression input = .panic ↔ BytecodeOverflow input := by
  rw [many1_panic_iff _ consumes_parseCondOrCommandExpression (by decide)]
  simp only [parseCondOrCommandExpression_panicsOn _, listed_singleton, BytecodeOverflow, FieldOverflow,
    parses_expression.reads_iff]
  constructor
  · rintro ⟨_, reads, rest, rfl, bad⟩
    exact ⟨rest, reads, bad⟩
  · rintro ⟨rest, reads, bad⟩
    exact ⟨_, reads, rest, rfl, bad⟩

/-- The input ends before the first bytecode, or in one of them. -/
def CutBytecodes (input : Bytes) : Prop :=
  input = [] ∨ ∃ rest, Relation.ReflTransGen Expression input rest ∧ CutExpression rest

theorem bytecodes_incomplete_iff (input : Bytes) :
    many1 parseCondOrCommandExpression input = .incomplete ↔ CutBytecodes input := by
  rw [many1_incomplete_iff _ consumes_parseCondOrCommandExpression]
  simp only [parses_expression.reads_iff, expression_incomplete_iff, CutBytecodes, true_or, and_true]
  refine or_congr_right (exists_congr fun rest => and_congr_right fun _ => ?_)
  constructor
  · rintro ⟨nonempty, nil | cut⟩
    · exact absurd nil nonempty
    · exact cut
  · rintro ⟨length, rfl, cut⟩
    exact ⟨by simp [ascii], Or.inr ⟨length, rfl, cut⟩⟩

/-! ### Conditions and commands -/

theorem parseConditionList_panic_iff (input : Bytes) : parseConditionList input = .panic ↔
    ∃ rest, input = ascii ";" ++ rest ∧ BytecodeOverflow rest := by
  simp only [parseConditionList, literal_bind_panic_iff, bytecodes_panic_iff]

/-- Something else than a condition list, and no length in it that does not fit. -/
def NoConditions (input : Bytes) : Prop :=
  (∀ rest, input = ascii ";" ++ rest → ¬BytecodeOverflow rest) ∧ ∀ rest, ¬BytecodeRun.after ";" input rest

/-- A condition list, if there is a whole one. -/
def Conditions : Grammar := (BytecodeRun.after ";").optional NoConditions

theorem parses_maybeConditionList : Parses maybeConditionList Conditions := by
  have list : Parses parseConditionList (BytecodeRun.after ";") := parses_bytecodes.preceded ";"
  have fails (input : Bytes) : Fails (parseConditionList input) ↔ NoConditions input := by
    rw [list.fails_iff parseConditionList_panic_iff, NoConditions]
    simp only [not_exists, not_and]
  have optional : maybeConditionList = opt (complete parseConditionList) := by
    funext input
    unfold maybeConditionList opt complete
    cases parseConditionList input <;> rfl
  rw [optional]
  exact list.optComplete fails

/-- The bytecodes of a command list, with or without a persistence flag, and what follows them. -/
def CommandRun : Grammar := (Number.followedBy "," BytecodeRun).or BytecodeRun

/-- A bytecode starts with `X`, which is no hexadecimal digit, so the two forms of a command list
exclude each other. -/
theorem hexValue_error_of_letter (rest : Bytes) : hexValue (ascii "X" ++ rest) = .error := rfl

theorem bytecodeRun_letter {input rest : Bytes} (run : BytecodeRun input rest) :
    ∃ more, input = ascii "X" ++ more := by
  obtain ⟨_, ⟨length, _, rfl, _⟩, _⟩ := Relation.TransGen.head'_iff.mp run.1
  exact ⟨length, rfl⟩

theorem parses_parseCommandListBody : Parses parseCommandListBody CommandRun := by
  refine (parses_hexValue.followedBy "," fun _ _ => parses_bytecodes).or parses_bytecodes.last ?_
  intro input rest run
  obtain ⟨more, rfl⟩ := bytecodeRun_letter run
  exact Fails.andThen (Or.inl (hexValue_error_of_letter more)) _

/-- Only the form without a flag can be incomplete. -/
theorem parseCommandListBody_incomplete_iff (input : Bytes) :
    parseCommandListBody input = .incomplete ↔ CutBytecodes input := by
  refine (altComplete_incomplete_iff [_] _ input).trans ?_
  rw [bytecodes_incomplete_iff]
  refine and_iff_right_of_imp fun cut flagged member => ?_
  rw [List.mem_singleton.mp member]
  rcases cut with rfl | ⟨rest, reads, length, rfl, _⟩
  · exact Or.inr rfl
  · -- what is cut off starts with the letter, and so does a list that leads there
    have letter : ∃ more, input = ascii "X" ++ more := by
      rcases Relation.ReflTransGen.cases_head reads with rfl | ⟨_, ⟨first, _, rfl, _⟩, _⟩
      · exact ⟨length, rfl⟩
      · exact ⟨first, rfl⟩
    obtain ⟨more, rfl⟩ := letter
    exact Or.inl rfl

/-- Nothing is read of what ends in `;cmds` or in a bytecode after it. -/
def CutCommands (input : Bytes) : Prop :=
  (input <+: ascii ";cmds" ∧ input ≠ ascii ";cmds") ∨ ∃ body, input = ascii ";cmds" ++ body ∧ CutBytecodes body

/-- A command list, or none where the input ends too early. -/
def CommandList : Grammar := fun input rest =>
  CutCommands input ∧ rest = input ∨ ∃ body, input = ascii ";cmds" ++ body ∧ CommandRun body rest

theorem parses_maybeCommandList : Parses maybeCommandList CommandList := by
  have list : Parses parseCommandList (CommandRun.after ";cmds") :=
    (parses_parseCommandListBody.preceded ";cmds" : Parses (preceded (literal ";cmds") parseCommandListBody) _)
  have cut (input : Bytes) : parseCommandList input = .incomplete ↔ CutCommands input := by
    simp only [parseCommandList, bind_apply, andThen_incomplete_iff, literal_incomplete_iff, literal_done_iff,
      parseCommandListBody_incomplete_iff, CutCommands]
    refine or_congr_right ⟨?_, ?_⟩
    · rintro ⟨body, _, ⟨rfl, _⟩, short⟩
      exact ⟨body, rfl, short⟩
    · rintro ⟨body, rfl, short⟩
      exact ⟨body, _, ⟨rfl, rfl⟩, short⟩
  intro input rest
  rw [CommandList, ← cut]
  refine Iff.trans ?_ (or_congr_right (list input rest))
  unfold maybeCommandList
  cases parseCommandList input <;> simp [eq_comm]

/-- The input is a command list, or it ends where one could still follow. -/
def CommandsReadable (input : Bytes) : Prop :=
  CutCommands input ∨ ∃ body rest, input = ascii ";cmds" ++ body ∧ CommandRun body rest

theorem maybeCommandList_done_iff (input : Bytes) :
    (∃ rest list, maybeCommandList input = .done rest list) ↔ CommandsReadable input := by
  simp only [parses_maybeCommandList input _, CommandList, CommandsReadable]
  constructor
  · rintro ⟨rest, ⟨cut, _⟩ | ⟨body, whole, run⟩⟩
    · exact Or.inl cut
    · exact Or.inr ⟨body, rest, whole, run⟩
  · rintro (cut | ⟨body, rest, whole, run⟩)
    · exact ⟨input, Or.inl ⟨cut, rfl⟩⟩
    · exact ⟨rest, Or.inr ⟨body, whole, run⟩⟩

/-- The lists after the kind of a breakpoint hold an oversized length among the conditions, or what
follows the conditions cannot be read as commands. -/
def ListsUnreadable (input : Bytes) : Prop :=
  (∃ rest, input = ascii ";" ++ rest ∧ BytecodeOverflow rest) ∨
    ∃ commands, Conditions input commands ∧ ¬CommandsReadable commands

theorem lists_panic_iff (input : Bytes) :
    unwrapDone parseCondAndCommandList input = .panic ↔ ListsUnreadable input := by
  -- the unwrap fails on the outcome of the command list alone
  have split (commands : Bytes) (cond : Option (List Bytecode))
      (read : maybeConditionList input = .done commands cond) :
      unwrapDone parseCondAndCommandList input = .panic ↔ ¬CommandsReadable commands := by
    rw [← maybeCommandList_done_iff]
    simp only [unwrapDone, parseCondAndCommandList, bind_apply, read, andThen_done, pure_apply]
    cases maybeCommandList commands <;> simp [IResult.andThen]
  simp only [ListsUnreadable, ← parseConditionList_panic_iff, ← parses_maybeConditionList _ _]
  by_cases bad : parseConditionList input = .panic
  · have panicked : maybeConditionList input = .panic := by rw [maybeConditionList, bad]
    simp [unwrapDone, parseCondAndCommandList, panicked, bad, IResult.andThen]
  · -- anything but a panic is read as some list or as none
    obtain ⟨commands, cond, read⟩ : ∃ commands cond, maybeConditionList input = .done commands cond := by
      unfold maybeConditionList
      cases h : parseConditionList input with
      | panic => exact absurd h bad
      | _ => exact ⟨_, _, rfl⟩
    rw [split commands cond read]
    simp only [bad, false_or, read, IResult.done.injEq]
    constructor
    · exact fun unreadable => ⟨commands, ⟨cond, rfl, rfl⟩, unreadable⟩
    · rintro ⟨_, ⟨_, rfl, _⟩, unreadable⟩
      exact unreadable

/-! ### Breakpoints and watchpoints -/

/-- The address or the kind does not fit in 64 bits, or the lists after them
are bad. -/
def ZOverflow (lists : Bytes → Prop) (input : Bytes) : Prop :=
  Oversized input ∨ ∃ next, Field input (ascii "," ++ next) ∧
    (Oversized next ∨ ∃ rest, Field next rest ∧ lists rest)

theorem zFields_panic_iff {β : Type} (g : UInt64 → UInt64 → Parser β) (lists : Bytes → Prop)
    (tail : ∀ addr kind rest, g addr kind rest = .panic ↔ lists rest) (input : Bytes) :
    (hexValue >>= fun addr => literal "," >>= fun _ => hexValue >>= fun kind => g addr kind) input =
      .panic ↔ ZOverflow lists input := by
  rw [hexValue_bind_panic_iff _ (fun rest => ∃ next, rest = ascii "," ++ next ∧
    (Oversized next ∨ ∃ final, Field next final ∧ lists final))]
  · constructor
    · rintro (oversized | ⟨_, field, next, rfl, later⟩)
      · exact Or.inl oversized
      · exact Or.inr ⟨next, field, later⟩
    · rintro (oversized | ⟨next, field, later⟩)
      · exact Or.inl oversized
      · exact Or.inr ⟨_, field, next, rfl, later⟩
  · intro addr rest
    simp only [literal_bind_panic_iff, hexValue_bind_panic_iff (g addr) lists (tail addr)]

/-- What follows the letter, the digit and the comma of a `z` or `Z` packet. -/
def zTail (action : ZAction) (type : ZType) : Parser Command := do
  let addr ← hexValue
  let _ ← literal ","
  let kind ← hexValue
  match action with
  | .insert => insertCommand type addr kind
  | .remove => pure (removeCommand type addr kind)

def zBadLists : ZAction → ZType → Bytes → Prop
  | .insert, .softwareBreakpoint => ListsUnreadable
  | .insert, .hardwareBreakpoint => ListsUnreadable
  | _, _ => fun _ => False

theorem zTail_panic_iff (action : ZAction) (type : ZType) (input : Bytes) :
    zTail action type input = .panic ↔ ZOverflow (zBadLists action type) input := by
  apply zFields_panic_iff
  intro addr kind rest
  cases action <;> cases type <;>
    simp [insertCommand, removeCommand, zBadLists, andThen_panic_iff, lists_panic_iff]

def ZAction.letter : ZAction → String
  | .insert => "Z"
  | .remove => "z"

def ZType.digit : ZType → String
  | .softwareBreakpoint => "0"
  | .hardwareBreakpoint => "1"
  | .writeWatchpoint => "2"
  | .readWatchpoint => "3"
  | .accessWatchpoint => "4"

theorem parseZAction_done_iff (input rest : Bytes) (action : ZAction) :
    parseZAction input = .done rest action ↔ input = ascii action.letter ++ rest := by
  constructor
  · intro done
    obtain ⟨p, member, found⟩ := altComplete_done_mem _ _ _ _ done
    simp only [List.mem_cons, List.not_mem_nil, or_false] at member
    rcases member with rfl | rfl
    all_goals
      obtain ⟨_, matched, rfl⟩ := (map_done_iff _ _ _ _ _).mp found
      exact ((literal_done_iff _ _ _ _).mp matched).1
  · rintro rfl
    cases action <;> rfl

theorem parseZType_done_iff (input rest : Bytes) (type : ZType) :
    parseZType input = .done rest type ↔ input = ascii type.digit ++ rest := by
  constructor
  · intro done
    obtain ⟨p, member, found⟩ := altComplete_done_mem _ _ _ _ done
    simp only [List.mem_cons, List.not_mem_nil, or_false] at member
    rcases member with rfl | rfl | rfl | rfl | rfl
    all_goals
      obtain ⟨_, matched, rfl⟩ := (map_done_iff _ _ _ _ _).mp found
      exact ((literal_done_iff _ _ _ _).mp matched).1
  · rintro rfl
    cases type <;> rfl

theorem quiet_parseZAction : Quiet parseZAction := by
  apply quiet_altComplete
  simp only [List.mem_cons, List.not_mem_nil, or_false, forall_eq_or_imp, forall_eq]
  exact ⟨quiet_map _ (quiet_literal _), quiet_map _ (quiet_literal _)⟩

theorem quiet_parseZType : Quiet parseZType := by
  apply quiet_altComplete
  simp only [List.mem_cons, List.not_mem_nil, or_false, forall_eq_or_imp, forall_eq]
  exact ⟨quiet_map _ (quiet_literal _), quiet_map _ (quiet_literal _),
    quiet_map _ (quiet_literal _), quiet_map _ (quiet_literal _), quiet_map _ (quiet_literal _)⟩

def zName (action : ZAction) (type : ZType) : String := action.letter ++ type.digit ++ ","

theorem parseZPacket_name (action : ZAction) (type : ZType) (rest : Bytes) :
    parseZPacket (ascii (zName action type) ++ rest) = zTail action type rest := by
  cases action <;> cases type <;> rfl

/-- What does not start with a name is no such packet. -/
theorem parseZPacket_named {input : Bytes} (taken : ¬Fails (parseZPacket input)) :
    ∃ action type rest, input = ascii (zName action type) ++ rest := by
  by_contra unnamed
  apply taken
  refine bind_fails quiet_parseZAction fun afterAction action isAction => ?_
  refine bind_fails quiet_parseZType fun afterType type isType => ?_
  refine bind_fails (quiet_literal _) fun rest t comma => ?_
  rw [parseZAction_done_iff] at isAction
  rw [parseZType_done_iff] at isType
  have name := ((literal_done_iff _ _ _ _).mp comma).1
  refine absurd ⟨action, type, rest, ?_⟩ unnamed
  rw [isAction, isType, name, zName, ascii_append, ascii_append, List.append_assoc, List.append_assoc]

theorem parseZPacket_panic_iff (input : Bytes) : parseZPacket input = .panic ↔
    ∃ action type rest, input = ascii (zName action type) ++ rest ∧
      ZOverflow (zBadLists action type) rest := by
  constructor
  · intro panicked
    obtain ⟨action, type, rest, rfl⟩ := parseZPacket_named (by rw [panicked]; simp [Fails])
    rw [parseZPacket_name, zTail_panic_iff] at panicked
    exact ⟨action, type, rest, rfl, panicked⟩
  · rintro ⟨action, type, rest, rfl, bad⟩
    rw [parseZPacket_name, zTail_panic_iff]
    exact bad

def zCrashes : CrashTable := [
  ("z0,", FieldOverflow [","]),
  ("z1,", FieldOverflow [","]),
  ("z2,", FieldOverflow [","]),
  ("z3,", FieldOverflow [","]),
  ("z4,", FieldOverflow [","]),
  ("Z0,", ZOverflow ListsUnreadable),
  ("Z1,", ZOverflow ListsUnreadable),
  ("Z2,", FieldOverflow [","]),
  ("Z3,", FieldOverflow [","]),
  ("Z4,", FieldOverflow [","])]

theorem zOverflow_none (input : Bytes) :
    ZOverflow (fun _ => False) input ↔ FieldOverflow [","] input := by
  simp [ZOverflow, FieldOverflow]

theorem exists_zAction_iff (p : ZAction → Prop) : (∃ a, p a) ↔ p .remove ∨ p .insert :=
  ⟨fun ⟨a, h⟩ => by cases a <;> simp [h], by rintro (h | h) <;> exact ⟨_, h⟩⟩

theorem exists_zType_iff (p : ZType → Prop) : (∃ t, p t) ↔ p .softwareBreakpoint ∨ p .hardwareBreakpoint ∨
    p .writeWatchpoint ∨ p .readWatchpoint ∨ p .accessWatchpoint :=
  ⟨fun ⟨t, h⟩ => by cases t <;> simp [h], by rintro (h | h | h | h | h) <;> exact ⟨_, h⟩⟩

theorem parseZPacket_panicsOn : PanicsOn parseZPacket zCrashes := by
  intro input
  rw [parseZPacket_panic_iff]
  simp only [exists_zAction_iff, exists_zType_iff, zBadLists, zOverflow_none, Listed, zCrashes, List.mem_cons,
    List.not_mem_nil, or_false, exists_eq_or_imp, exists_eq_left, or_assoc]
  rfl

/-! ### All requests -/

/-- For every packet that can make the parser panic, its name and the
continuations of the name that do. -/
def crashTable : CrashTable :=
  [("D;", FieldOverflow []), ("Hg", ThreadOverflow), ("Hc", ThreadOverflow),
    ("m", FieldOverflow [","]), ("M", FieldOverflow [","]), ("p", FieldOverflow []),
    ("P", FieldOverflow [])] ++ queryCrashes ++ [("T", ThreadOverflow)] ++ vCrashes ++
    [("X", FieldOverflow [","])] ++ zCrashes

theorem quiet_allStopCommand : Quiet allStopCommand := by
  intro input
  simp [allStopCommand]

theorem command_panicsOn : PanicsOn command crashTable := by
  have name (f : Bytes → Command) (s : String) : PanicsOn (f <$> literal s) [] :=
    (quiet_map f (quiet_literal s)).panicsOn
  refine PanicsOn.alt
    (.cons (name _ "!") <|
    .cons (name _ "?") <|
    .cons (.map _ parseDPacket_panicsOn) <|
    .cons (name _ "g") <|
    .cons (quiet_map _ quiet_writeGeneralRegisters).panicsOn <|
    .cons (.map _ parseHPacket_panicsOn) <|
    .cons (name _ "k") <|
    .cons (.map _ readMemory_panicsOn) <|
    .cons (.map _ (writeMemoryWith_panicsOn "M" _ quiet_hexByteSequence)) <|
    .cons (.map _ readRegister_panicsOn) <|
    .cons (.map _ writeRegister_panicsOn) <|
    .cons (.map _ query_panicsOn) <|
    .cons (name _ "r") <|
    .cons (quiet_map _ (quiet_preceded (quiet_literal "R") (quiet_take 2))).panicsOn <|
    .cons (.map _ parsePingThread_panicsOn) <|
    .cons vCommand_panicsOn <|
    .cons (.map _ (writeMemoryWith_panicsOn "X" _ quiet_binaryByteSequence)) <|
    .cons parseZPacket_panicsOn <|
    .cons quiet_allStopCommand.panicsOn .nil) ?_
  -- every packet is told from the later ones by its first byte
  refine @Apart.of_first _ _ _ [[], [], ['D'.toUInt8], [], [], ['H'.toUInt8], [], ['m'.toUInt8], ['M'.toUInt8],
    ['p'.toUInt8], ['P'.toUInt8], ['q'.toUInt8, 'Q'.toUInt8], [], [], ['T'.toUInt8], ['v'.toUInt8], ['X'.toUInt8],
    ['z'.toUInt8, 'Z'.toUInt8], []] ?_ ?_
  · repeat' first | exact .nil | apply List.Forall₂.cons
    all_goals decide
  · repeat' first | exact .nil | apply ApartByFirst.cons
    all_goals
      simp only [List.flatten_cons, List.flatten_nil, List.nil_append, List.cons_append, List.forall_mem_cons]
      repeat' first | exact fun _ => rfl | apply And.intro | exact fun _ member => absurd member List.not_mem_nil

/-- The parser comes back with one of nom's three results. -/
def Returned {α : Type} (result : IResult α) : Prop :=
  (∃ rest a, result = .done rest a) ∨ result = .incomplete ∨ result = .error

theorem returned_iff {α : Type} (result : IResult α) : Returned result ↔ result ≠ .panic := by
  cases result <;> simp [Returned]

/-- A command list that is cut off is none, and no panic. -/
example : command (ascii "Z0,1,1;cmds") = .done (ascii ";cmds") (.insertSoftwareBreakpoint ⟨1, 1, none, none⟩) := by
  decide

end GdbRemote
