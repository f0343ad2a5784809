import CkbDebugger.GdbRemote.Arguments
import CkbDebugger.GdbRemote.Reply

/-!
# Packets that are not read to their end

`handle_packet` drops what `command` has left of a payload, and serves the request that was read from its
front. `leftoverTable` lists, packet by packet, what has to follow the name of a request for it to be served
with a part of the payload unread.
-/
namespace GdbRemote

open Nom

/-! ### Names that start other names -/

/-- More follows a name, and not the mark with a number that makes it another name. -/
def Bare (mark : String) (rest : Bytes) : Prop := rest ≠ [] ∧ NoNumberAfter mark rest

section Bare

variable {α β γ : Type} {s mark full : String} (joined : ascii full = ascii s ++ ascii mark)
include joined

theorem numbered_fails_iff (f : UInt64 → α) (rest : Bytes) :
    Fails ((f <$> preceded (literal full) hexValue) (ascii s ++ rest)) ↔ NoNumberAfter mark rest := by
  rw [map_fails_iff (preceded_hexValue_fails_iff full)]
  simp only [NoNumberAfter, UnreadAfter, joined, List.append_assoc, List.append_cancel_left_eq]

theorem numbered_passes (f : UInt64 → α) (rest : Bytes) (bare : Bare mark rest) :
    Fails ((f <$> preceded (literal full) hexValue) (ascii s ++ rest)) :=
  (numbered_fails_iff joined f rest).mpr bare.2

theorem bare_leaves_iff {keep : β → Prop} {f : UInt64 → α} {g : Bytes → β} (all : ∀ t, keep (g t)) {input : Bytes}
    (failed : Fails ((f <$> preceded (literal full) hexValue) input)) :
    Leaves keep (g <$> literal s) input ↔ Listed [(s, Bare mark)] input := by
  rw [LeavesOn.name s all input, listed_singleton, listed_singleton]
  constructor
  · rintro ⟨rest, rfl, nonempty⟩
    exact ⟨rest, rfl, nonempty, (numbered_fails_iff joined f rest).mp failed⟩
  · rintro ⟨rest, rfl, nonempty, _⟩
    exact ⟨rest, rfl, nonempty⟩

end Bare

/-! ### Threads and detaching -/

theorem parseDPacket_leavesOn {keep : Option UInt64 → Prop} (all : ∀ pid, keep pid) :
    LeavesOn keep parseDPacket [("D;", Number.Trailing), ("D", Bare ";")] := by
  refine LeavesOn.altComplete
    (.add (.map _ (.preceded "D;" parses_hexValue fun _ => all _)) ?_ <|
    .cons (fun input reached => bare_leaves_iff (by decide) (fun _ => all _) reached.2) ?_ .nil)
  · exact .cons (numbered_passes (by decide) _) (.nil _)
  · exact .nil _

theorem parseHPacket_leavesOn {keep : SetThreadFor × ThreadId → Prop} (all : ∀ pair, keep pair) :
    LeavesOn keep parseHPacket [("Hg", Thread.Trailing), ("Hc", Thread.Trailing)] := by
  refine LeavesOn.altComplete
    (.add (.map _ (.preceded "Hg" parses_parseThreadId fun _ => all _)) ?_ <|
    .add (.map _ (.preceded "Hc" parses_parseThreadId fun _ => all _)) ?_ .nil)
  · exact .cons (fun _ _ => Or.inl rfl) (.nil _)
  · exact .nil _

/-! ### Memory -/

theorem writeMemory_leavesOn {keep : UInt64 × UInt64 × Bytes → Prop} (all : ∀ write, keep write) :
    LeavesOn keep writeMemory [("M", (Number.followedBy "," (Number.followedBy ":" HexRun)).Trailing)] := by
  apply LeavesOn.complete
  apply LeavesOn.arguments
  · intro _
    refine parses_hexValue.followedBy "," fun address _ => ?_
    refine parses_hexValue.followedBy ":" fun length _ => ?_
    exact parses_hexByteSequence.bind_pure _
  · exact fun _ => gives_of_forall all _

/-! ### Queries -/

def queryLeftovers : CrashTable := [
  ("qC", fun rest => rest ≠ []),
  ("qSupported:", FeatureList.Trailing),
  ("qRcmd,", HexRun.Trailing),
  ("qSearch:memory:", (Number.followedBy ";" (Number.followedBy ";" HexRun)).Trailing),
  ("QStartNoAckMode", fun rest => rest ≠ []),
  ("qAttached:", Number.Trailing),
  ("qAttached", Bare ":"),
  ("qfThreadInfo", fun rest => rest ≠ []),
  ("qsThreadInfo", fun rest => rest ≠ []),
  ("QDisableRandomization:0", fun rest => rest ≠ []),
  ("QDisableRandomization:1", fun rest => rest ≠ []),
  ("QCatchSyscalls:0", fun rest => rest ≠ []),
  ("QCatchSyscalls:1", SyscallList.Trailing),
  ("QPassSignals:", (SignalList.optional NoDigit).Trailing),
  ("QProgramSignals:", SignalList.Trailing),
  ("qThreadExtraInfo,", Thread.Trailing),
  ("qXfer:", (Name.followedBy ":read:" (Name.followedBy ":" (Number.followedBy "," Number))).Trailing)]

theorem qSearchMemory_leavesOn {keep : UInt64 × UInt64 × Bytes → Prop} (all : ∀ search, keep search) :
    LeavesOn keep qSearchMemory
      [("qSearch:memory:", (Number.followedBy ";" (Number.followedBy ";" HexRun)).Trailing)] := by
  apply LeavesOn.complete
  apply LeavesOn.arguments
  · intro _
    refine parses_hexValue.followedBy ";" fun address _ => ?_
    refine parses_hexValue.followedBy ";" fun length _ => ?_
    exact parses_hexByteSequence.bind_pure _
  · exact fun _ => gives_of_forall all _

theorem qSymbol_leavesOn (keep : String × String → Prop) : LeavesOn keep qSymbol [] := by
  apply leavesOn_nil
  intro input rest symbol done left _
  obtain ⟨middle, value, _, found⟩ := (andThen_done_iff _ _ _ _).mp done
  obtain ⟨_, name, ended, same⟩ := (andThen_done_iff _ _ _ _).mp found
  cases same
  obtain ⟨text, rfl, final⟩ := (preceded_literal_done_iff _ _ _ _ _).mp ended
  obtain ⟨bytes, empty, _⟩ := (mapRes_done_iff _ _ _ _ _).mp final
  -- the name is read with `eof!`
  simp only [eof] at empty
  split at empty
  · cases empty
    exact left rfl
  · cases empty

theorem qXfer_leavesOn {keep : String × String × UInt64 × UInt64 → Prop} (all : ∀ read, keep read) :
    LeavesOn keep qXfer
      [("qXfer:", (Name.followedBy ":read:" (Name.followedBy ":" (Number.followedBy "," Number))).Trailing)] := by
  simp only [qXfer, preceded, parser_bind_assoc]
  apply LeavesOn.arguments
  · intro _
    refine parses_name.followedBy ":read:" fun object _ => ?_
    refine parses_name.followedBy ":" fun annex _ => ?_
    refine parses_hexValue.followedBy "," fun offset _ => ?_
    exact parses_hexValue.bind_pure _
  · exact fun _ => gives_of_forall all _

theorem query_leavesOn {keep : Query → Prop} (all : ∀ q, keep q) : LeavesOn keep query queryLeftovers := by
  refine LeavesOn.altComplete
    (.add (.name "qC" fun _ => all _) ?_ <|
    .add (.map _ (.under "qSupported" (.preceded ":" parses_features fun _ => all _))) ?_ <|
    .add (.map _ (.preceded "qRcmd," parses_hexByteSequence fun _ => all _)) ?_ <|
    .add (.map _ (qSearchMemory_leavesOn fun _ => all _)) ?_ <|
    .add (.name "QStartNoAckMode" fun _ => all _) ?_ <|
    .add (.map _ (.preceded "qAttached:" parses_hexValue fun _ => all _)) ?_ <|
    .cons (fun _ reached => bare_leaves_iff (by decide) (fun _ => all _) reached.2) ?_ <|
    .add (.name "qfThreadInfo" fun _ => all _) ?_ <|
    .add (.name "qsThreadInfo" fun _ => all _) ?_ <|
    .add (.name "QDisableRandomization:0" fun _ => all _) ?_ <|
    .add (.name "QDisableRandomization:1" fun _ => all _) ?_ <|
    .add (.name "QCatchSyscalls:0" fun _ => all _) ?_ <|
    .add (.map _ (.preceded "QCatchSyscalls:1" parses_syscalls fun _ => all _)) ?_ <|
    .add (.map _ (.preceded "QPassSignals:" parses_passSignals fun _ => all _)) ?_ <|
    .add (.map _ (.preceded "QProgramSignals:" parses_programSignals fun _ => all _)) ?_ <|
    .add (.map _ (.preceded "qThreadExtraInfo," parses_parseThreadId fun _ => all _)) ?_ <|
    .add (.map _ (qSymbol_leavesOn _)) ?_ <|
    .add (.map _ (qXfer_leavesOn fun _ => all _)) ?_ <|
    .add (leavesOn_of_error fun _ => rfl) ?_ .nil)
  all_goals
    repeat' first | exact .nil _ | apply PassesOn.cons fun _ _ => Or.inl rfl |
      apply PassesOn.cons (numbered_passes (by decide) _)

/-! ### Requests that do something -/

/-- The request is not answered with the empty reply alone. -/
def Command.Acts : Command → Prop
  | .reset => False
  | .ctrlC => False
  | .unknownVCommand => False
  | _ => True

/-! ### Host file operations -/

def vfileLeftovers : CrashTable := [
  ("open:", (HexRun.followedBy "," (Number.followedBy "," Number)).Trailing),
  ("close:", Number.Trailing),
  ("pread:", (Number.followedBy "," (Number.followedBy "," Number)).Trailing),
  ("fstat:", Number.Trailing),
  ("unlink:", HexRun.Trailing),
  ("readlink:", HexRun.Trailing),
  ("setfs:", Number.Trailing)]

theorem parseVfileOpen_leavesOn : LeavesOn Command.Acts parseVfileOpen
    [("open:", (HexRun.followedBy "," (Number.followedBy "," Number)).Trailing)] := by
  apply LeavesOn.arguments
  · intro _
    refine parses_hexByteSequence.followedBy "," fun filename _ => ?_
    refine parses_hexValue.followedBy "," fun flags _ => ?_
    exact parses_hexValue.bind_pure _
  · exact fun _ => gives_bind fun _ => gives_bind fun _ => gives_bind fun _ => gives_bind fun _ =>
      gives_map fun _ => trivial

theorem parseVfilePread_leavesOn : LeavesOn Command.Acts parseVfilePread
    [("pread:", (Number.followedBy "," (Number.followedBy "," Number)).Trailing)] := by
  apply LeavesOn.arguments
  · intro _
    refine parses_hexValue.followedBy "," fun fd _ => ?_
    refine parses_hexValue.followedBy "," fun count _ => ?_
    exact parses_hexValue.bind_pure _
  · exact fun _ => gives_bind fun _ => gives_bind fun _ => gives_bind fun _ => gives_bind fun _ =>
      gives_map fun _ => trivial

/-- The data are binary and go to the end. -/
theorem parseVfilePwrite_leavesOn : LeavesOn Command.Acts parseVfilePwrite [] := by
  apply leavesOn_nil
  intro input rest cmd done left _
  simp only [parseVfilePwrite, bind_apply, andThen_done_iff, pure_apply, IResult.done.injEq] at done
  obtain ⟨_, _, _, _, _, _, _, _, _, _, _, _, _, _, _, _, data, read, rfl, _⟩ := done
  exact left (binaryByteSequence_whole read)

theorem parseVfileOp_leavesOn : LeavesOn Command.Acts parseVfileOp vfileLeftovers := by
  have number (f : UInt64 → Command) (acts : ∀ v, (f v).Acts) (s : String) :
      LeavesOn Command.Acts (do let _ ← literal s; let v ← hexValue; return f v) [(s, Number.Trailing)] :=
    .arguments s (fun _ => parses_hexValue.bind_pure f) fun _ => gives_map acts
  have name (f : Bytes → Command) (acts : ∀ filename, (f filename).Acts) (s : String) :
      LeavesOn Command.Acts (do let _ ← literal s; let filename ← hexByteSequence; return f filename)
        [(s, HexRun.Trailing)] :=
    .arguments s (fun _ => parses_hexByteSequence.bind_pure f) fun _ => gives_map acts
  -- an operation that is not known is read whole
  have unknown : LeavesOn Command.Acts parseUnknownVfileOp [] := by
    apply leavesOn_nil
    intro input rest cmd done left _
    cases done
    exact left rfl
  refine LeavesOn.altComplete
    (.add parseVfileOpen_leavesOn ?_ <|
    .add (number .hostClose (fun _ => trivial) "close:") ?_ <|
    .add parseVfilePread_leavesOn ?_ <|
    .add parseVfilePwrite_leavesOn ?_ <|
    .add (number .hostFStat (fun _ => trivial) "fstat:") ?_ <|
    .add (name .hostUnlink (fun _ => trivial) "unlink:") ?_ <|
    .add (name .hostReadlink (fun _ => trivial) "readlink:") ?_ <|
    .add (number .hostSetFS (fun _ => trivial) "setfs:") ?_ <|
    .add unknown ?_ .nil)
  all_goals
    repeat' first | exact .nil _ | apply PassesOn.cons fun _ _ => Or.inl rfl

/-! ### The `v` packets -/

/-- What is not the question for the actions is a list of actions, be it empty. -/
def ActionsLeft (rest : Bytes) : Prop := ¬ascii "?" <+: rest ∧ ActionList.Trailing rest

def vLeftovers : CrashTable :=
  [("vCont?", fun rest => rest ≠ []), ("vCont", ActionsLeft), ("vKill;", Number.Trailing)] ++
    vfileLeftovers.map fun entry => ("vFile:" ++ entry.1, entry.2)

theorem vCont_leavesOn : LeavesOn Command.Acts
    (altComplete [(fun _ => .vContSupported) <$> literal "?", Command.vCont <$> many0 vContEntry])
    [("?", fun rest => rest ≠ []), ("", ActionsLeft)] := by
  have question : LeavesOn Command.Acts ((fun _ => .vContSupported) <$> literal "?") [("?", fun rest => rest ≠ [])] :=
    .name "?" fun _ => trivial
  have actions : ∀ input, True ∧ Fails (((fun _ => .vContSupported) <$> literal "?" : Parser Command) input) →
      (Leaves Command.Acts (Command.vCont <$> many0 vContEntry) input ↔ Listed [("", ActionsLeft)] input) := by
    rintro input ⟨_, failed⟩
    have notQuestion : ¬ascii "?" <+: input := by
      rintro ⟨rest, rfl⟩
      simp [Fails, literal_append] at failed
    rw [(parses_actions.map Command.vCont).leaves_iff (gives_map fun _ => trivial) input, listed_singleton]
    constructor
    · intro left
      exact ⟨input, rfl, notQuestion, left⟩
    · rintro ⟨rest, rfl, _, left⟩
      exact left
  refine LeavesOn.altComplete (.add question ?_ <| .cons actions (.nil _) .nil)
  refine .cons (fun rest left => ?_) (.nil _)
  exact Fails.andThen (literal_fails "?" rest left.1) _

theorem vCommand_leavesOn : LeavesOn Command.Acts vCommand vLeftovers := by
  have interrupt : LeavesOn Command.Acts ((fun _ => .ctrlC) <$> literal "vCtrlC") [] := by
    apply leavesOn_nil
    intro input rest cmd done _ acts
    obtain ⟨_, _, rfl⟩ := (map_done_iff _ _ _ _ _).mp done
    exact acts
  have unknown : LeavesOn Command.Acts ((fun _ => .unknownVCommand) <$> preceded (literal "v") takeRest) [] := by
    apply leavesOn_nil
    intro input rest cmd done _ acts
    obtain ⟨_, _, rfl⟩ := (map_done_iff _ _ _ _ _).mp done
    exact acts
  have kill : LeavesOn Command.Acts ((fun pid => .kill (some pid)) <$> preceded (literal "vKill;") hexValue)
      [("vKill;", Number.Trailing)] := .map _ (.preceded "vKill;" parses_hexValue fun _ => trivial)
  refine LeavesOn.altComplete
    (.add interrupt ?_ <|
    .add (.under "vCont" vCont_leavesOn) ?_ <|
    .add kill ?_ <|
    .add (.under "vFile:" parseVfileOp_leavesOn) ?_ <|
    .add unknown ?_ .nil)
  all_goals
    repeat' first | exact .nil _ | apply PassesOn.cons fun _ _ => Or.inl rfl

/-! ### Breakpoints and watchpoints -/

def zLeftovers : CrashTable := [
  ("z0,", (Number.followedBy "," Number).Trailing),
  ("z1,", (Number.followedBy "," Number).Trailing),
  ("z2,", (Number.followedBy "," Number).Trailing),
  ("z3,", (Number.followedBy "," Number).Trailing),
  ("z4,", (Number.followedBy "," Number).Trailing),
  ("Z0,", (Number.followedBy "," (Number.seq Lists)).Trailing),
  ("Z1,", (Number.followedBy "," (Number.seq Lists)).Trailing),
  ("Z2,", (Number.followedBy "," Number).Trailing),
  ("Z3,", (Number.followedBy "," Number).Trailing),
  ("Z4,", (Number.followedBy "," Number).Trailing)]

theorem zTail_gives (action : ZAction) (type : ZType) : Gives Command.Acts (zTail action type) := by
  refine gives_bind fun addr => gives_bind fun _ => gives_bind fun kind => ?_
  cases action with
  | remove => cases type <;> exact gives_pure trivial
  | insert =>
    cases type with
    | softwareBreakpoint => exact gives_map fun _ => trivial
    | hardwareBreakpoint => exact gives_map fun _ => trivial
    | writeWatchpoint => exact gives_pure trivial
    | readWatchpoint => exact gives_pure trivial
    | accessWatchpoint => exact gives_pure trivial

theorem parseZPacket_leaves_iff (input : Bytes) : Leaves Command.Acts parseZPacket input ↔
    ∃ action type rest, input = ascii (zName action type) ++ rest ∧
      (Number.followedBy "," (Number.seq (zRest action type))).Trailing rest := by
  have named (action : ZAction) (type : ZType) (rest : Bytes) :
      Leaves Command.Acts parseZPacket (ascii (zName action type) ++ rest) ↔
        (Number.followedBy "," (Number.seq (zRest action type))).Trailing rest := by
    rw [← (parses_zTail action type).leaves_iff (zTail_gives action type)]
    simp only [Leaves, parseZPacket_name]
  constructor
  · intro left
    obtain ⟨action, type, rest, rfl⟩ := parseZPacket_named fun failed => not_leaves_of_fails failed left
    exact ⟨action, type, rest, rfl, (named action type rest).mp left⟩
  · rintro ⟨action, type, rest, rfl, trailing⟩
    exact (named action type rest).mpr trailing

theorem seq_eq (g : Grammar) : g.seq Eq = g := by
  funext input rest
  simp [Grammar.seq]

theorem parseZPacket_leavesOn : LeavesOn Command.Acts parseZPacket zLeftovers := by
  intro input
  rw [parseZPacket_leaves_iff]
  simp only [exists_zAction_iff, exists_zType_iff, zRest, seq_eq, Listed, zLeftovers, List.mem_cons,
    List.not_mem_nil, or_false, exists_eq_or_imp, exists_eq_left, or_assoc]
  rfl

/-! ### All requests -/

/-- For every packet that can be served with a part of it unread, its name and the continuations of the name
that are not read to their end. -/
def leftoverTable : CrashTable :=
  [("!", fun rest => rest ≠ []), ("?", fun rest => rest ≠ []), ("D;", Number.Trailing), ("D", Bare ";"),
    ("g", fun rest => rest ≠ []), ("G", HexRun.Trailing), ("Hg", Thread.Trailing), ("Hc", Thread.Trailing),
    ("k", fun rest => rest ≠ []), ("m", (Number.followedBy "," Number).Trailing),
    ("M", (Number.followedBy "," (Number.followedBy ":" HexRun)).Trailing), ("p", Number.Trailing),
    ("P", (Number.followedBy "=" HexRun).Trailing)] ++
    queryLeftovers ++ [("T", Thread.Trailing)] ++ vLeftovers ++ zLeftovers

/-- The data of a binary write go to the end. -/
theorem writeMemoryBinary_leavesOn (keep : UInt64 × UInt64 × Bytes → Prop) : LeavesOn keep writeMemoryBinary [] := by
  apply leavesOn_nil
  intro input rest write done left _
  simp only [writeMemoryBinary, writeMemoryWith, complete_done_iff, bind_apply, andThen_done_iff, pure_apply,
    IResult.done.injEq] at done
  obtain ⟨_, _, _, _, _, _, _, _, _, _, _, _, _, _, _, _, data, read, rfl, _⟩ := done
  exact left (binaryByteSequence_whole read)

theorem command_leavesOn : LeavesOn Command.Acts command leftoverTable := by
  have name (f : Bytes → Command) (acts : ∀ t, (f t).Acts) (s : String) :
      LeavesOn Command.Acts (f <$> literal s) [(s, fun rest => rest ≠ [])] := .name s acts
  have reset (p : Parser Bytes) : LeavesOn Command.Acts ((fun _ => .reset) <$> p) [] := by
    apply leavesOn_nil
    intro input rest cmd done _ acts
    obtain ⟨_, _, rfl⟩ := (map_done_iff _ _ _ _ _).mp done
    exact acts
  have arguments {α : Type} (f : α → Command) (acts : ∀ a, (f a).Acts) (s : String) {p : Parser α} {g : Grammar}
      (parses : Parses p g) : LeavesOn Command.Acts (f <$> preceded (literal s) p) [(s, g.Trailing)] :=
    .map f (.preceded s parses acts)
  have pair : Parses (separatedPair hexValue (literal ",") hexValue) (Number.followedBy "," Number) :=
    parses_hexValue.separatedPair "," parses_hexValue
  refine LeavesOn.alt
    (.cons (name _ (by exact fun _ => trivial) "!") <|
    .cons (name _ (by exact fun _ => trivial) "?") <|
    .cons (.map _ (parseDPacket_leavesOn (by exact fun _ => trivial))) <|
    .cons (name _ (by exact fun _ => trivial) "g") <|
    .cons (arguments _ (by exact fun _ => trivial) "G" parses_hexByteSequence) <|
    .cons (.map _ (parseHPacket_leavesOn (by exact fun _ => trivial))) <|
    .cons (name _ (by exact fun _ => trivial) "k") <|
    .cons (arguments _ (by exact fun _ => trivial) "m" pair) <|
    .cons (.map _ (writeMemory_leavesOn (by exact fun _ => trivial))) <|
    .cons (arguments _ (by exact fun _ => trivial) "p" parses_hexValue) <|
    .cons (arguments _ (by exact fun _ => trivial) "P" (parses_hexValue.separatedPair "=" parses_hexByteSequence)) <|
    .cons (.map _ (query_leavesOn (by exact fun _ => trivial))) <|
    .cons (reset _) <|
    .cons (reset _) <|
    .cons (arguments _ (by exact fun _ => trivial) "T" parses_parseThreadId) <|
    .cons vCommand_leavesOn <|
    .cons (.map _ (writeMemoryBinary_leavesOn _)) <|
    .cons parseZPacket_leavesOn <|
    .cons (leavesOn_of_error fun _ => rfl) .nil) ?_
  -- every packet is told from the later ones by its first byte
  refine @Apart.of_first _ _ _ [['!'.toUInt8], ['?'.toUInt8], ['D'.toUInt8], ['g'.toUInt8], ['G'.toUInt8],
    ['H'.toUInt8], ['k'.toUInt8], ['m'.toUInt8], ['M'.toUInt8], ['p'.toUInt8], ['P'.toUInt8],
    ['q'.toUInt8, 'Q'.toUInt8], [], [], ['T'.toUInt8], ['v'.toUInt8], [], ['z'.toUInt8, 'Z'.toUInt8], []] ?_ ?_
  · repeat' first | exact .nil | apply List.Forall₂.cons
    all_goals decide
  · repeat' first | exact .nil | apply ApartByFirst.cons
    all_goals
      simp only [List.flatten_cons, List.flatten_nil, List.nil_append, List.cons_append, List.forall_mem_cons]
      repeat' first | exact fun _ => rfl | apply And.intro | exact fun _ member => absurd member List.not_mem_nil

/-! ### What a request does -/

section Serving

variable {σ α β : Type}

/-- The code calls the handler, even if it panics then. -/
def Service.Calls (service : Service σ α) : Prop :=
  ∀ server, server.calls.length < (service.runOn server).2.calls.length

theorem calls_call (h : Handler σ) (call : HandlerCall) : (h.call call).Calls := by
  intro server
  rw [runOn_call]
  cases h call server.handler <;> simp

theorem calls_bind {first : Service σ α} {next : α → Service σ β} (begins : first.Calls)
    (goesOn : ∀ a server, server.calls.length ≤ ((next a).runOn server).2.calls.length) : (first >>= next).Calls := by
  intro server
  have called := begins server
  rw [runOn_bind]
  cases ran : first.runOn server with
  | mk result middle =>
    rw [ran] at called
    cases result with
    | none => exact called
    | some a => exact Nat.lt_of_lt_of_le called (goesOn a middle)

theorem calls_reply (h : Handler σ) (call : HandlerCall) (reply : call.Result → Response) :
    (do return reply (← h.call call) : Service σ Response).Calls :=
  calls_bind (calls_call h call) fun _ _ => Nat.le_refl _

theorem calls_fsReply (h : Handler σ) {operation : Service σ (IOResult α)} (into : α → HostIOResult)
    (calls : operation.Calls) :
    (do return .fromIOResult into (← fsAndThen h operation) : Service σ Response).Calls := by
  refine calls_bind (calls_bind (calls_call h .fs) fun present server => ?_) fun _ _ => Nat.le_refl _
  cases present with
  | true => exact Nat.le_of_lt (calls server)
  | false => exact Nat.le_refl _

theorem handleQuery_effect (h : Handler σ) (q : Query) : q = .startNoAckMode ∨ (handleQuery h q).Calls := by
  cases q
  case startNoAckMode => exact Or.inl rfl
  all_goals exact Or.inr (calls_reply h _ _)

/-- A request that acts calls the handler, or it is answered at once with something. -/
theorem handleCommand_effect (h : Handler σ) {cmd : Command} (acts : cmd.Acts) :
    (handleCommand h cmd).Calls ∨ handleCommand h cmd = pure .ok ∨ handleCommand h cmd = pure (.error 1) := by
  cases cmd
  case reset | ctrlC | unknownVCommand => exact absurd acts id
  case enableExtendedMode => exact Or.inr (Or.inl rfl)
  case query q =>
    rcases handleQuery_effect h q with rfl | calls
    · exact Or.inr (Or.inl rfl)
    · exact Or.inl calls
  case kill pid =>
    cases pid with
    | none => exact Or.inl (calls_reply h _ _)
    | some pid => exact Or.inl (calls_reply h _ _)
  case writeMemory region bytes =>
    simp only [handleCommand]
    split
    · exact Or.inr (Or.inr rfl)
    · exact Or.inl (calls_reply h _ _)
  case hostOpen | hostClose | hostPRead | hostPWrite | hostFStat | hostUnlink | hostReadlink | hostSetFS =>
    exact Or.inl (calls_fsReply h _ (calls_call h _))
  all_goals exact Or.inl (calls_reply h _ _)

/-- `handle_packet` calls a method of the handler, or it replies something else than the empty packet. -/
def HasEffect (h : Handler σ) (server : Server σ) (data : Bytes) : Prop :=
  ((handlePacket h data).runOn server).2.calls ≠ server.calls ∨
    (((handlePacket h data).runOn server).2.output ≠ server.output ∧
      ((handlePacket h data).runOn server).2.output ≠ server.output ++ framed [])

/-- Only a payload that is read to its end has an effect. -/
def OnlyWhole (h : Handler σ) (server : Server σ) (data : Bytes) : Prop :=
  HasEffect h server data → ∃ cmd, command data = .done [] cmd

theorem handlePacket_done (h : Handler σ) {data rest : Bytes} {cmd : Command} (parsed : command data = .done rest cmd) :
    handlePacket h data = (do
      let response ← handleCommand h cmd
      write (writeResponse response)
      return cmd = .query .startNoAckMode) := by
  simp only [handlePacket, parsed]

/-- A reply that is made without a call. -/
theorem handlePacket_pure {h : Handler σ} {data rest : Bytes} {cmd : Command} {response : Response}
    (parsed : command data = .done rest cmd) (made : handleCommand h cmd = pure response) (server : Server σ) :
    ((handlePacket h data).runOn server).2 = { server with output := server.output ++ writeResponse response } := by
  rw [handlePacket_done h parsed, made]
  rfl

theorem not_hasEffect_of_empty {h : Handler σ} {server : Server σ} {data : Bytes}
    (ran : ((handlePacket h data).runOn server).2 = { server with output := server.output ++ writeResponse .empty }) :
    ¬HasEffect h server data := by
  have same : writeResponse .empty = framed [] := by decide
  unfold HasEffect
  rw [ran]
  simp [same]

/-- Whatever is left unread, the requests that act have an effect, and the others have none. -/
theorem hasEffect_iff_acts (h : Handler σ) (server : Server σ) {data rest : Bytes} {cmd : Command}
    (parsed : command data = .done rest cmd) : HasEffect h server data ↔ cmd.Acts := by
  have answered {response : Response} (made : handleCommand h cmd = pure response)
      (differs : writeResponse response ≠ [] ∧ writeResponse response ≠ framed []) : HasEffect h server data := by
    unfold HasEffect
    rw [handlePacket_pure parsed made]
    exact Or.inr ⟨by simpa using differs.1, by simpa using differs.2⟩
  have silent (made : handleCommand h cmd = pure .empty) : ¬HasEffect h server data :=
    not_hasEffect_of_empty (handlePacket_pure parsed made server)
  constructor
  · intro effect
    cases cmd
    -- the commands that are answered with the empty reply
    case reset | ctrlC | unknownVCommand => exact absurd effect (silent rfl)
    all_goals exact trivial
  · intro acts
    rcases handleCommand_effect h acts with calls | made | made
    · -- a call stays in the log, whatever the handler answers
      left
      have more : (handlePacket h data).Calls := by
        rw [handlePacket_done h parsed]
        exact calls_bind calls fun _ _ => Nat.le_refl _
      intro same
      have longer := more server
      rw [same] at longer
      exact Nat.lt_irrefl _ longer
    · exact answered made (by decide)
    · exact answered made (by decide)

/-- A payload that is not understood has no effect. -/
theorem not_hasEffect (h : Handler σ) (server : Server σ) {data : Bytes}
    (unread : ∀ rest cmd, command data ≠ .done rest cmd) : ¬HasEffect h server data := by
  cases parsed : command data with
  | done rest cmd => exact absurd parsed (unread rest cmd)
  | panic =>
    -- nothing has been called or written before the panic
    have ran : ((handlePacket h data).runOn server).2 = server := by
      rw [handlePacket, parsed]
      rfl
    unfold HasEffect
    rw [ran]
    simp
  | error =>
    apply not_hasEffect_of_empty
    rw [handlePacket, parsed]
    rfl
  | incomplete =>
    apply not_hasEffect_of_empty
    rw [handlePacket, parsed]
    rfl

end Serving

/-- A list that ends in an action that is cut off makes the whole packet an unknown one. -/
example : command (ascii "vCont;c;") = .done [] .unknownVCommand := by decide

/-- A server with one thread. -/
def oneThread : Handler Unit := fun call state =>
  match call with
  | .currentThread => some (.ok none, state)
  | _ => none

end GdbRemote
