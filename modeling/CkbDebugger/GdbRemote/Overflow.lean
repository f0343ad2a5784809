import CkbDebugger.GdbRemote.Grammar

/-!
# Requests with numbers that do not fit

For every request but the breakpoint packets, this module says what has to follow the request's name for one of
its numbers to be read and to be too large.
-/
namespace GdbRemote

open Nom

/-! ### Byte strings -/

theorem quiet_binaryByteSequence : Quiet binaryByteSequence := by
  apply quiet_many1
  apply quiet_altComplete
  intro p member
  simp only [List.mem_cons, List.not_mem_nil, or_false] at member
  rcases member with rfl | rfl
  · exact quiet_map _ (quiet_preceded (quiet_literal _) (quiet_take 1))
  · exact quiet_map _ (quiet_take 1)

/-! ### Memory and registers -/

theorem writeMemoryWith_panicsOn (letter : String) (data : Parser Bytes) (quiet : Quiet data) :
    PanicsOn (writeMemoryWith letter data) [(letter, FieldOverflow [","])] := by
  apply PanicsOn.complete
  apply PanicsOn.literal_bind
  intro _ rest
  exact fields2_panic_iff "," _ (fun _ _ =>
    quiet_bind (quiet_literal _) fun _ => quiet_bind quiet fun _ => quiet_pure _) rest

theorem readMemory_panicsOn : PanicsOn readMemory [("m", FieldOverflow [","])] :=
  PanicsOn.preceded "m" (fields2_panic_iff "," _ fun _ _ => quiet_pure _)

theorem readRegister_panicsOn : PanicsOn readRegister [("p", FieldOverflow [])] :=
  PanicsOn.preceded "p" hexValue_panic_iff

theorem writeRegister_panicsOn : PanicsOn writeRegister [("P", FieldOverflow [])] :=
  PanicsOn.preceded "P" (lastField_panic_iff _ fun _ =>
    quiet_bind (quiet_literal _) fun _ => quiet_bind quiet_hexByteSequence fun _ => quiet_pure _)

theorem quiet_writeGeneralRegisters : Quiet writeGeneralRegisters :=
  quiet_preceded (quiet_literal _) quiet_hexByteSequence

/-! ### Threads -/

theorem parsePingThread_panicsOn : PanicsOn parsePingThread [("T", ThreadOverflow)] :=
  PanicsOn.preceded "T" parseThreadId_panic_iff

theorem parseHPacket_panicsOn :
    PanicsOn parseHPacket [("Hg", ThreadOverflow), ("Hc", ThreadOverflow)] := by
  refine PanicsOn.altComplete (.cons (.map _ (.preceded "Hg" parseThreadId_panic_iff)) <|
    .cons (.map _ (.preceded "Hc" parseThreadId_panic_iff)) .nil) ?_
  repeat' first | exact .nil | exact .nil _ | apply Apart.cons | apply ErrorsOn.cons fun _ => rfl

theorem parseDPacket_panicsOn : PanicsOn parseDPacket [("D;", FieldOverflow [])] := by
  refine PanicsOn.altComplete (.cons (.map _ (.preceded "D;" hexValue_panic_iff)) <|
    .cons (quiet_map _ (quiet_literal _)).panicsOn .nil) ?_
  repeat' first | exact .nil | exact .nil _ | apply Apart.cons

/-! ### Queries -/

/-- One of the numbers after a `;` does not fit in 64 bits. -/
def ListOverflow (input : Bytes) : Prop :=
  ∃ rest, Relation.ReflTransGen (Number.after ";") input (ascii ";" ++ rest) ∧ Oversized rest

/-- One of the numbers of a list separated by `;` does not fit in 64 bits. -/
def SignalsOverflow (input : Bytes) : Prop :=
  Oversized input ∨ ∃ rest, Number input rest ∧ ListOverflow rest

/-- The offset or the length of a `qXfer` read, after two UTF-8 names, does not
fit in 64 bits. -/
def XferOverflow (input : Bytes) : Prop :=
  ∃ middle rest, Name input (ascii ":read:" ++ middle) ∧ Name middle (ascii ":" ++ rest) ∧ FieldOverflow [","] rest

theorem reads_semicolon_panic_iff (input : Bytes) :
    (∃ j, Reads (preceded (literal ";") hexValue) input j ∧
      preceded (literal ";") hexValue j = .panic) ↔ ListOverflow input := by
  simp only [preceded_literal_panic_iff, hexValue_panic_iff, ListOverflow, (parses_hexValue.preceded ";").reads_iff]
  constructor
  · rintro ⟨_, reads, rest, rfl, bad⟩
    exact ⟨rest, reads, bad⟩
  · rintro ⟨rest, reads, bad⟩
    exact ⟨_, reads, rest, rfl, bad⟩

theorem catchSyscalls_panic_iff (input : Bytes) :
    many0 (preceded (literal ";") hexValue) input = .panic ↔ ListOverflow input := by
  rw [many0_panic_iff, reads_semicolon_panic_iff]
  · exact consumes_bind consumes_semicolon fun _ => consumes_hexValue.shrinks
  · decide

theorem passSignals_panic_iff (input : Bytes) :
    separatedListComplete (literal ";") hexValue input = .panic ↔ SignalsOverflow input := by
  rw [separatedListComplete_panic_iff _ _ consumes_semicolon (quiet_literal _) consumes_hexValue]
  simp only [reads_semicolon_panic_iff, hexValue_panic_iff, SignalsOverflow, exists_and_right, parses_hexValue _ _]

theorem programSignals_panic_iff (input : Bytes) :
    separatedNonemptyListComplete (literal ";") hexValue input = .panic ↔ SignalsOverflow input := by
  rw [separatedNonemptyListComplete_panic_iff _ _ consumes_semicolon (quiet_literal _)
    consumes_hexValue]
  simp only [reads_semicolon_panic_iff, hexValue_panic_iff, SignalsOverflow, exists_and_right, parses_hexValue _ _]

theorem gdbfeature_quiet : Quiet gdbfeature := quiet_map _ (quiet_mapRes _ (quiet_isNot _))

theorem gdbfeaturesupported_quiet : Quiet gdbfeaturesupported := by
  apply quiet_flatMap (quiet_isNot _)
  intro f
  unfold gdbfeatureWithSupport
  split
  · simp
  · exact quiet_map _ gdbfeature_quiet _
  · exact quiet_map _ gdbfeature_quiet _
  · exact quiet_map _ (quiet_separatedPair gdbfeature_quiet (quiet_literal _)
      (quiet_mapRes _ (quiet_isNot _))) _

theorem qSearchMemory_panicsOn :
    PanicsOn qSearchMemory [("qSearch:memory:", FieldOverflow [";"])] := by
  apply PanicsOn.complete
  apply PanicsOn.literal_bind
  intro _ rest
  exact fields2_panic_iff ";" _ (fun _ _ =>
    quiet_bind (quiet_literal _) fun _ => quiet_bind quiet_hexByteSequence fun _ => quiet_pure _) rest

theorem qSymbol_quiet : Quiet qSymbol :=
  quiet_bind (quiet_preceded (quiet_literal _) (quiet_mapRes _ (quiet_takeUntil _))) fun _ =>
    quiet_bind (quiet_preceded (quiet_literal _) (quiet_mapRes _ quiet_eof)) fun _ => quiet_pure _

theorem qXfer_panicsOn : PanicsOn qXfer [("qXfer:", XferOverflow)] := by
  have name : Quiet (mapRes (takeUntil 58) fromUtf8) := quiet_mapRes _ (quiet_takeUntil _)
  simp only [qXfer, preceded, parser_bind_assoc]
  apply PanicsOn.literal_bind
  intro _ input
  rw [parses_name.bind_panic_iff name (fun rest => ∃ middle, rest = ascii ":read:" ++ middle ∧
    ∃ more, Name middle more ∧ ∃ last, more = ascii ":" ++ last ∧ FieldOverflow [","] last)]
  · constructor
    · rintro ⟨_, object, middle, rfl, _, annex, rest, rfl, bad⟩
      exact ⟨middle, rest, object, annex, bad⟩
    · rintro ⟨middle, rest, object, annex, bad⟩
      exact ⟨_, object, middle, rfl, _, annex, rest, rfl, bad⟩
  · intro object rest
    rw [literal_bind_panic_iff]
    refine exists_congr fun middle => and_congr_right fun _ => ?_
    apply parses_name.bind_panic_iff name
    intro annex more
    rw [literal_bind_panic_iff]
    exact exists_congr fun last => and_congr_right fun _ => fields2_panic_iff "," _ (fun _ _ => quiet_pure _) last

def queryCrashes : CrashTable := [
  ("qSearch:memory:", FieldOverflow [";"]),
  ("qAttached:", FieldOverflow []),
  ("QCatchSyscalls:1", ListOverflow),
  ("QPassSignals:", SignalsOverflow),
  ("QProgramSignals:", SignalsOverflow),
  ("qThreadExtraInfo,", ThreadOverflow),
  ("qXfer:", XferOverflow)]

theorem quiet_lldbQuery : Quiet lldbQuery := by
  intro input
  simp [lldbQuery]

theorem query_panicsOn : PanicsOn query queryCrashes := by
  have name (α : Type) (f : Bytes → α) (s : String) : PanicsOn (f <$> literal s) [] :=
    (quiet_map f (quiet_literal s)).panicsOn
  refine PanicsOn.altComplete
    (.cons (name _ _ "qC") <|
    .cons (quiet_map _ (quiet_preceded (quiet_literal _) (quiet_preceded (quiet_literal _)
      (quiet_separatedListComplete (quiet_literal _) gdbfeaturesupported_quiet)))).panicsOn <|
    .cons (quiet_map _ (quiet_preceded (quiet_literal _) quiet_hexByteSequence)).panicsOn <|
    .cons (.map _ qSearchMemory_panicsOn) <|
    .cons (name _ _ "QStartNoAckMode") <|
    .cons (.map _ (.preceded "qAttached:" hexValue_panic_iff)) <|
    .cons (name _ _ "qAttached") <|
    .cons (name _ _ "qfThreadInfo") <|
    .cons (name _ _ "qsThreadInfo") <|
    .cons (name _ _ "QDisableRandomization:0") <|
    .cons (name _ _ "QDisableRandomization:1") <|
    .cons (name _ _ "QCatchSyscalls:0") <|
    .cons (.map _ (.preceded "QCatchSyscalls:1" catchSyscalls_panic_iff)) <|
    .cons (.map _ (.preceded "QPassSignals:" passSignals_panic_iff)) <|
    .cons (.map _ (.preceded "QProgramSignals:" programSignals_panic_iff)) <|
    .cons (.map _ (.preceded "qThreadExtraInfo," parseThreadId_panic_iff)) <|
    .cons (quiet_map _ qSymbol_quiet).panicsOn <|
    .cons (.map _ qXfer_panicsOn) <|
    .cons quiet_lldbQuery.panicsOn .nil) ?_
  repeat' first | exact .nil | exact .nil _ | apply Apart.cons | apply ErrorsOn.cons fun _ => rfl

/-! ### Host file operations -/

/-- The flags or the mode after a hexadecimal file name do not fit in 64 bits. -/
def OpenOverflow (input : Bytes) : Prop :=
  ∃ rest, HexRun input (ascii "," ++ rest) ∧ FieldOverflow [","] rest

theorem parseVfileOpen_panicsOn : PanicsOn parseVfileOpen [("open:", OpenOverflow)] := by
  apply PanicsOn.literal_bind
  intro _ input
  rw [parses_hexByteSequence.bind_panic_iff quiet_hexByteSequence
    (fun rest => ∃ next, rest = ascii "," ++ next ∧ FieldOverflow [","] next)]
  · constructor
    · rintro ⟨_, filename, rest, rfl, bad⟩
      exact ⟨rest, filename, bad⟩
    · rintro ⟨rest, filename, bad⟩
      exact ⟨_, filename, rest, rfl, bad⟩
  · intro filename rest
    rw [literal_bind_panic_iff]
    exact exists_congr fun next => and_congr_right fun _ => fields2_panic_iff "," _ (fun _ _ => quiet_pure _) next

theorem parseVfilePread_panicsOn :
    PanicsOn parseVfilePread [("pread:", FieldOverflow [",", ","])] := by
  apply PanicsOn.literal_bind
  intro _ input
  apply nextField_panic_iff "," [","]
  intro _ _ rest
  exact fields2_panic_iff "," _ (fun _ _ => quiet_pure _) rest

theorem parseVfilePwrite_panicsOn : PanicsOn parseVfilePwrite [("pwrite:", FieldOverflow [","])] :=
  PanicsOn.literal_bind "pwrite:" fun _ => fields2_panic_iff "," _ fun _ _ =>
    quiet_bind (quiet_literal _) fun _ => quiet_bind quiet_binaryByteSequence fun _ => quiet_pure _

def vfileCrashes : CrashTable := [
  ("open:", OpenOverflow),
  ("close:", FieldOverflow []),
  ("pread:", FieldOverflow [",", ","]),
  ("pwrite:", FieldOverflow [","]),
  ("fstat:", FieldOverflow []),
  ("setfs:", FieldOverflow [])]

theorem parseVfileOp_panicsOn : PanicsOn parseVfileOp vfileCrashes := by
  have number (f : UInt64 → Command) (s : String) :
      PanicsOn (do let _ ← literal s; let v ← hexValue; return f v) [(s, FieldOverflow [])] :=
    PanicsOn.literal_bind s fun _ => lastField_panic_iff _ fun _ => quiet_pure _
  have name (f : Bytes → Command) (s : String) :
      PanicsOn (do let _ ← literal s; let filename ← hexByteSequence; return f filename) [] :=
    (quiet_bind (quiet_literal s) fun _ => quiet_bind quiet_hexByteSequence fun _ =>
      quiet_pure _).panicsOn
  refine PanicsOn.altComplete
    (.cons parseVfileOpen_panicsOn <|
    .cons (number .hostClose "close:") <|
    .cons parseVfilePread_panicsOn <|
    .cons parseVfilePwrite_panicsOn <|
    .cons (number .hostFStat "fstat:") <|
    .cons (name .hostUnlink "unlink:") <|
    .cons (name .hostReadlink "readlink:") <|
    .cons (number .hostSetFS "setfs:") <|
    .cons (quiet_map _ quiet_takeRest).panicsOn .nil) ?_
  repeat' first | exact .nil | exact .nil _ | apply Apart.cons | apply ErrorsOn.cons fun _ => rfl

/-! ### The `v` packets -/

theorem vCont_panic_iff (input : Bytes) :
    altComplete [(fun _ => .vContSupported) <$> literal "?", Command.vCont <$> many0 vContEntry]
      input = .panic ↔ VContOverflow input := by
  constructor
  · intro panicked
    obtain ⟨p, member, found⟩ := altComplete_panic_mem _ _ panicked
    simp only [List.mem_cons, List.not_mem_nil, or_false] at member
    rcases member with rfl | rfl
    · exact absurd found (quiet_map _ (quiet_literal _) input)
    · rwa [map_panic_iff, vContEntries_panic_iff] at found
  · intro overflow
    have entries := (vContEntries_panic_iff input).mpr overflow
    have noQuery : ¬ascii "?" <+: input := by
      rintro ⟨rest, rfl⟩
      have quits : many0 vContEntry (ascii "?" ++ rest) = .done (ascii "?" ++ rest) [] := rfl
      rw [quits] at entries
      cases entries
    rcases literal_fails "?" input noQuery with h | h
    · simp [altComplete, h, entries, IResult.andThen]
    · simp [altComplete, h, entries, IResult.andThen]

def vCrashes : CrashTable :=
  [("vCont", VContOverflow), ("vKill;", FieldOverflow [])] ++
    vfileCrashes.map fun entry => ("vFile:" ++ entry.1, entry.2)

theorem vCommand_panicsOn : PanicsOn vCommand vCrashes := by
  refine PanicsOn.altComplete
    (.cons (quiet_map _ (quiet_literal "vCtrlC")).panicsOn <|
    .cons (.preceded "vCont" vCont_panic_iff) <|
    .cons (.map _ (.preceded "vKill;" hexValue_panic_iff)) <|
    .cons (.under "vFile:" parseVfileOp_panicsOn) <|
    .cons (quiet_map _ (quiet_preceded (quiet_literal "v") quiet_takeRest)).panicsOn .nil) ?_
  repeat' first | exact .nil | exact .nil _ | apply Apart.cons | apply ErrorsOn.cons fun _ => rfl

end GdbRemote
