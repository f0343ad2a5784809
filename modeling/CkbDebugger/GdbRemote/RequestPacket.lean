import CkbDebugger.GdbRemote.Arguments
import CkbDebugger.GdbRemote.MemoryPacket

/-!
# The other requests

The packets that are no breakpoint, no action of `vCont`, no write of memory and no query of
variable length: what they consist of, and that the request parser reads them back. Their numbers
may have digits of either case and leading zeros.
-/
namespace GdbRemote

open Nom

/-! ### The texts -/

/-- Queries with a name and at most numbers and bytes behind it. -/
inductive PlainQuery : Bytes → Query → Prop where
  | currentThread : PlainQuery (ascii "qC") .currentThread
  | startNoAckMode : PlainQuery (ascii "QStartNoAckMode") .startNoAckMode
  | attached : PlainQuery (ascii "qAttached") (.attached none)
  | attachedTo {number : Bytes} {pid : UInt64} (process : Digits number pid) :
      PlainQuery (ascii "qAttached:" ++ number) (.attached (some pid))
  | firstThreads : PlainQuery (ascii "qfThreadInfo") (.threadList true)
  | moreThreads : PlainQuery (ascii "qsThreadInfo") (.threadList false)
  -- the number tells whether the randomization is to be disabled
  | randomize : PlainQuery (ascii "QDisableRandomization:0") (.addressRandomization true)
  | keepAddresses : PlainQuery (ascii "QDisableRandomization:1") (.addressRandomization false)
  | catchNoSyscalls : PlainQuery (ascii "QCatchSyscalls:0") (.catchSyscalls none)
  | searchMemory {start count digits bytes : Bytes} {address length : UInt64} (base : Digits start address)
      (size : Digits count length) (pattern : HexData digits bytes) (some : bytes ≠ []) :
      PlainQuery (ascii "qSearch:memory:" ++ (start ++ (ascii ";" ++ (count ++ (ascii ";" ++ digits)))))
        (.searchMemory address length bytes)

/-- Operations on the files of the host. -/
inductive HostFileText : Bytes → Command → Prop where
  | open {name flagDigits modeDigits filename : Bytes} {flags mode : UInt64} (file : HexData name filename)
      (named : filename ≠ []) (flagNumber : Digits flagDigits flags) (modeNumber : Digits modeDigits mode) :
      HostFileText (ascii "open:" ++ (name ++ (ascii "," ++ (flagDigits ++ (ascii "," ++ modeDigits)))))
        (.hostOpen filename flags mode)
  | close {number : Bytes} {fd : UInt64} (file : Digits number fd) :
      HostFileText (ascii "close:" ++ number) (.hostClose fd)
  | pread {number size start : Bytes} {fd count offset : UInt64} (file : Digits number fd)
      (countNumber : Digits size count) (offsetNumber : Digits start offset) :
      HostFileText (ascii "pread:" ++ (number ++ (ascii "," ++ (size ++ (ascii "," ++ start)))))
        (.hostPRead fd count offset)
  | pwrite {number start data : Bytes} {fd offset : UInt64} (file : Digits number fd)
      (offsetNumber : Digits start offset) (some : data ≠ []) :
      HostFileText (ascii "pwrite:" ++ (number ++ (ascii "," ++ (start ++ (ascii "," ++
        (writeBinaryData data).flatten))))) (.hostPWrite fd offset data)
  | fstat {number : Bytes} {fd : UInt64} (file : Digits number fd) :
      HostFileText (ascii "fstat:" ++ number) (.hostFStat fd)
  | unlink {name filename : Bytes} (file : HexData name filename) (named : filename ≠ []) :
      HostFileText (ascii "unlink:" ++ name) (.hostUnlink filename)
  | readlink {name filename : Bytes} (file : HexData name filename) (named : filename ≠ []) :
      HostFileText (ascii "readlink:" ++ name) (.hostReadlink filename)
  | setfs {number : Bytes} {pid : UInt64} (process : Digits number pid) :
      HostFileText (ascii "setfs:" ++ number) (.hostSetFS pid)

def SetThreadFor.letter : SetThreadFor → String
  | .readRegister => "g"
  | .continue => "c"

inductive RequestText : Bytes → Command → Prop where
  | enableExtendedMode : RequestText (ascii "!") .enableExtendedMode
  | targetHaltReason : RequestText (ascii "?") .targetHaltReason
  | detach : RequestText (ascii "D") (.detach none)
  | detachFrom {number : Bytes} {pid : UInt64} (process : Digits number pid) :
      RequestText (ascii "D;" ++ number) (.detach (some pid))
  | readGeneralRegisters : RequestText (ascii "g") .readGeneralRegisters
  | writeGeneralRegisters {digits contents : Bytes} (values : HexData digits contents) (some : contents ≠ []) :
      RequestText (ascii "G" ++ digits) (.writeGeneralRegisters contents)
  | setCurrentThread (purpose : SetThreadFor) {thread : ThreadId} (proper : thread.Proper) :
      RequestText (ascii "H" ++ (ascii purpose.letter ++ (writeThreadId thread).flatten))
        (.setCurrentThread purpose thread)
  | kill : RequestText (ascii "k") (.kill none)
  | killProcess {number : Bytes} {pid : UInt64} (process : Digits number pid) :
      RequestText (ascii "v" ++ (ascii "Kill;" ++ number)) (.kill (some pid))
  | readMemory {start count : Bytes} {address length : UInt64} (base : Digits start address)
      (size : Digits count length) :
      RequestText (ascii "m" ++ (start ++ (ascii "," ++ count))) (.readMemory ⟨address, length⟩)
  | readRegister {number : Bytes} {regno : UInt64} (register : Digits number regno) :
      RequestText (ascii "p" ++ number) (.readRegister regno)
  | writeRegister {number digits contents : Bytes} {regno : UInt64} (register : Digits number regno)
      (value : HexData digits contents) (some : contents ≠ []) :
      RequestText (ascii "P" ++ (number ++ (ascii "=" ++ digits))) (.writeRegister regno contents)
  | query {text : Bytes} {q : Query} (plain : PlainQuery text q) : RequestText text (.query q)
  | reset : RequestText (ascii "r") .reset
  | restart (first second : UInt8) : RequestText (ascii "R" ++ [first, second]) .reset
  | pingThread {thread : ThreadId} (proper : thread.Proper) :
      RequestText (ascii "T" ++ (writeThreadId thread).flatten) (.pingThread thread)
  | ctrlC : RequestText (ascii "vCtrlC") .ctrlC
  | vContSupported : RequestText (ascii "vCont?") .vContSupported
  | hostFile {text : Bytes} {cmd : Command} (operation : HostFileText text cmd) :
      RequestText (ascii "v" ++ (ascii "File:" ++ text)) cmd

/-! ### Parsing -/

theorem parseThreadId_at_end {thread : ThreadId} (proper : thread.Proper) :
    parseThreadId (writeThreadId thread).flatten = .done [] thread := by
  have read := @parseThreadId_text _ proper [] (by simp)
  rwa [List.append_nil] at read

theorem query_plain {text : Bytes} {q : Query} (plain : PlainQuery text q) : query text = .done [] q := by
  cases plain with
  | currentThread | startNoAckMode | attached | firstThreads | moreThreads | randomize | keepAddresses
  | catchNoSyscalls => decide
  | attachedTo process =>
    rw [query]
    iterate 5 rw [altComplete_cons_of_fails (Or.inl rfl)]
    apply altComplete_cons_of_done
    simp only [map_apply, preceded_literal_append, hexValue_at_end process, andThen_done]
  | @searchMemory start count digits bytes address length base size pattern some =>
    have first : ∀ b ∈ (ascii ";" ++ (count ++ (ascii ";" ++ digits))).head?, isHexDigit b = false :=
      stops_at_mark rfl _
    have second : ∀ b ∈ (ascii ";" ++ digits).head?, isHexDigit b = false := stops_at_mark rfl _
    rw [query]
    iterate 3 rw [altComplete_cons_of_fails (Or.inl rfl)]
    apply altComplete_cons_of_done
    simp only [map_apply, qSearchMemory, complete, bind_apply, literal_append, andThen_done, hexValue_digits base first,
      hexValue_digits size second, hexByteSequence_at_end pattern some, pure_apply]

theorem parseVfileOp_text {text : Bytes} {cmd : Command} (operation : HostFileText text cmd) :
    parseVfileOp text = .done [] cmd := by
  cases operation with
  | @«open» name flagDigits modeDigits filename flags mode file named flagNumber modeNumber =>
    have first : ∀ b ∈ (ascii "," ++ (flagDigits ++ (ascii "," ++ modeDigits))).head?, isHexDigit b = false :=
      stops_at_mark rfl _
    have second : ∀ b ∈ (ascii "," ++ modeDigits).head?, isHexDigit b = false := stops_at_mark rfl _
    rw [parseVfileOp]
    apply altComplete_cons_of_done
    simp only [parseVfileOpen, bind_apply, literal_append, andThen_done, hexByteSequence_text file named first,
      hexValue_digits flagNumber second, hexValue_at_end modeNumber, pure_apply]
  | close file =>
    rw [parseVfileOp, altComplete_cons_of_fails (Or.inl rfl)]
    apply altComplete_cons_of_done
    simp only [parseVfileClose, bind_apply, literal_append, andThen_done, hexValue_at_end file, pure_apply]
  | @pread number size start fd count offset file countNumber offsetNumber =>
    have first : ∀ b ∈ (ascii "," ++ (size ++ (ascii "," ++ start))).head?, isHexDigit b = false :=
      stops_at_mark rfl _
    have second : ∀ b ∈ (ascii "," ++ start).head?, isHexDigit b = false := stops_at_mark rfl _
    rw [parseVfileOp]
    iterate 2 rw [altComplete_cons_of_fails (Or.inl rfl)]
    apply altComplete_cons_of_done
    simp only [parseVfilePread, bind_apply, literal_append, andThen_done, hexValue_digits file first,
      hexValue_digits countNumber second, hexValue_at_end offsetNumber, pure_apply]
  | @pwrite number start data fd offset file offsetNumber some =>
    have first : ∀ b ∈ (ascii "," ++ (start ++ (ascii "," ++ (writeBinaryData data).flatten))).head?,
        isHexDigit b = false := stops_at_mark rfl _
    have second : ∀ b ∈ (ascii "," ++ (writeBinaryData data).flatten).head?, isHexDigit b = false :=
      stops_at_mark rfl _
    rw [parseVfileOp]
    iterate 3 rw [altComplete_cons_of_fails (Or.inl rfl)]
    apply altComplete_cons_of_done
    simp only [parseVfilePwrite, bind_apply, literal_append, andThen_done, hexValue_digits file first,
      hexValue_digits offsetNumber second, binaryByteSequence_written some, pure_apply]
  | fstat file =>
    rw [parseVfileOp]
    iterate 4 rw [altComplete_cons_of_fails (Or.inl rfl)]
    apply altComplete_cons_of_done
    simp only [parseVfileFstat, bind_apply, literal_append, andThen_done, hexValue_at_end file, pure_apply]
  | unlink file named =>
    rw [parseVfileOp]
    iterate 5 rw [altComplete_cons_of_fails (Or.inl rfl)]
    apply altComplete_cons_of_done
    simp only [parseVfileUnlink, bind_apply, literal_append, andThen_done, hexByteSequence_at_end file named,
      pure_apply]
  | readlink file named =>
    rw [parseVfileOp]
    iterate 6 rw [altComplete_cons_of_fails (Or.inl rfl)]
    apply altComplete_cons_of_done
    simp only [parseVfileReadlink, bind_apply, literal_append, andThen_done, hexByteSequence_at_end file named,
      pure_apply]
  | setfs process =>
    rw [parseVfileOp]
    iterate 7 rw [altComplete_cons_of_fails (Or.inl rfl)]
    apply altComplete_cons_of_done
    simp only [parseVfileSetfs, bind_apply, literal_append, andThen_done, hexValue_at_end process, pure_apply]

/-- The first letter of a query leaves one alternative. -/
theorem command_query {text : Bytes} {q : Query} (letter : ∃ rest, text = 113 :: rest ∨ text = 81 :: rest)
    (read : query text = .done [] q) : command text = .done [] (.query q) := by
  obtain ⟨rest, rfl | rfl⟩ := letter
  all_goals
    unfold command
    iterate 11 rw [alt_cons_of_error (by rfl)]
    apply alt_cons_of_done
    simp only [map_apply, read, andThen_done]

theorem query_letter {text : Bytes} {q : Query} (plain : PlainQuery text q) :
    ∃ rest, text = 113 :: rest ∨ text = 81 :: rest := by
  cases plain with
  | currentThread | firstThreads | moreThreads | searchMemory => exact ⟨_, Or.inl rfl⟩
  | attached | attachedTo => exact ⟨_, Or.inl rfl⟩
  | startNoAckMode | randomize | keepAddresses | catchNoSyscalls => exact ⟨_, Or.inr rfl⟩

theorem vCommand_file {text : Bytes} {cmd : Command} (read : parseVfileOp text = .done [] cmd) :
    vCommand (ascii "vFile:" ++ text) = .done [] cmd := by
  rw [vCommand]
  iterate 3 rw [altComplete_cons_of_fails (Or.inl rfl)]
  apply altComplete_cons_of_done
  rw [preceded_literal_append, read]

theorem vCommand_kill {number : Bytes} {pid : UInt64} (process : Digits number pid) :
    vCommand (ascii "vKill;" ++ number) = .done [] (.kill (some pid)) := by
  rw [vCommand]
  iterate 2 rw [altComplete_cons_of_fails (Or.inl rfl)]
  apply altComplete_cons_of_done
  simp only [map_apply, preceded_literal_append, hexValue_at_end process, andThen_done]

theorem parseHPacket_text (purpose : SetThreadFor) {thread : ThreadId} (proper : thread.Proper) :
    parseHPacket (ascii "H" ++ (ascii purpose.letter ++ (writeThreadId thread).flatten)) =
      .done [] (purpose, thread) := by
  have read := parseThreadId_at_end proper
  cases purpose with
  | readRegister =>
    rw [parseHPacket]
    apply altComplete_cons_of_done
    change ((_ <$> preceded (literal "Hg") parseThreadId : Parser (SetThreadFor × ThreadId))
      (ascii "Hg" ++ (writeThreadId thread).flatten)) = _
    simp only [map_apply, preceded_literal_append, read, andThen_done]
  | «continue» =>
    rw [parseHPacket, altComplete_cons_of_fails (Or.inl rfl)]
    apply altComplete_cons_of_done
    change ((_ <$> preceded (literal "Hc") parseThreadId : Parser (SetThreadFor × ThreadId))
      (ascii "Hc" ++ (writeThreadId thread).flatten)) = _
    simp only [map_apply, preceded_literal_append, read, andThen_done]

theorem parseDPacket_text {number : Bytes} {pid : UInt64} (process : Digits number pid) :
    parseDPacket (ascii "D;" ++ number) = .done [] (some pid) := by
  rw [parseDPacket]
  apply altComplete_cons_of_done
  simp only [map_apply, preceded_literal_append, hexValue_at_end process, andThen_done]

/-- The request parser reads each of these packets as what it says, with nothing left. -/
theorem requests_decode {text : Bytes} {cmd : Command} (written : RequestText text cmd) :
    command text = .done [] cmd := by
  cases written with
  | enableExtendedMode | targetHaltReason | detach | readGeneralRegisters | kill | reset | ctrlC
  | vContSupported => decide
  | query plain => exact command_query (query_letter plain) (query_plain plain)
  | hostFile operation =>
    rw [command_v]
    exact vCommand_file (parseVfileOp_text operation)
  | killProcess process =>
    rw [command_v]
    exact vCommand_kill process
  | detachFrom process =>
    unfold command
    iterate 2 rw [alt_cons_of_error (by rfl)]
    apply alt_cons_of_done
    simp only [map_apply, parseDPacket_text process, andThen_done]
  | writeGeneralRegisters values some =>
    unfold command
    iterate 4 rw [alt_cons_of_error (by rfl)]
    apply alt_cons_of_done
    simp only [map_apply, writeGeneralRegisters, preceded_literal_append, hexByteSequence_at_end values some,
      andThen_done]
  | setCurrentThread purpose proper =>
    unfold command
    iterate 5 rw [alt_cons_of_error (by rfl)]
    apply alt_cons_of_done
    simp only [map_apply, parseHPacket_text purpose proper, andThen_done]
  | @readMemory start count address length base size =>
    have comma : ∀ b ∈ (ascii "," ++ count).head?, isHexDigit b = false := stops_at_mark rfl _
    unfold command
    iterate 7 rw [alt_cons_of_error (by rfl)]
    apply alt_cons_of_done
    simp only [map_apply, readMemory, preceded_literal_append, separatedPair, bind_apply, hexValue_digits base comma,
      andThen_done, literal_append, hexValue_at_end size, pure_apply]
  | readRegister register =>
    unfold command
    iterate 9 rw [alt_cons_of_error (by rfl)]
    apply alt_cons_of_done
    simp only [map_apply, readRegister, preceded_literal_append, hexValue_at_end register, andThen_done]
  | @writeRegister number digits contents regno register value some =>
    have equals : ∀ b ∈ (ascii "=" ++ digits).head?, isHexDigit b = false := stops_at_mark rfl _
    unfold command
    iterate 10 rw [alt_cons_of_error (by rfl)]
    apply alt_cons_of_done
    simp only [map_apply, writeRegister, preceded_literal_append, separatedPair, bind_apply,
      hexValue_digits register equals, andThen_done, literal_append, hexByteSequence_at_end value some, pure_apply]
  | restart first second =>
    unfold command
    iterate 13 rw [alt_cons_of_error (by rfl)]
    rfl
  | pingThread proper =>
    unfold command
    iterate 14 rw [alt_cons_of_error (by rfl)]
    apply alt_cons_of_done
    simp only [map_apply, parsePingThread, preceded_literal_append, parseThreadId_at_end proper, andThen_done]

/-- Two bytes for a file, one of which has to be escaped. -/
theorem pwrite_decodes : command (ascii "vFile:pwrite:5,0A,\x7d\x03b") = .done [] (.hostPWrite 5 10 [35, 98]) := by
  have file : Digits (ascii "5") 5 := digits_of_all (by decide) rfl rfl
  have offset : Digits (ascii "0A") 10 := digits_of_all (by decide) rfl rfl
  have text : (writeBinaryData [35, 98]).flatten = ascii "\x7d\x03b" := by rw [writeBinaryData_flatten]; rfl
  have operation : HostFileText (ascii "pwrite:" ++ (ascii "5" ++ (ascii "," ++ (ascii "0A" ++ (ascii "," ++
      (writeBinaryData [35, 98]).flatten))))) (.hostPWrite 5 10 [35, 98]) := .pwrite file offset (by decide)
  have read := requests_decode (.hostFile operation)
  rwa [text] at read

/-! ### The features of the client -/

/-- A name that can be told from what stands around it. -/
def Named (name : String) : Prop := name ≠ "" ∧ ∀ b ∈ utf8 name, b ≠ 59 ∧ b ≠ 61

/-- A name that the server knows, or another one. -/
def Known.ofName (name : String) : Known :=
  match GDBFeature.fromStr name with
  | some feature => .yes feature
  | none => .no name

/-- A feature of `qSupported`: a name with a mark behind it, or with a value. -/
inductive FeatureText : Bytes → GDBFeatureSupported → Prop where
  | yes {name : String} (named : Named name) : FeatureText (utf8 name ++ ascii "+") ⟨.ofName name, .yes⟩
  | no {name : String} (named : Named name) : FeatureText (utf8 name ++ ascii "-") ⟨.ofName name, .no⟩
  | value {name value : String} (named : Named name) (free : 59 ∉ utf8 value) :
      FeatureText (utf8 name ++ (ascii "=" ++ utf8 value)) ⟨.ofName name, .value value⟩

/-- What the parser makes of a feature: it looks at the last byte first. -/
def GDBFeatureSupported.asRead (feature : GDBFeatureSupported) : GDBFeatureSupported :=
  match feature.supported with
  | .value value =>
    match (utf8 value).getLast? with
    | some 43 => ⟨feature.feature, .yes⟩
    | some 45 => ⟨feature.feature, .no⟩
    | _ => feature
  | _ => feature

theorem fromUtf8_utf8 (s : String) : fromUtf8 (utf8 s) = some s := by
  have same : (⟨(utf8 s).toArray⟩ : ByteArray) = s.toByteArray := rfl
  rw [fromUtf8, same, String.fromUTF8?, dif_pos s.isValidUTF8]
  rfl

theorem utf8_ne_nil {s : String} (nonempty : s ≠ "") : utf8 s ≠ [] := by
  intro nil
  have read := fromUtf8_utf8 s
  rw [nil] at read
  exact nonempty (Option.some.inj (read.symm.trans rfl))

theorem gdbfeature_named {name : String} (named : Named name) {rest : Bytes} (stops : ∀ b ∈ rest.head?, b = 61) :
    gdbfeature (utf8 name ++ rest) = .done rest (.ofName name) := by
  have nonempty := utf8_ne_nil named.1
  have taken : isNot (ascii ";=") (utf8 name ++ rest) = .done rest (utf8 name) := by
    rw [isNot_done_iff]
    refine ⟨rfl, fun nil => absurd nil nonempty, fun b member => ?_, fun b first => ?_⟩
    · obtain ⟨semicolon, equals⟩ := named.2 b member
      have marks : ascii ";=" = [59, 61] := rfl
      simp [marks, semicolon, equals]
    · rw [stops b first]
      decide
  have read : mapRes (isNot (ascii ";=")) fromUtf8 (utf8 name ++ rest) = .done rest name := by
    simp only [mapRes, taken, andThen_done, fromUtf8_utf8]
  cases known : GDBFeature.fromStr name with
  | none => simp only [gdbfeature, map_apply, read, andThen_done, Known.ofName, known]
  | some feature => simp only [gdbfeature, map_apply, read, andThen_done, Known.ofName, known]

theorem gdbfeature_alone {name : String} (named : Named name) : gdbfeature (utf8 name) = .done [] (.ofName name) := by
  have read := @gdbfeature_named _ named [] (by simp)
  rwa [List.append_nil] at read

/-- A feature by itself, of which the parser may leave something. -/
theorem gdbfeatureWithSupport_text {text : Bytes} {feature : GDBFeatureSupported} (written : FeatureText text feature) :
    ∃ rest, gdbfeatureWithSupport text = .done rest feature.asRead := by
  cases written with
  | yes named =>
    have mark : ascii "+" = [43] := rfl
    refine ⟨[], ?_⟩
    simp only [gdbfeatureWithSupport, mark, List.getLast?_concat, List.dropLast_concat, map_apply,
      gdbfeature_alone named, andThen_done, GDBFeatureSupported.asRead]
  | no named =>
    have mark : ascii "-" = [45] := rfl
    refine ⟨[], ?_⟩
    simp only [gdbfeatureWithSupport, mark, List.getLast?_concat, List.dropLast_concat, map_apply,
      gdbfeature_alone named, andThen_done, GDBFeatureSupported.asRead]
  | @value name value named free =>
    have marked : ascii "=" ++ utf8 value ≠ [] := by simp [ascii]
    have name_read (rest : Bytes) : gdbfeature (utf8 name ++ (ascii "=" ++ rest)) =
        .done (ascii "=" ++ rest) (.ofName name) := gdbfeature_named named (by rintro b ⟨⟩; rfl)
    have whole : separatedPair gdbfeature (literal "=") (mapRes (isNot (ascii ";")) fromUtf8)
        (utf8 name ++ (ascii "=" ++ utf8 value)) = .done [] (.ofName name, value) := by
      have taken : isNot (ascii ";") (utf8 value) = .done [] (utf8 value) := by
        rw [isNot_done_iff]
        refine ⟨by rw [List.append_nil], fun _ => rfl, fun b member => ?_, by simp⟩
        have mark : ascii ";" = [59] := rfl
        rw [mark, List.mem_singleton]
        rintro rfl
        exact free member
      simp only [mapRes, separatedPair, bind_apply, name_read, andThen_done, literal_append, taken, fromUtf8_utf8,
        pure_apply]
    by_cases empty : utf8 value = []
    · -- the last byte is the `=`
      have mark : ascii "=" = [61] := rfl
      have last : (utf8 name ++ (ascii "=" ++ utf8 value)).getLast? = some 61 := by
        rw [List.getLast?_append_of_ne_nil _ marked, empty, mark]
        rfl
      have valueLast : (utf8 value).getLast? = none := List.getLast?_eq_none_iff.mpr empty
      refine ⟨[], ?_⟩
      simp only [gdbfeatureWithSupport, GDBFeatureSupported.asRead, last, valueLast, map_apply, whole, andThen_done]
      rfl
    have last : (utf8 name ++ (ascii "=" ++ utf8 value)).getLast? = (utf8 value).getLast? := by
      rw [List.getLast?_append_of_ne_nil _ marked, List.getLast?_append_of_ne_nil _ empty]
    -- a mark at the end of the value is taken for that of the feature
    have cut : (utf8 name ++ (ascii "=" ++ utf8 value)).dropLast =
        utf8 name ++ (ascii "=" ++ (utf8 value).dropLast) := by
      rw [List.dropLast_append_of_ne_nil marked, List.dropLast_append_of_ne_nil empty]
    unfold gdbfeatureWithSupport GDBFeatureSupported.asRead
    simp only [last]
    split
    next none => exact absurd (List.getLast?_eq_none_iff.mp none) empty
    next yes =>
      refine ⟨ascii "=" ++ (utf8 value).dropLast, ?_⟩
      simp only [yes, cut, map_apply, name_read, andThen_done]
    next no =>
      refine ⟨ascii "=" ++ (utf8 value).dropLast, ?_⟩
      simp only [no, cut, map_apply, name_read, andThen_done]
    next byte notYes notNo other =>
      refine ⟨[], ?_⟩
      simp only [other, map_apply, whole, andThen_done]
      split
      next again => exact absurd (Option.some.inj again) notYes
      next again => exact absurd (Option.some.inj again) notNo
      next => rfl

theorem FeatureText.plain {text : Bytes} {feature : GDBFeatureSupported} (written : FeatureText text feature) :
    text ≠ [] ∧ ∀ b ∈ text, b ∉ ascii ";" := by
  have mark : ascii ";" = [59] := rfl
  have name_plain {name : String} (named : Named name) : ∀ b ∈ utf8 name, b ≠ 59 := fun b member => (named.2 b member).1
  simp only [mark, List.mem_singleton]
  cases written with
  | yes named | no named =>
    refine ⟨by simp [ascii], fun b member => ?_⟩
    rcases List.mem_append.mp member with inName | atEnd
    · exact name_plain named b inName
    · rw [List.eq_of_mem_singleton atEnd]
      decide
  | value named free =>
    refine ⟨by simp [ascii], fun b member => ?_⟩
    rcases List.mem_append.mp member with inName | after
    · exact name_plain named b inName
    · rcases List.mem_append.mp after with equals | inValue
      · rw [List.eq_of_mem_singleton equals]
        decide
      · rintro rfl
        exact free inValue

/-- A feature up to the next one. -/
theorem gdbfeaturesupported_text {text : Bytes} {feature : GDBFeatureSupported} (written : FeatureText text feature)
    {rest : Bytes} (next : NextEntry rest) : gdbfeaturesupported (text ++ rest) = .done rest feature.asRead := by
  obtain ⟨nonempty, plain⟩ := written.plain
  obtain ⟨left, read⟩ := gdbfeatureWithSupport_text written
  have taken : isNot (ascii ";") (text ++ rest) = .done rest text := by
    rw [isNot_done_iff]
    refine ⟨rfl, fun nil => absurd nil nonempty, plain, fun b first => ?_⟩
    rw [next b first]
    decide
  simp only [gdbfeaturesupported, flatMap, taken, andThen_done, read]

theorem features_collect {texts : List Bytes} {features : List GDBFeatureSupported}
    (written : List.Forall₂ FeatureText texts features) :
    Collects (preceded (literal ";") gdbfeaturesupported) (texts.flatMap (ascii ";" ++ ·))
      (features.map GDBFeatureSupported.asRead) [] := by
  have each : List.Forall₂ (TextOf (preceded (literal ";") gdbfeaturesupported) NextEntry)
      (texts.map (ascii ";" ++ ·)) (features.map GDBFeatureSupported.asRead) := by
    rw [List.forall₂_map_left_iff, List.forall₂_map_right_iff]
    refine written.imp fun text feature written => ⟨fun rest next => ?_, ?_⟩
    · rw [List.append_assoc, preceded_literal_append, gdbfeaturesupported_text written next]
    · rintro rest b ⟨⟩
      rfl
  rw [List.flatMap_def]
  exact collects_at_end each (by rintro b ⟨⟩)

theorem supportedFeatures_read {texts : List Bytes} {features : List GDBFeatureSupported}
    (written : List.Forall₂ FeatureText texts features) :
    query (ascii "qSupported:" ++ joined texts) =
      .done [] (.supportedFeatures (features.map GDBFeatureSupported.asRead)) := by
  have read : separatedListComplete (literal ";") gdbfeaturesupported (joined texts) =
      .done [] (features.map GDBFeatureSupported.asRead) := by
    cases written with
    | nil => rfl
    | @cons text feature texts features first others =>
      have next : NextEntry (texts.flatMap (ascii ";" ++ ·)) := by
        cases texts with
        | nil => rintro b ⟨⟩
        | cons => rintro b ⟨⟩; rfl
      exact separatedListComplete_of_collects consumes_semicolon consumes_gdbfeaturesupported
        (gdbfeaturesupported_text first next) (features_collect others) semicolon_ends
  have split : ascii "qSupported:" ++ joined texts = ascii "qSupported" ++ (ascii ":" ++ joined texts) := rfl
  rw [split, query, altComplete_cons_of_fails (Or.inl rfl)]
  apply altComplete_cons_of_done
  simp only [map_apply, preceded_literal_append, read, andThen_done]

/-- A value that ends in one of the marks is taken for the mark. -/
def FeatureSupported.Marked : FeatureSupported → Prop
  | .value text => (utf8 text).getLast? = some 43 ∨ (utf8 text).getLast? = some 45
  | _ => False

instance : (supported : FeatureSupported) → Decidable supported.Marked
  | .value text => inferInstanceAs (Decidable ((utf8 text).getLast? = some 43 ∨ (utf8 text).getLast? = some 45))
  | .yes | .no | .maybe => .isFalse id

theorem asRead_eq_iff (feature : GDBFeatureSupported) : feature.asRead = feature ↔ ¬feature.supported.Marked := by
  obtain ⟨name, supported⟩ := feature
  cases supported with
  | value value =>
    simp only [GDBFeatureSupported.asRead, FeatureSupported.Marked]
    split
    next yes => simp [yes]
    next no => simp [no]
    next notYes notNo => exact iff_of_true rfl (not_or.mpr ⟨notYes, notNo⟩)
  | yes | no | maybe => simp [GDBFeatureSupported.asRead, FeatureSupported.Marked]

/-- The list of the client's features is always accepted, each feature by itself, and it is read as it was
written exactly if no value ends in one of the two marks. -/
theorem features_decode_iff {texts : List Bytes} {features : List GDBFeatureSupported}
    (written : List.Forall₂ FeatureText texts features) :
    command (ascii "qSupported:" ++ joined texts) =
        .done [] (.query (.supportedFeatures (features.map GDBFeatureSupported.asRead))) ∧
      (command (ascii "qSupported:" ++ joined texts) = .done [] (.query (.supportedFeatures features)) ↔
        ∀ feature ∈ features, ¬feature.supported.Marked) := by
  have read : command (ascii "qSupported:" ++ joined texts) =
      .done [] (.query (.supportedFeatures (features.map GDBFeatureSupported.asRead))) :=
    command_query ⟨ascii "Supported:" ++ joined texts, Or.inl rfl⟩ (supportedFeatures_read written)
  -- a list is kept exactly if each of its elements is
  have kept : features.map GDBFeatureSupported.asRead = features ↔ ∀ feature ∈ features, feature.asRead = feature := by
    have each := @List.map_inj_left _ _ features GDBFeatureSupported.asRead id
    rwa [List.map_id] at each
  refine ⟨read, ?_⟩
  rw [read]
  simp only [IResult.done.injEq, Command.query.injEq, Query.supportedFeatures.injEq, true_and, kept, asRead_eq_iff]

/-- A known feature, an unknown one, and a list of names as its value. -/
theorem three_features_decoded :
    command (ascii "qSupported:multiprocess+;abc-;xmlRegisters=i386,arm") = .done [] (.query (.supportedFeatures
      [⟨.yes .multiprocess, .yes⟩, ⟨.no "abc", .no⟩, ⟨.yes .xmlRegisters, .value "i386,arm"⟩])) := by
  have first : FeatureText (ascii "multiprocess+") ⟨.yes .multiprocess, .yes⟩ :=
    @FeatureText.yes "multiprocess" ⟨by decide, by decide +kernel⟩
  have second : FeatureText (ascii "abc-") ⟨.no "abc", .no⟩ := @FeatureText.no "abc" ⟨by decide, by decide +kernel⟩
  have third : FeatureText (ascii "xmlRegisters=i386,arm") ⟨.yes .xmlRegisters, .value "i386,arm"⟩ :=
    @FeatureText.value "xmlRegisters" "i386,arm" ⟨by decide, by decide +kernel⟩ (by decide +kernel)
  refine (features_decode_iff (.cons first (.cons second (.cons third .nil)))).2.mpr ?_
  decide

end GdbRemote
