import CkbDebugger.GdbRemote.Frame
import CkbDebugger.GdbRemote.Handler
import CkbDebugger.GdbRemote.Writer

/-!
# Replies that end where they should

A reply must not hold a byte of the framing inside its payload. Numbers and hex data
cannot, binary data escapes such bytes, and the texts of `thread_info` and
`query_supported_features` are sent as the handler returns them.
-/
namespace GdbRemote

open Nom

/-! ### Bytes of the framing -/

/-- One of `#`, `$` and `*`. -/
def reserved (b : UInt8) : Bool := b == 35 || b == 36 || b == 42

def Clean (bytes : Bytes) : Prop := ∀ b ∈ bytes, reserved b = false

instance (bytes : Bytes) : Decidable (Clean bytes) := List.decidableBAll (fun b => reserved b = false) bytes

@[simp] theorem clean_nil : Clean [] := by simp [Clean]

@[simp] theorem clean_cons (b : UInt8) (bytes : Bytes) :
    Clean (b :: bytes) ↔ reserved b = false ∧ Clean bytes := by simp [Clean]

@[simp] theorem clean_append (first second : Bytes) :
    Clean (first ++ second) ↔ Clean first ∧ Clean second := by
  simp only [Clean, List.mem_append, or_imp, forall_and]

theorem clean_flatten (pieces : List Bytes) : Clean pieces.flatten ↔ ∀ piece ∈ pieces, Clean piece := by
  induction pieces with
  | nil => simp
  | cons piece pieces ih => simp [ih]

/-! ### Pieces of a payload -/

theorem digitChar_clean : ∀ d < 16, reserved (UInt8.ofNat (Nat.digitChar d).toNat) = false := by decide

theorem lowerHex_clean (n : Nat) : Clean (lowerHex n) := by
  induction n using Nat.strongRecOn with
  | ind n ih =>
    rw [lowerHex, Nat.toDigits_eq_if (by decide)]
    split
    next small => simpa using digitChar_clean n small
    next large =>
      rw [List.map_append, clean_append]
      refine ⟨ih (n / 16) (by omega), ?_⟩
      simpa using digitChar_clean (n % 16) (Nat.mod_lt _ (by decide))

theorem lowerHex2_clean (n : Nat) : Clean (lowerHex2 n) := by
  rw [lowerHex2, clean_append]
  refine ⟨fun b member => ?_, lowerHex_clean n⟩
  rw [List.eq_of_mem_replicate member]
  rfl

theorem writeId_clean (id : Id) : Clean (writeId id) := by
  cases id with
  | all => decide
  | any => decide
  | id num => exact lowerHex_clean num.toNat

theorem writeThreadId_clean (threadId : ThreadId) : Clean (writeThreadId threadId).flatten := by
  have first : Clean (ascii "p") := by decide
  have dot : Clean (ascii ".") := by decide
  simp only [writeThreadId, List.flatten_cons, List.flatten_nil, clean_append, clean_nil, first, dot,
    writeId_clean, and_self]

theorem writeHexData_clean (data : Bytes) : Clean (writeHexData data).flatten := by
  rw [clean_flatten, writeHexData]
  intro piece member
  obtain ⟨b, -, rfl⟩ := List.mem_map.mp member
  exact lowerHex2_clean b.toNat

/-- The bytes before the first byte that a test finds do not pass the test. -/
theorem not_of_mem_take_findIdx {p : UInt8 → Bool} {data : Bytes} {count : Nat}
    (early : count ≤ data.findIdx p) {b : UInt8} (member : b ∈ data.take count) : p b = false := by
  obtain ⟨i, inside, rfl⟩ := List.mem_iff_getElem.mp member
  rw [List.getElem_take]
  rw [List.length_take] at inside
  have before : i < data.findIdx p := by omega
  exact List.not_of_lt_findIdx before

/-- The byte that a run of plain bytes ends at is one that is escaped. -/
theorem escaped_of_drop {p q : UInt8 → Bool} {data rest : Bytes} {byte : UInt8}
    (found : data.drop (min (data.findIdx p) (data.findIdx q)) = byte :: rest) :
    p byte = true ∨ q byte = true := by
  have inside : min (data.findIdx p) (data.findIdx q) < data.length := by
    have shorter := congrArg List.length found
    rw [List.length_drop, List.length_cons] at shorter
    omega
  rw [List.drop_eq_getElem_cons inside] at found
  have here : data[min (data.findIdx p) (data.findIdx q)] = byte := (List.cons.inj found).1
  -- the run ends at whichever of the two tests is met first
  rcases Nat.le_total (data.findIdx p) (data.findIdx q) with first | first
  · left
    simp only [Nat.min_eq_left first] at here inside
    rw [← here]
    exact List.findIdx_getElem
  · right
    simp only [Nat.min_eq_right first] at here inside
    rw [← here]
    exact List.findIdx_getElem

theorem plain_clean {data : Bytes} :
    Clean (data.take (min (data.findIdx fun b => b == 35 || b == 36 || b == 125)
      (data.findIdx fun b => b == 42))) := by
  intro b member
  have marks := not_of_mem_take_findIdx (Nat.min_le_left _ _) member
  have star := not_of_mem_take_findIdx (Nat.min_le_right _ _) member
  simp only [Bool.or_eq_false_iff, reserved] at marks star ⊢
  exact ⟨marks.1, star⟩

theorem writeBinaryData_clean (remaining : Bytes) : Clean (writeBinaryData remaining).flatten := by
  fun_induction writeBinaryData remaining with
  | case1 remaining unescaped rest =>
    rw [List.flatten_cons, List.flatten_nil, List.append_nil]
    exact plain_clean
  | case2 remaining unescaped byte rest found ih =>
    -- an escaped byte is one of the four, and turning its bit makes it another
    have escape : Clean [125, byte ^^^ 0x20] := by
      have marked := escaped_of_drop found
      simp only [Bool.or_eq_true, beq_iff_eq] at marked
      rcases marked with ((rfl | rfl) | rfl) | rfl <;> decide
    simp only [List.flatten_cons, clean_append]
    exact ⟨plain_clean, escape, ih⟩

/-! ### Payloads -/

theorem stopReason_clean (reason : StopReason) : Clean reason.pieces.flatten := by
  have process : Clean (ascii ";process:") := by decide
  have semicolon : Clean (ascii ";") := by decide
  cases reason with
  | signal signo =>
    have letter : Clean (ascii "S") := by decide
    simp [StopReason.pieces, letter, lowerHex2_clean]
  | exited pid status =>
    have letter : Clean (ascii "W") := by decide
    simp [StopReason.pieces, letter, process, lowerHex2_clean, lowerHex_clean]
  | exitedWithSignal pid status =>
    have letter : Clean (ascii "X") := by decide
    simp [StopReason.pieces, letter, process, lowerHex_clean]
  | threadExited threadId status =>
    have letter : Clean (ascii "w") := by decide
    simp [StopReason.pieces, letter, semicolon, lowerHex_clean, writeThreadId_clean]
  | noMoreThreads => decide

theorem hostIOResult_clean (result : HostIOResult) : Clean result.pieces.flatten := by
  have letter : Clean (ascii "F") := by decide
  have semicolon : Clean (ascii ";") := by decide
  cases result with
  | ok => decide
  | error errno =>
    have failed : Clean (ascii "F-1,") := by decide
    simp [HostIOResult.pieces, failed, lowerHex_clean]
  | integer i => simp [HostIOResult.pieces, letter, lowerHex_clean]
  | data v => simp [HostIOResult.pieces, letter, semicolon, lowerHex_clean, writeBinaryData_clean]
  | stat s => simp [HostIOResult.pieces, letter, semicolon, lowerHex_clean, writeBinaryData_clean]

theorem threads_clean (threads : List ThreadId) :
    Clean (threads.flatMap fun id => ascii "," :: writeThreadId id).flatten := by
  have comma : Clean (ascii ",") := by decide
  induction threads with
  | nil => simp
  | cons id threads ih =>
    simp only [List.flatMap_cons, List.flatten_append, List.flatten_cons, clean_append, comma,
      writeThreadId_clean, ih, and_self]

theorem features_clean (features : List VContFeature) :
    Clean (features.flatMap fun feature => [ascii ";", feature.letter]).flatten := by
  induction features with
  | nil => simp
  | cons feature features ih =>
    rw [List.flatMap_cons, List.flatten_append, clean_append]
    refine ⟨?_, ih⟩
    cases feature <;> decide

/-- Only a text of the handler can bring a byte of the framing into a payload. -/
theorem payload_clean_iff (response : Response) :
    Clean response.payload ↔ ∀ s, response = .string s → Clean (utf8 s) := by
  unfold Response.payload
  cases response with
  | string s => simp [Response.pieces]
  | output s =>
    have letter : Clean (ascii "O") := by decide
    simp [Response.pieces, letter, writeHexData_clean]
  | bytes data => simp [Response.pieces, writeHexData_clean]
  | bytesOrEof data eof =>
    have letter : Clean (ascii (if eof then "l" else "m")) := by cases eof <;> decide
    simp [Response.pieces, letter, writeBinaryData_clean]
  | error val =>
    have letter : Clean (ascii "E") := by decide
    simp [Response.pieces, letter, lowerHex2_clean]
  | currentThread thread =>
    have letters : Clean (ascii "QC") := by decide
    have ok : Clean (ascii "OK") := by decide
    cases thread <;> simp [Response.pieces, letters, ok, writeThreadId_clean]
  | processType type =>
    have attached : Clean (ascii "1") := by decide
    have created : Clean (ascii "0") := by decide
    cases type <;> simp [Response.pieces, attached, created]
  | searchResult found =>
    have hit : Clean (ascii "1,") := by decide
    have miss : Clean (ascii "0") := by decide
    cases found <;> simp [Response.pieces, hit, miss, lowerHex_clean]
  | stopped reason => simp [Response.pieces, stopReason_clean]
  | vContFeatures features =>
    have letters : Clean (ascii "vCont") := by decide
    simp only [Response.pieces, List.flatten_cons, clean_append, letters, features_clean, reduceCtorEq,
      false_implies, implies_true, and_self]
  | threadList threads =>
    have last : Clean (ascii "l") := by decide
    have more : Clean (ascii "m") := by decide
    cases threads with
    | nil => simp [Response.pieces, last]
    | cons first rest =>
      simp only [Response.pieces, List.cons_append, List.flatten_cons, List.flatten_append, clean_append,
        more, writeThreadId_clean, threads_clean, reduceCtorEq, false_implies, implies_true, and_self]
  | symbolName name =>
    have letters : Clean (ascii "qSymbol:") := by decide
    simp [Response.pieces, letters, writeHexData_clean]
  | hostIOResult result => simp [Response.pieces, hostIOResult_clean]
  | ok =>
    have text : Clean (ascii "OK") := by decide
    simp [Response.pieces, text]
  | empty => simp [Response.pieces]

/-! ### Replies -/

/-- The reply is one frame without bytes of the framing in its payload, and `run_parser` reads it
to its end. -/
def SelfDelimiting (reply : Bytes) : Prop :=
  ∃ payload sum chk, reply = ascii "$" ++ (payload ++ (ascii "#" ++ sum)) ∧ sum.length = 2 ∧
    Clean payload ∧ runParser reply = some (reply.length, .data payload chk)

theorem lowerHex2_read : ∀ n < 256,
    (lowerHex2 n).length = 2 ∧ (fromUtf8 (lowerHex2 n)).bind u8FromStrRadix = some (UInt8.ofNat n) := by
  decide +kernel

theorem writeResponse_selfDelimiting_iff (response : Response) :
    SelfDelimiting (writeResponse response) ↔ Clean response.payload := by
  rw [writeResponse_eq]
  generalize sum : computeChecksumIncremental response.payload 0 = chk
  obtain ⟨twoDigits, value⟩ := lowerHex2_read chk.toNat chk.toNat_lt
  have shape : ascii "$" ++ response.payload ++ ascii "#" ++ lowerHex2 chk.toNat =
      ascii "$" ++ (response.payload ++ (ascii "#" ++ lowerHex2 chk.toNat)) := by
    simp only [List.append_assoc]
  rw [shape]
  constructor
  · rintro ⟨payload, digits, chk', same, length, clean, -⟩
    -- the last three bytes are the `#` and the digits, whatever else the reply is cut into
    have rest := List.append_cancel_left same
    have equal : response.payload = payload := by
      refine (List.append_inj' rest ?_).1
      rw [List.length_append, List.length_append, twoDigits, length]
    rwa [equal]
  · intro clean
    -- without a `#` in the payload the parser ends it where it was meant to end
    have plain : (35 : UInt8) ∉ response.payload := fun member => by cases clean 35 member
    refine ⟨response.payload, lowerHex2 chk.toNat, UInt8.ofNat chk.toNat, rfl, twoDigits, clean, ?_⟩
    exact (runParser_eq_some_iff _ _ _).mpr
      ⟨_, [], (List.append_nil _).symm, rfl, .frame _ _ _ plain twoDigits value⟩

/-! ### Handlers -/

section Handlers

variable {σ α β : Type}

/-- The code writes nothing, even if it panics, and what it returns has the property. -/
def Service.Yields (service : Service σ α) (P : α → Prop) : Prop :=
  ∀ server, (service.runOn server).2.output = server.output ∧
    ∀ a, (service.runOn server).1 = some a → P a

theorem yields_pure {P : α → Prop} {a : α} (holds : P a) : (pure a : Service σ α).Yields P := by
  intro server
  refine ⟨rfl, fun b returned => ?_⟩
  cases returned
  exact holds

theorem yields_bind {P : β → Prop} {Q : α → Prop} {first : Service σ α} {next : α → Service σ β}
    (begins : first.Yields Q) (goesOn : ∀ a, Q a → (next a).Yields P) : (first >>= next).Yields P := by
  intro server
  obtain ⟨silent, returned⟩ := begins server
  rw [runOn_bind]
  cases ran : first.runOn server with
  | mk result middle =>
    rw [ran] at silent returned
    cases result with
    | none => exact ⟨silent, fun b none => nomatch none⟩
    | some a =>
      obtain ⟨silentToo, holds⟩ := goesOn a (returned a rfl) middle
      exact ⟨silentToo.trans silent, holds⟩

theorem call_returned {h : Handler σ} {call : HandlerCall} {server after : Server σ} {result : call.Result}
    (returned : (h.call call).runOn server = (some result, after)) :
    ∃ state, h call server.handler = some (result, state) ∧
      after = ⟨state, server.calls ++ [call], server.output⟩ := by
  rw [runOn_call] at returned
  cases answered : h call server.handler with
  | none =>
    rw [answered] at returned
    cases returned
  | some answer =>
    rw [answered] at returned
    cases returned
    exact ⟨answer.2, rfl, rfl⟩

theorem yields_call (h : Handler σ) (call : HandlerCall) : (h.call call).Yields fun _ => True := by
  intro server
  refine ⟨?_, fun _ _ => trivial⟩
  rw [runOn_call]
  cases h call server.handler with
  | none => rfl
  | some answer => rfl

/-- The reply is not a text of the handler. -/
def Response.Plain (response : Response) : Prop := ∀ s, response ≠ .string s

theorem fromResult_plain {into : α → Response} (plain : ∀ a, (into a).Plain)
    (result : Except HandlerError α) : (Response.fromResult into result).Plain := by
  intro s
  cases result with
  | ok a => exact plain a s
  | error e => cases e <;> simp [Response.fromResult]

theorem fromIOResult_plain {into : α → HostIOResult} (result : IOResult α) :
    (Response.fromIOResult into result).Plain := by
  intro s
  cases result with
  | none => simp [Response.fromIOResult]
  | some result => cases result <;> simp [Response.fromIOResult]

/-- One call, and a reply made of its result. -/
theorem yields_reply (h : Handler σ) (call : HandlerCall) {reply : call.Result → Response}
    (plain : ∀ result, (reply result).Plain) :
    (do return reply (← h.call call) : Service σ Response).Yields Response.Plain :=
  yields_bind (yields_call h call) fun result _ => yields_pure (plain result)

/-- The same with an operation of the file system, which may not be there. -/
theorem yields_fsReply (h : Handler σ) {operation : Service σ (IOResult α)} (into : α → HostIOResult)
    (silent : operation.Yields fun _ => True) :
    (do return .fromIOResult into (← fsAndThen h operation) : Service σ Response).Yields Response.Plain := by
  refine yields_bind (Q := fun _ => True) ?_ fun _ _ => yields_pure (fromIOResult_plain _)
  refine yields_bind (yields_call h .fs) fun present _ => ?_
  cases present with
  | true => exact silent
  | false => exact yields_pure trivial

/-- The queries that are answered with a text of the handler. -/
def Query.sendsText : Query → Bool
  | .threadInfo _ => true
  | .supportedFeatures _ => true
  | _ => false

def Command.sendsText : Command → Bool
  | .query q => q.sendsText
  | _ => false

theorem handleQuery_plain (h : Handler σ) (q : Query) (noText : q.sendsText = false) :
    (handleQuery h q).Yields Response.Plain := by
  cases q
  case threadInfo thread => cases noText
  case supportedFeatures features => cases noText
  case startNoAckMode => exact yields_pure (by simp [Response.Plain])
  case invoke cmd =>
    -- the output of a monitor command is sent in hexadecimal, also when it is a text
    refine yields_reply h (.invoke cmd) (fromResult_plain fun val s => ?_)
    split <;> simp
  case symbol value name =>
    refine yields_reply h (.processSymbol value name) (fromResult_plain fun answer s => ?_)
    cases answer <;> simp [Response.fromSymbolLookup]
  all_goals exact yields_reply h _ (fromResult_plain (by simp [Response.Plain]))

theorem handleCommand_plain (h : Handler σ) (cmd : Command) (noText : cmd.sendsText = false) :
    (handleCommand h cmd).Yields Response.Plain := by
  cases cmd
  case query q => exact handleQuery_plain h q noText
  case kill pid =>
    cases pid with
    | none => exact yields_bind (yields_call h _) fun _ _ => yields_pure (by simp [Response.Plain])
    | some pid => exact yields_reply h _ (fromResult_plain (by simp [Response.Plain]))
  case writeMemory region bytes =>
    simp only [handleCommand]
    split
    · exact yields_pure (by simp [Response.Plain])
    · exact yields_reply h _ (fromResult_plain (by simp [Response.Plain]))
  -- these are answered without a call
  case enableExtendedMode | reset | ctrlC | unknownVCommand =>
    exact yields_pure (by simp [Response.Plain])
  case hostOpen | hostClose | hostPRead | hostPWrite | hostFStat | hostUnlink | hostReadlink | hostSetFS =>
    exact yields_fsReply h _ (yields_call h _)
  all_goals exact yields_reply h _ (fromResult_plain (by simp [Response.Plain]))

/-! ### Every reply -/

/-- The features that every server has. -/
def builtinFeatures : List String :=
  ["PacketSize=" ++ String.ofList (Nat.toDigits 16 maxPacketSize), "QStartNoAckMode+",
    "multiprocess+", "QDisableRandomization+", "QCatchSyscalls+", "QPassSignals+", "QProgramSignals+"]

theorem utf8_append (first second : String) : utf8 (first ++ second) = utf8 first ++ utf8 second := by
  simp [utf8]

theorem intercalate_clean (parts : List String) :
    Clean (utf8 (";".intercalate parts)) ↔ ∀ part ∈ parts, Clean (utf8 part) := by
  have separator : Clean (utf8 ";") := by decide
  induction parts with
  | nil => simp [utf8]
  | cons part parts ih =>
    cases parts with
    | nil => simp
    | cons next parts =>
      rw [String.intercalate_cons_cons, utf8_append, utf8_append, clean_append, clean_append,
        propext ih]
      simp only [separator, and_true, List.mem_cons, forall_eq_or_imp]

theorem builtinFeatures_clean : ∀ feature ∈ builtinFeatures, Clean (utf8 feature) := by decide +kernel

/-- The texts that the handler returns for the request are free of bytes of the framing. -/
def CleanTexts (h : Handler σ) (state : σ) (data : Bytes) : Prop :=
  match command data with
  | .done _ (.query (.threadInfo thread)) =>
    ∀ text after, h (.threadInfo thread) state = some (.ok text, after) → Clean (utf8 text)
  | .done _ (.query (.supportedFeatures _)) =>
    ∀ features after, h .querySupportedFeatures state = some (features, after) →
      ∀ feature ∈ features, Clean (utf8 feature)
  | _ => True

/-- Whenever `handle_packet` returns, what it has written delimits itself. -/
def RepliesDelimited (h : Handler σ) (server : Server σ) (data : Bytes) : Prop :=
  ∀ noAck after, (handlePacket h data).runOn server = (some noAck, after) →
    ∃ reply, after.output = server.output ++ reply ∧ SelfDelimiting reply

theorem threadInfo_response {h : Handler σ} {thread : ThreadId} {server middle : Server σ}
    {response : Response}
    (ran : (handleCommand h (.query (.threadInfo thread))).runOn server = (some response, middle)) :
    ∃ result state, h (.threadInfo thread) server.handler = some (result, state) ∧
      response = .fromResult .string result := by
  obtain ⟨result, after, called, rest⟩ := runOn_bind_some ran
  obtain ⟨state, answered, rfl⟩ := call_returned called
  cases rest
  exact ⟨result, state, answered, rfl⟩

theorem supportedFeatures_response {h : Handler σ} {features : List GDBFeatureSupported}
    {server middle : Server σ} {response : Response}
    (ran : (handleCommand h (.query (.supportedFeatures features))).runOn server = (some response, middle)) :
    ∃ newFeatures state, h .querySupportedFeatures server.handler = some (newFeatures, state) ∧
      response = .string (";".intercalate (builtinFeatures ++ newFeatures)) := by
  obtain ⟨result, after, called, rest⟩ := runOn_bind_some ran
  obtain ⟨state, answered, rfl⟩ := call_returned called
  cases rest
  exact ⟨result, state, answered, rfl⟩

/-- Nothing is written before the reply. -/
theorem handleCommand_silent (h : Handler σ) (cmd : Command) (server : Server σ) :
    ((handleCommand h cmd).runOn server).2.output = server.output := by
  by_cases noText : cmd.sendsText = false
  · exact (handleCommand_plain h cmd noText server).1
  · have silent (call : HandlerCall) (reply : call.Result → Response) :
        (do return reply (← h.call call) : Service σ Response).Yields fun _ => True :=
      yields_bind (yields_call h call) fun _ _ => yields_pure trivial
    cases cmd
    case query q =>
      cases q
      case threadInfo thread => exact (silent (.threadInfo thread) _ server).1
      case supportedFeatures features => exact (silent .querySupportedFeatures _ server).1
      all_goals exact absurd rfl noText
    all_goals exact absurd rfl noText

/-- A request is answered with one frame, whose payload is the whole question. -/
theorem repliesDelimited_done_iff (h : Handler σ) (server : Server σ) {data rest : Bytes} {cmd : Command}
    (parsed : command data = .done rest cmd) : RepliesDelimited h server data ↔
      ∀ response middle, (handleCommand h cmd).runOn server = (some response, middle) →
        Clean response.payload := by
  have handled : handlePacket h data = (do
      let response ← handleCommand h cmd
      write (writeResponse response)
      return cmd = .query .startNoAckMode) := by
    simp only [handlePacket, parsed]
  unfold RepliesDelimited
  rw [handled]
  constructor
  · intro delimited response middle ran
    -- all that has been written is the reply
    have silent : middle.output = server.output := by
      simpa only [ran] using handleCommand_silent h cmd server
    obtain ⟨reply, written, selfDelimiting⟩ := delimited _ _ (by
      rw [runOn_bind, ran]
      exact (runOn_bind _ _ _).trans rfl)
    simp only [silent, List.append_cancel_left_eq] at written
    rwa [← written, writeResponse_selfDelimiting_iff] at selfDelimiting
  · intro clean noAck after returned
    obtain ⟨response, middle, ran, returned⟩ := runOn_bind_some returned
    obtain ⟨_, _, wrote, returned⟩ := runOn_bind_some returned
    have silent : middle.output = server.output := by
      simpa only [ran] using handleCommand_silent h cmd server
    cases wrote
    cases returned
    refine ⟨writeResponse response, congrArg (· ++ writeResponse response) silent, ?_⟩
    exact (writeResponse_selfDelimiting_iff response).mpr (clean response middle ran)

theorem threadInfo_clean_iff (h : Handler σ) (thread : ThreadId) (server : Server σ) :
    (∀ response middle, (handleCommand h (.query (.threadInfo thread))).runOn server = (some response, middle) →
      Clean response.payload) ↔
    ∀ text after, h (.threadInfo thread) server.handler = some (.ok text, after) → Clean (utf8 text) := by
  constructor
  · intro clean text after answered
    have ran : (handleCommand h (.query (.threadInfo thread))).runOn server =
        (some (.string text), ⟨after, server.calls ++ [.threadInfo thread], server.output⟩) := by
      refine (runOn_bind _ _ _).trans ?_
      rw [runOn_call, answered]
      rfl
    exact (payload_clean_iff _).mp (clean _ _ ran) text rfl
  · intro clean response middle ran
    obtain ⟨result, state, answered, rfl⟩ := threadInfo_response ran
    refine (payload_clean_iff _).mpr fun s isText => ?_
    cases result with
    | ok text =>
      cases isText
      exact clean _ state answered
    | error e => cases e <;> cases isText

theorem supportedFeatures_clean_iff (h : Handler σ) (features : List GDBFeatureSupported)
    (server : Server σ) :
    (∀ response middle, (handleCommand h (.query (.supportedFeatures features))).runOn server =
      (some response, middle) → Clean response.payload) ↔
    ∀ newFeatures after, h .querySupportedFeatures server.handler = some (newFeatures, after) →
      ∀ feature ∈ newFeatures, Clean (utf8 feature) := by
  constructor
  · intro clean newFeatures after answered
    have ran : (handleCommand h (.query (.supportedFeatures features))).runOn server =
        (some (.string (";".intercalate (builtinFeatures ++ newFeatures))),
          ⟨after, server.calls ++ [.querySupportedFeatures], server.output⟩) := by
      refine (runOn_bind _ _ _).trans ?_
      rw [runOn_call, answered]
      rfl
    -- the text is clean only if all of its parts are
    have joined := (intercalate_clean _).mp ((payload_clean_iff _).mp (clean _ _ ran) _ rfl)
    exact fun feature member => joined feature (List.mem_append_right _ member)
  · intro clean response middle ran
    obtain ⟨newFeatures, state, answered, rfl⟩ := supportedFeatures_response ran
    refine (payload_clean_iff _).mpr fun s isText => ?_
    cases isText
    rw [intercalate_clean]
    intro feature member
    rcases List.mem_append.mp member with builtin | new
    · exact builtinFeatures_clean feature builtin
    · exact clean newFeatures state answered feature new

theorem repliesDelimited_empty {h : Handler σ} {server : Server σ} {data : Bytes}
    (handled : handlePacket h data = (do
      write (writeResponse .empty)
      return false)) : RepliesDelimited h server data := by
  intro noAck after returned
  rw [handled] at returned
  cases returned
  exact ⟨writeResponse .empty, rfl, (writeResponse_selfDelimiting_iff .empty).mpr (by decide)⟩

/-- For every payload and every handler: the reply delimits itself exactly if the texts that
the handler returns for `qThreadExtraInfo` and `qSupported` are free of bytes of the framing. -/
theorem replies_delimited_iff (h : Handler σ) (server : Server σ) (data : Bytes) :
    RepliesDelimited h server data ↔ CleanTexts h server.handler data := by
  unfold CleanTexts
  cases parsed : command data with
  | panic =>
    -- nothing is written, and nothing is promised
    refine iff_of_true (fun noAck after returned => ?_) trivial
    simp only [handlePacket, parsed] at returned
    cases returned
  | incomplete => exact iff_of_true (repliesDelimited_empty (by simp only [handlePacket, parsed])) trivial
  | error => exact iff_of_true (repliesDelimited_empty (by simp only [handlePacket, parsed])) trivial
  | done rest cmd =>
    rw [repliesDelimited_done_iff h server parsed]
    by_cases noText : cmd.sendsText = false
    · have plain : ∀ response middle, (handleCommand h cmd).runOn server = (some response, middle) →
          Clean response.payload := by
        intro response middle ran
        have plain := (handleCommand_plain h cmd noText server).2 response (congrArg Prod.fst ran)
        exact (payload_clean_iff response).mpr fun s isText => absurd isText (plain s)
      refine iff_of_true plain ?_
      split
      next thread same => cases same; cases noText
      next features same => cases same; cases noText
      next => trivial
    · -- a text of the handler
      cases cmd
      case query q =>
        cases q
        case threadInfo thread => exact threadInfo_clean_iff h thread server
        case supportedFeatures features => exact supportedFeatures_clean_iff h features server
        all_goals exact absurd rfl noText
      all_goals exact absurd rfl noText

end Handlers

/-- A handler that knows about threads only. -/
def threadNamer : Handler Unit := fun call state =>
  match call with
  | .threadInfo _ => some (.ok "worker #1", state)
  | _ => none

/-- The name of a thread ends the reply too early. -/
theorem thread_name_breaks_frame :
    ¬RepliesDelimited threadNamer ⟨(), [], []⟩ (ascii "qThreadExtraInfo,1") := by
  intro delimited
  have parsed : command (ascii "qThreadExtraInfo,1") = .done [] (.query (.threadInfo ⟨.id 1, .any⟩)) := by
    decide
  have ran : (handleCommand threadNamer (.query (.threadInfo ⟨.id 1, .any⟩))).runOn ⟨(), [], []⟩ =
      (some (.string "worker #1"), ⟨(), [.threadInfo ⟨.id 1, .any⟩], []⟩) := rfl
  -- the `#` of the name is in the payload
  have clean := (repliesDelimited_done_iff threadNamer ⟨(), [], []⟩ parsed).mp delimited _ _ ran
  exact absurd clean (by decide)

end GdbRemote
