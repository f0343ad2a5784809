import CkbDebugger.GdbRemote.SelfDelimiting
import CkbDebugger.GdbRemote.Session
import CkbDebugger.History.Basic

/-!
# The conversation with a client

A client sends frames and reads what the server sends back, which it cuts into packets as the server does.
The conversation is described in turns: a request, the calls of the handler that it leads to, and the
response. It does not matter how the requests are spread over the reads, nor what else is sent between them.
-/
namespace GdbRemote

variable {σ α β : Type}

/-! ### What a service does, wherever it starts -/

/-- A service that adds to the record and to the output, and does not look at them. -/
def Service.Fresh (service : Service σ α) : Prop :=
  ∀ state calls output, service.runOn ⟨state, calls, output⟩ =
    let (result, after) := service.runOn ⟨state, [], []⟩
    (result, ⟨after.handler, calls ++ after.calls, output ++ after.output⟩)

theorem fresh_pure (a : α) : (pure a : Service σ α).Fresh := by
  intro state calls output
  simp only [runOn_pure, List.append_nil]

theorem fresh_failure : (failure : Service σ α).Fresh := by
  intro state calls output
  change (none, _) = (none, _)
  simp only [List.append_nil]

theorem fresh_call (h : Handler σ) (call : HandlerCall) : (h.call call).Fresh := by
  intro state calls output
  simp only [runOn_call]
  cases h call state <;> simp

theorem fresh_bind {first : Service σ α} {next : α → Service σ β} (begins : first.Fresh)
    (goesOn : ∀ a, (next a).Fresh) : (first >>= next).Fresh := by
  intro state calls output
  simp only [runOn_bind]
  rw [begins state calls output]
  rcases first.runOn ⟨state, [], []⟩ with ⟨_ | a, middle⟩
  · rfl
  · -- the second part starts from what the first one has added
    simp only
    rw [goesOn a middle.handler (calls ++ middle.calls) (output ++ middle.output),
      goesOn a middle.handler middle.calls middle.output]
    simp only [List.append_assoc]

theorem fresh_reply (h : Handler σ) (call : HandlerCall) (reply : call.Result → Response) :
    (do return reply (← h.call call) : Service σ Response).Fresh :=
  fresh_bind (fresh_call h call) fun _ => fresh_pure _

theorem fresh_fsReply (h : Handler σ) {operation : Service σ (IOResult α)} (into : α → HostIOResult)
    (fresh : operation.Fresh) :
    (do return .fromIOResult into (← fsAndThen h operation) : Service σ Response).Fresh := by
  refine fresh_bind (fresh_bind (fresh_call h .fs) fun present => ?_) fun _ => fresh_pure _
  cases present with
  | true => exact fresh
  | false => exact fresh_pure none

theorem handleQuery_fresh (h : Handler σ) (q : Query) : (handleQuery h q).Fresh := by
  cases q
  case startNoAckMode => exact fresh_pure _
  all_goals exact fresh_reply h _ _

theorem handleCommand_fresh (h : Handler σ) (cmd : Command) : (handleCommand h cmd).Fresh := by
  cases cmd
  case query q => exact handleQuery_fresh h q
  case kill pid => cases pid <;> exact fresh_bind (fresh_call h _) fun _ => fresh_pure _
  case writeMemory region bytes =>
    simp only [handleCommand]
    split
    · exact fresh_pure _
    · exact fresh_reply h _ _
  case enableExtendedMode | reset | ctrlC | unknownVCommand => exact fresh_pure _
  case hostOpen | hostClose | hostPRead | hostPWrite | hostFStat | hostUnlink | hostReadlink | hostSetFS =>
    exact fresh_fsReply h _ (fresh_call h _)
  all_goals exact fresh_reply h _ _

/-! ### Turns -/

/-- What a payload is answered with. -/
def respond (h : Handler σ) (data : Bytes) : Service σ Response :=
  match command data with
  | .panic => failure
  | .done _ cmd => handleCommand h cmd
  | _ => return .empty

theorem respond_fresh (h : Handler σ) (data : Bytes) : (respond h data).Fresh := by
  unfold respond
  split
  · exact fresh_failure
  · exact handleCommand_fresh h _
  · exact fresh_pure _

theorem handlePacket_eq (h : Handler σ) (data : Bytes) : handlePacket h data = do
    let response ← respond h data
    write (writeResponse response)
    return startsNoAckMode data := by
  unfold handlePacket respond startsNoAckMode
  cases command data with
  | panic => rfl
  | incomplete => rfl
  | error => rfl
  | done rest cmd =>
    -- the request for the mode is the only one that starts it
    by_cases starts : cmd = .query .startNoAckMode
    · subst starts
      rfl
    · simp only [starts, decide_false]
      split
      next equal =>
        cases equal
        exact absurd rfl starts
      next => rfl

/-- A request, the calls that it leads to, and its response. -/
structure Turn where
  request : Bytes
  calls : List HandlerCall
  response : Response

/-- The handler answers the request so, and is in the next state then. -/
def Turn.Taken (h : Handler σ) (state : σ) (turn : Turn) (next : σ) : Prop :=
  (respond h turn.request).runOn ⟨state, [], []⟩ = (some turn.response, ⟨next, turn.calls, []⟩)

/-- The payloads of the packets that have one. -/
def payloads : List Packet → List Bytes
  | [] => []
  | .data data _ :: packets => data :: payloads packets
  | _ :: packets => payloads packets

/-- The bytes that are sent: acknowledgements until a request has turned them off, and responses. -/
def sent (ackMode : Bool) : List Turn → Bytes
  | [] => []
  | turn :: turns => (if ackMode then ascii "+" else []) ++ (writeResponse turn.response ++
      sent (if startsNoAckMode turn.request then false else ackMode) turns)

/-- What the client is to read: the packets behind these bytes. -/
def replies (ackMode : Bool) : List Turn → List Packet
  | [] => []
  | turn :: turns => (if ackMode then [.ack] else []) ++
      .data turn.response.payload (computeChecksumIncremental turn.response.payload 0) ::
        replies (if startsNoAckMode turn.request then false else ackMode) turns

/-- Between its bytes a turn writes nothing. -/
theorem respond_silent (h : Handler σ) (data : Bytes) (server : Server σ) :
    ((respond h data).runOn server).2.output = server.output := by
  unfold respond
  split
  · rfl
  · exact handleCommand_silent h _ server
  · rfl

theorem acknowledge_runOn (ackMode : Bool) (server : Server σ) : (acknowledge ackMode).runOn server =
    (some (), ⟨server.handler, server.calls, server.output ++ if ackMode then ascii "+" else []⟩) := by
  cases ackMode with
  | true => rfl
  | false =>
    simp only [acknowledge, Bool.false_eq_true, if_false, runOn_pure, List.append_nil]

/-- One packet with a payload is one turn. -/
theorem processPacket_taken {h : Handler σ} {ackMode next : Bool} {data : Bytes} {chk : UInt8}
    {server after : Server σ}
    (returned : (processPacket h ackMode (.data data chk)).runOn server = (some next, after)) :
    ∃ turn : Turn, turn.request = data ∧ turn.Taken h server.handler after.handler ∧
      next = (if startsNoAckMode data then false else ackMode) ∧ after.calls = server.calls ++ turn.calls ∧
      after.output = server.output ++ ((if ackMode then ascii "+" else []) ++ writeResponse turn.response) := by
  rw [processPacket, runOn_bind, acknowledge_runOn, handlePacket_eq] at returned
  obtain ⟨noAck, middle, handled, same⟩ := runOn_bind_some returned
  obtain ⟨response, answered, responded, rest⟩ := runOn_bind_some handled
  rw [respond_fresh] at responded
  -- what a service that starts with an empty record and output leaves is the turn
  have silent := respond_silent h data ⟨server.handler, [], []⟩
  rcases ran : (respond h data).runOn ⟨server.handler, [], []⟩ with ⟨result, ⟨state, calls, output⟩⟩
  rw [ran] at responded silent
  simp only at silent
  subst silent
  cases responded
  cases rest
  cases same
  refine ⟨⟨data, calls, response⟩, rfl, ran, rfl, rfl, ?_⟩
  simp only [List.append_nil, List.append_assoc]

/-- A panic of a packet with a payload is one of its handling. -/
theorem processPacket_panics {h : Handler σ} {ackMode : Bool} {data : Bytes} {chk : UInt8} {server after : Server σ}
    (panicked : (processPacket h ackMode (.data data chk)).runOn server = (none, after)) :
    ((respond h data).runOn ⟨server.handler, [], []⟩).1 = none := by
  rw [processPacket, runOn_bind, acknowledge_runOn, handlePacket_eq] at panicked
  simp only [runOn_bind] at panicked
  rw [respond_fresh] at panicked
  rcases ran : (respond h data).runOn ⟨server.handler, [], []⟩ with ⟨_ | response, middle⟩
  · rfl
  · rw [ran] at panicked
    cases panicked

/-- The requests are turns, all of them or those before one whose handling panics. -/
structure Conversed (h : Handler σ) (start : σ) (requests : List Bytes) (result : Option Unit) (turns : List Turn)
    (last : σ) : Prop where
  taken : History.Run (Turn.Taken h) start turns last
  all : result = some () → turns.map Turn.request = requests
  panics : result = none → ∃ data others, requests = turns.map Turn.request ++ data :: others ∧
    ((respond h data).runOn ⟨last, [], []⟩).1 = none

/-- Packets are served in turns, one for each payload. -/
theorem serveFrom_turns {h : Handler σ} {ackMode : Bool} {packets : List Packet} {server after : Server σ}
    {result : Option Unit} (ran : (serveFrom h ackMode packets).runOn server = (result, after)) :
    ∃ turns last, Conversed h server.handler (payloads packets) result turns last ∧
      (result = some () → after = ⟨last, server.calls ++ turns.flatMap Turn.calls,
        server.output ++ sent ackMode turns⟩) := by
  induction packets generalizing ackMode server with
  | nil =>
    cases ran
    refine ⟨[], _, ⟨.nil, fun _ => rfl, fun failed => by cases failed⟩, fun _ => ?_⟩
    simp [sent]
  | cons packet packets ih =>
    rw [serveFrom, runOn_bind] at ran
    rcases processed : (processPacket h ackMode packet).runOn server with ⟨_ | mode, middle⟩
    · rw [processed] at ran
      cases ran
      cases packet with
      | data data chk =>
        have panicked := processPacket_panics processed
        refine ⟨[], server.handler, ⟨.nil, fun done => ?_, fun _ => ?_⟩, fun done => ?_⟩
        · cases done
        · exact ⟨data, payloads packets, rfl, panicked⟩
        · cases done
      | ack | nack | interrupt => cases processed
    · rw [processed] at ran
      obtain ⟨turns, last, conversed, ends⟩ := ih ran
      cases packet with
      | data data chk =>
        obtain ⟨turn, rfl, first, rfl, called, wrote⟩ := processPacket_taken processed
        refine ⟨turn :: turns, last, ⟨.cons first conversed.taken, ?_, ?_⟩, ?_⟩
        · intro returned
          exact congrArg _ (conversed.all returned)
        · intro panicked
          obtain ⟨data, others, same, panics⟩ := conversed.panics panicked
          exact ⟨data, others, congrArg _ same, panics⟩
        · intro returned
          rw [ends returned, called, wrote, List.flatMap_cons, sent]
          simp only [List.append_assoc]
      | ack | nack | interrupt =>
        -- nothing is answered
        cases processed
        exact ⟨turns, last, conversed, ends⟩

/-! ### What the client reads -/

/-- Reading an acknowledgement. -/
theorem tokens_ack (rest : Bytes) {limit : Nat} (room : 1 ≤ limit) :
    packetTokenizer.tokens limit (ascii "+" ++ rest) = .ack :: packetTokenizer.tokens limit rest := by
  have found : packetTokenizer.next (ascii "+" ++ rest) = some (1, .ack) :=
    (runParser_eq_some_iff _ _ _).mpr ⟨ascii "+", rest, rfl, rfl, .ack⟩
  exact packetTokenizer.tokens_of_next found room

/-- Reading a response whose payload has no mark of its end. -/
theorem tokens_response (response : Response) (rest : Bytes) {limit : Nat}
    (plain : (35 : UInt8) ∉ response.payload) (room : (writeResponse response).length ≤ limit) :
    packetTokenizer.tokens limit (writeResponse response ++ rest) =
      .data response.payload (computeChecksumIncremental response.payload 0) ::
        packetTokenizer.tokens limit rest := by
  obtain ⟨twoDigits, value⟩ := lowerHex2_read (computeChecksumIncremental response.payload 0).toNat
    (computeChecksumIncremental response.payload 0).toNat_lt
  rw [UInt8.ofNat_toNat] at value
  have token : Token (writeResponse response)
      (.data response.payload (computeChecksumIncremental response.payload 0)) := by
    have token := Token.frame response.payload _ _ plain twoDigits value
    rwa [← List.append_assoc, ← List.append_assoc, ← writeResponse_eq] at token
  have found : packetTokenizer.next (writeResponse response ++ rest) = some ((writeResponse response).length, _) :=
    (runParser_eq_some_iff _ _ _).mpr ⟨_, rest, rfl, rfl, token⟩
  rw [packetTokenizer.tokens_of_next found room, List.drop_left]

/-- A payload that is read has no mark of its end. -/
theorem plain_of_tokens {input data : Bytes} {chk : UInt8} {others : List Packet} {limit : Nat}
    (cut : packetTokenizer.tokens limit input = .data data chk :: others) : (35 : UInt8) ∉ data := by
  obtain ⟨len, found⟩ := packetTokenizer.next_of_tokens cut
  obtain ⟨wire, rest, _, _, token⟩ := (runParser_eq_some_iff _ _ _).mp found
  cases token with
  | frame _ _ _ plain _ _ => exact plain

theorem tokens_sent_iff (ackMode : Bool) (turns : List Turn) {limit : Nat}
    (room : (sent ackMode turns).length ≤ limit) :
    packetTokenizer.tokens limit (sent ackMode turns) = replies ackMode turns ↔
      ∀ turn ∈ turns, (35 : UInt8) ∉ turn.response.payload := by
  induction turns generalizing ackMode with
  | nil =>
    have none : packetTokenizer.tokens limit [] = [] := packetTokenizer.tokens_of_end rfl
    simp [sent, replies, none]
  | cons turn turns ih =>
    -- the acknowledgement in front of a reply is read apart from it
    have front (mode : Bool) (inside : (writeResponse turn.response ++ sent mode turns).length ≤ limit) :
        packetTokenizer.tokens limit (writeResponse turn.response ++ sent mode turns) =
          .data turn.response.payload (computeChecksumIncremental turn.response.payload 0) :: replies mode turns ↔
        (35 : UInt8) ∉ turn.response.payload ∧ ∀ turn ∈ turns, (35 : UInt8) ∉ turn.response.payload := by
      rw [List.length_append] at inside
      rw [← ih mode (by omega)]
      constructor
      · intro cut
        have plain := plain_of_tokens cut
        rw [tokens_response _ _ plain (by omega)] at cut
        exact ⟨plain, (List.cons.inj cut).2⟩
      · rintro ⟨plain, cut⟩
        rw [tokens_response _ _ plain (by omega), cut]
    rw [List.forall_mem_cons]
    cases ackMode with
    | false =>
      simp only [sent, replies, Bool.false_eq_true, if_false, List.nil_append] at room ⊢
      exact front _ room
    | true =>
      simp only [sent, replies, if_true, List.singleton_append] at room ⊢
      rw [List.length_append] at room
      have one : (ascii "+").length = 1 := rfl
      rw [tokens_ack _ (by omega), List.cons_inj_right]
      exact front _ (by omega)

/-- The loop ends, with what remains to be done when it starts. -/
theorem processPacketsFrom_ends (h : Handler σ) (reader : Reader) (handler : σ) : ∃ rounds,
    processPacketsFrom h rounds reader handler = some ((serveFrom h true
      (packetTokenizer.tokens maxPacketSize reader.stream)).runOn ⟨handler, [], []⟩) := by
  refine ⟨(Session.start reader handler).work + 1, ?_⟩
  apply Loop.run_eq_of_measure Session.Valid (Session.remaining h) Session.work
  · intro s next valid went
    have advance := round_advance went
    exact ⟨advance_valid valid advance, advance_remaining valid advance, advance_work advance⟩
  · intro s outcome valid left
    exact ends_remaining valid (round_ends valid left)
  · exact start_valid reader handler

/-- Whatever the client sends and however it arrives, the session consists of one turn for each frame, in their
order, each taken in the state that the one before has left, up to one whose handling panics if there is such
a frame. If there is none, the handler gets the calls of the turns and no others, and the client reads the
responses, acknowledged until a request turns that off, exactly if no response has the mark of its own end in
it. -/
theorem client_reads_replies_iff (h : Handler σ) (reader : Reader) (handler : σ) :
    ∃ rounds result server, processPacketsFrom h rounds reader handler = some (result, server) ∧
    ∃ turns last,
      Conversed h handler (payloads (packetTokenizer.tokens maxPacketSize reader.stream)) result turns last ∧
      (result = some () →
        server.handler = last ∧ server.calls = turns.flatMap Turn.calls ∧
        (packetTokenizer.tokens server.output.length server.output = replies true turns ↔
          ∀ turn ∈ turns, (35 : UInt8) ∉ turn.response.payload)) := by
  obtain ⟨rounds, ran⟩ := processPacketsFrom_ends h reader handler
  rcases served : (serveFrom h true (packetTokenizer.tokens maxPacketSize reader.stream)).runOn ⟨handler, [], []⟩
    with ⟨result, server⟩
  rw [served] at ran
  obtain ⟨turns, last, conversed, ends⟩ := serveFrom_turns served
  refine ⟨rounds, result, server, ran, turns, last, conversed, fun returned => ?_⟩
  rw [ends returned]
  simp only [List.nil_append, true_and]
  exact tokens_sent_iff true turns (Nat.le_refl _)

end GdbRemote
