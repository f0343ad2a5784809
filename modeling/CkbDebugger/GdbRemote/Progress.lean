import CkbDebugger.GdbRemote.HexText
import CkbDebugger.GdbRemote.SelfDelimiting
import CkbDebugger.GdbRemote.Session

/-!
# How far the packet loop gets

A state of the loop stands at a place of the stream: the bytes before it have been cut
into tokens and served. The loop comes to every place that only tokens stand before, and to
no other. Two things follow. A stray byte, or a frame whose checksum cannot be read,
hides all that comes after it; and a frame whose checksum is wrong is served like any other.
-/
namespace GdbRemote

open Nom
open Loop (Reaches)

variable {σ : Type}

/-! ### Places in a stream -/

/-- The bytes are a sequence of tokens, none of them larger than the buffer. -/
inductive Tokenized : Bytes → List Packet → Prop where
  | nil : Tokenized [] []
  | snoc {before wire : Bytes} {packets : List Packet} {packet : Packet}
      (earlier : Tokenized before packets) (token : Token wire packet)
      (fits : wire.length ≤ maxPacketSize) : Tokenized (before ++ wire) (packets ++ [packet])

/-- Serving packets from the start of a session ends, without a panic, in the given mode and
with the given server. -/
def Serves (h : Handler σ) (handler : σ) (packets : List Packet) (ackMode : Bool) (server : Server σ) :
    Prop :=
  (packets.foldlM (processPacket h) true).runOn ⟨handler, [], []⟩ = (some ackMode, server)

theorem serves_nil (h : Handler σ) (handler : σ) : Serves h handler [] true ⟨handler, [], []⟩ := rfl

theorem serves_snoc_iff {h : Handler σ} {handler : σ} {packets : List Packet} {packet : Packet}
    {ackMode : Bool} {server : Server σ} :
    Serves h handler (packets ++ [packet]) ackMode server ↔
      ∃ mode middle, Serves h handler packets mode middle ∧
        (processPacket h mode packet).runOn middle = (some ackMode, server) := by
  unfold Serves
  rw [List.foldlM_append]
  simp only [List.foldlM_cons, List.foldlM_nil, bind_pure]
  rw [runOn_bind]
  cases ran : (packets.foldlM (processPacket h) true).runOn ⟨handler, [], []⟩ with
  | mk result middle =>
    cases result with
    | none => simp
    | some mode =>
      constructor
      · intro served
        exact ⟨mode, middle, rfl, served⟩
      · rintro ⟨_, _, same, served⟩
        cases same
        exact served

/-- The bytes that the session has not served yet. -/
def Session.unserved (s : Session σ) : Bytes := s.pending ++ s.reader.stream

/-- The place of a session: what is before it are tokens that have been served. -/
def Session.At (h : Handler σ) (stream : Bytes) (handler : σ) (s : Session σ) : Prop :=
  ∃ before packets, stream = before ++ s.unserved ∧ Tokenized before packets ∧
    Serves h handler packets s.ackMode s.server

theorem reached_valid {h : Handler σ} {reader : Reader} {handler : σ} {s : Session σ}
    (reached : Reaches (Session.round h) (.start reader handler) s) : s.Valid :=
  reached.invariant (start_valid reader handler)
    fun _ _ valid went => advance_valid valid (round_advance went)

theorem advance_at {h : Handler σ} {stream : Bytes} {handler : σ} {s next : Session σ} (valid : s.Valid)
    (advance : s.Advance h next) (here : s.At h stream handler) : next.At h stream handler := by
  obtain ⟨before, packets, whole, tokenized, serves⟩ := here
  cases advance with
  | read chunk reading there nonempty arrived appended inside sameMode sameServer =>
    refine ⟨before, packets, ?_, tokenized, by rwa [sameMode, sameServer]⟩
    rw [whole, Session.unserved, Session.unserved, arrived, appended, List.append_assoc]
  | token parsed len packet parsing there found served dropped sameEnd sameStream =>
    obtain ⟨wire, rest, split, rfl, token⟩ := (runParser_eq_some_iff _ _ _).mp found
    -- what the buffer holds is no longer than the buffer
    have fits : wire.length ≤ maxPacketSize := by
      have short := pending_length valid
      rw [split, List.length_append] at short
      omega
    refine ⟨before ++ wire, packets ++ [packet], ?_, .snoc tokenized token fits, ?_⟩
    · rw [whole, Session.unserved, Session.unserved, dropped, sameStream, split, List.drop_left]
      simp only [List.append_assoc]
    · exact serves_snoc_iff.mpr ⟨s.ackMode, s.server, serves, served⟩
  | compact parsed parsing there missing kept inside sameStream sameMode sameServer =>
    refine ⟨before, packets, ?_, tokenized, by rwa [sameMode, sameServer]⟩
    rw [whole, Session.unserved, Session.unserved, kept, sameStream]

/-- What the loop has consumed in any state are tokens. -/
theorem reached_at {h : Handler σ} {reader : Reader} {handler : σ} {s : Session σ}
    (reached : Reaches (Session.round h) (.start reader handler) s) :
    s.At h reader.stream handler := by
  induction reached with
  | start => exact ⟨[], [], rfl, .nil, serves_nil h handler⟩
  | again reached went ih => exact advance_at (reached_valid reached) (round_advance went) ih

/-- The session is in the inner loop, with the packet at the front of what is left. -/
def Session.Front (s : Session σ) (packet : Packet) : Prop :=
  (∃ parsed, s.phase = .parsing parsed) ∧ ∃ len, runParser s.pending = some (len, packet)

/-- A token at the start of what is left is not lost by looking at a part of it. -/
theorem runParser_buffered {pending arriving wire rest : Bytes} {packet : Packet}
    (token : Token wire packet) (next : pending ++ arriving = wire ++ rest)
    (inside : wire.length ≤ pending.length) : runParser pending = some (wire.length, packet) := by
  have whole : runParser (pending ++ arriving) = some (wire.length, packet) :=
    (runParser_eq_some_iff _ _ _).mpr ⟨wire, rest, next, rfl, token⟩
  exact packetTokenizer.restrict arriving whole inside

/-- What is found in the buffer is what the stream goes on with. -/
theorem found_unique {pending arriving wire rest : Bytes} {packet found : Packet} {len : Nat}
    (token : Token wire packet) (next : pending ++ arriving = wire ++ rest)
    (read : runParser pending = some (len, found)) : len = wire.length ∧ found = packet := by
  have whole : runParser (pending ++ arriving) = some (wire.length, packet) :=
    (runParser_eq_some_iff _ _ _).mpr ⟨wire, rest, next, rfl, token⟩
  have extended : runParser (pending ++ arriving) = some (len, found) := packetTokenizer.extend arriving read
  rw [whole] at extended
  cases extended
  exact ⟨rfl, rfl⟩

/-- A token that is next in the stream is soon at the front of the buffer. -/
theorem reaches_front {h : Handler σ} {reader : Reader} {handler : σ} {s : Session σ}
    (reached : Reaches (Session.round h) (.start reader handler) s) {wire rest : Bytes} {packet : Packet}
    (token : Token wire packet) (fits : wire.length ≤ maxPacketSize) (next : s.unserved = wire ++ rest) :
    ∃ t, Reaches (Session.round h) (.start reader handler) t ∧ t.Front packet ∧
      t.unserved = s.unserved ∧ t.ackMode = s.ackMode ∧ t.server = s.server := by
  have valid := reached_valid reached
  -- the loop comes closer to the end of its input in every round
  induction work : s.work using Nat.strongRecOn generalizing s with
  | ind count ih =>
    have goOn : ∀ s', s.round h = .again s' → s'.unserved = s.unserved → s'.ackMode = s.ackMode →
        s'.server = s.server → ∃ t, Reaches (Session.round h) (.start reader handler) t ∧
          t.Front packet ∧ t.unserved = s.unserved ∧ t.ackMode = s.ackMode ∧ t.server = s.server := by
      intro s' went sameBytes sameMode sameServer
      have advance := round_advance went
      obtain ⟨t, reachedT, front, bytes, mode, server⟩ :=
        ih s'.work (work ▸ advance_work advance) (.again reached went) (sameBytes.trans next)
          (advance_valid valid advance) rfl
      exact ⟨t, reachedT, front, bytes.trans sameBytes, mode.trans sameMode, server.trans sameServer⟩
    -- in the inner loop the token is there, or there is not enough of it yet
    cases here : s.phase with
    | parsing parsed =>
      cases found : runParser s.pending with
      | some result =>
        obtain ⟨len, packet'⟩ := result
        obtain ⟨-, rfl⟩ := found_unique token next found
        exact ⟨s, reached, ⟨⟨parsed, here⟩, len, found⟩, rfl, rfl, rfl⟩
      | none =>
        cases went : s.round h with
        | again s' =>
          cases round_advance went with
          | read chunk reading => rw [here] at reading; cases reading
          | token parsed len packet' parsing there read => rw [found] at read; cases read
          | compact parsed parsing there missing kept inside sameStream sameMode sameServer =>
            exact goOn s' went (by rw [Session.unserved, Session.unserved, kept, sameStream]) sameMode sameServer
        | leave outcome =>
          cases round_ends valid went with
          | noInput reading => rw [here] at reading; cases reading
          | noRoom reading => rw [here] at reading; cases reading
          | panic len packet' server read => rw [found] at read; cases read
    | reading =>
      have missing : runParser s.pending = none := by
        have phase := valid.2
        rwa [here] at phase
      cases went : s.round h with
      | again s' =>
        cases round_advance went with
        | read chunk reading there nonempty arrived appended inside sameMode sameServer =>
          refine goOn s' went ?_ sameMode sameServer
          rw [Session.unserved, Session.unserved, appended, arrived, List.append_assoc]
        | token parsed len packet' parsing there read => rw [missing] at read; cases read
        | compact parsed parsing => rw [here] at parsing; cases parsing
      | leave outcome =>
        -- the buffer would hold the whole token
        have short : s.pending.length < wire.length := by
          by_contra inside
          rw [runParser_buffered token next (by omega)] at missing
          cases missing
        cases round_ends valid went with
        | noInput reading ended =>
          have length := congrArg List.length next
          rw [Session.unserved, ended, List.append_nil, List.length_append] at length
          omega
        | noRoom reading full =>
          -- a token that fits into the buffer does not fill it without being complete
          have length : s.pending.length = maxPacketSize := by
            have size := s.buf.sized
            simp only [Session.pending, here, List.length_take]
            omega
          omega
        | panic len packet' server read => rw [missing] at read; cases read

/-- The loop comes to every place that only tokens stand before, if serving them does
not end it. -/
theorem reaches_place {h : Handler σ} {reader : Reader} {handler : σ} {before : Bytes}
    {packets : List Packet} (tokenized : Tokenized before packets) {rest : Bytes}
    (whole : reader.stream = before ++ rest) {ackMode : Bool} {server : Server σ}
    (serves : Serves h handler packets ackMode server) :
    ∃ s, Reaches (Session.round h) (.start reader handler) s ∧ s.unserved = rest ∧
      s.ackMode = ackMode ∧ s.server = server := by
  induction tokenized generalizing rest ackMode server with
  | nil =>
    cases serves
    exact ⟨_, .start, whole, rfl, rfl⟩
  | @snoc before wire packets packet earlier token fits ih =>
    obtain ⟨mode, middle, servesBefore, served⟩ := serves_snoc_iff.mp serves
    obtain ⟨s, reached, bytes, rfl, rfl⟩ := ih (by rw [whole, List.append_assoc]) servesBefore
    obtain ⟨t, reachedT, ⟨⟨parsed, parsing⟩, len, found⟩, sameBytes, sameMode, sameServer⟩ :=
      reaches_front reached token fits bytes
    have valid := reached_valid reachedT
    obtain ⟨rfl, -⟩ := found_unique token (sameBytes.trans bytes) found
    rw [← sameMode, ← sameServer] at served
    -- the round that serves the packet drops its bytes from what is left
    cases went : t.round h with
    | again next =>
      cases round_advance went with
      | read chunk reading => rw [parsing] at reading; cases reading
      | token parsed' len packet' here there found' served' dropped sameEnd sameStream =>
        rw [found] at found'
        cases found'
        rw [served] at served'
        obtain ⟨sameModes, sameServers⟩ := Prod.mk.inj served'
        refine ⟨next, .again reachedT went, ?_, (Option.some.inj sameModes).symm, sameServers.symm⟩
        have inside := (packetTokenizer.bounds found).2
        have dropAll : next.unserved = t.unserved.drop wire.length := by
          rw [Session.unserved, Session.unserved, dropped, sameStream, List.drop_append_of_le_length inside]
        rw [dropAll, sameBytes, bytes, List.drop_left]
      | compact parsed' here there missing => rw [found] at missing; cases missing
    | leave outcome =>
      cases round_ends valid went with
      | noInput reading => rw [parsing] at reading; cases reading
      | noRoom reading => rw [parsing] at reading; cases reading
      | panic len packet' server found' served' =>
        rw [found] at found'
        cases found'
        rw [served] at served'
        cases served'

/-! ### Checksums -/

/-- The checksum is the sum of the payload modulo 256. -/
def Matches (data : Bytes) (chk : UInt8) : Prop := chk.toNat = byteSum data % 256

/-- Serving the frame in this state writes an acknowledgement, or calls the handler. -/
def Session.Accepts (h : Handler σ) (s : Session σ) (data : Bytes) (chk : UInt8) : Prop :=
  let after := ((processPacket h s.ackMode (.data data chk)).runOn s.server).2
  (∃ more, after.output = s.server.output ++ (ascii "+" ++ more)) ∨ after.calls ≠ s.server.calls

/-- While acknowledgements are on, only frames with a matching checksum are acknowledged or
reach the handler. -/
def ChecksumsRespected (h : Handler σ) (reader : Reader) (handler : σ) : Prop :=
  ∀ s, Reaches (Session.round h) (.start reader handler) s → s.ackMode = true →
    ∀ data chk, s.Front (.data data chk) → s.Accepts h data chk → Matches data chk

/-- Every frame that the loop comes to with acknowledgements on has a matching checksum. -/
def ChecksumsMatch (h : Handler σ) (stream : Bytes) (handler : σ) : Prop :=
  ∀ before packets server wire data chk rest, stream = before ++ (wire ++ rest) →
    Tokenized before packets → Serves h handler packets true server →
    Token wire (.data data chk) → wire.length ≤ maxPacketSize → Matches data chk

theorem handlePacket_output (h : Handler σ) (data : Bytes) (server : Server σ) :
    server.output <+: ((handlePacket h data).runOn server).2.output := by
  unfold handlePacket
  cases parsed : command data with
  | panic => exact List.prefix_refl _
  | incomplete => exact List.prefix_append _ _
  | error => exact List.prefix_append _ _
  | done rest cmd =>
    have silent := handleCommand_silent h cmd server
    simp only
    rw [runOn_bind]
    cases ran : (handleCommand h cmd).runOn server with
    | mk result middle =>
      rw [ran] at silent
      cases result with
      | none => exact silent ▸ List.prefix_refl _
      | some response =>
        rw [← silent]
        exact List.prefix_append middle.output (writeResponse response)

/-- Every frame is accepted while acknowledgements are on. -/
theorem accepts_of_ackMode (h : Handler σ) (s : Session σ) (mode : s.ackMode = true) (data : Bytes)
    (chk : UInt8) : s.Accepts h data chk := by
  left
  -- the `+` is written before the packet is looked at; the checksum is not
  have acknowledged : (processPacket h s.ackMode (.data data chk)).runOn s.server =
      (do
        let noAckMode ← handlePacket h data
        return if noAckMode then false else true : Service σ Bool).runOn
          { s.server with output := s.server.output ++ ascii "+" } := by
    simp only [processPacket, mode, acknowledge, if_true]
    rw [runOn_bind, runOn_write]
  obtain ⟨more, extended⟩ := handlePacket_output h data { s.server with output := s.server.output ++ ascii "+" }
  refine ⟨more, ?_⟩
  rw [acknowledged, runOn_bind]
  rw [List.append_assoc] at extended
  cases ran : (handlePacket h data).runOn { s.server with output := s.server.output ++ ascii "+" } with
  | mk result after =>
    rw [ran] at extended
    cases result with
    | none => exact extended.symm
    | some noAck => exact extended.symm

/-- The loop respects checksums exactly on the streams in which it comes to no frame with a
wrong one. -/
theorem checksums_respected_iff (h : Handler σ) (reader : Reader) (handler : σ) :
    ChecksumsRespected h reader handler ↔ ChecksumsMatch h reader.stream handler := by
  constructor
  · intro respected before packets server wire data chk rest whole tokenized serves token fits
    obtain ⟨s, reached, bytes, mode, -⟩ := reaches_place tokenized whole serves
    obtain ⟨t, reachedT, front, -, sameMode, -⟩ := reaches_front reached token fits bytes
    have on : t.ackMode = true := sameMode.trans mode
    exact respected t reachedT on data chk front (accepts_of_ackMode h t on data chk)
  · intro matched s reached mode data chk front accepted
    obtain ⟨before, packets, whole, tokenized, serves⟩ := reached_at reached
    obtain ⟨-, len, found⟩ := front
    obtain ⟨wire, rest, split, -, token⟩ := (runParser_eq_some_iff _ _ _).mp found
    have fits : wire.length ≤ maxPacketSize := by
      have short := pending_length (reached_valid reached)
      rw [split, List.length_append] at short
      omega
    rw [mode] at serves
    refine matched before packets s.server wire data chk (rest ++ s.reader.stream) ?_ tokenized serves
      token fits
    rw [whole, Session.unserved, split, List.append_assoc]

/-- A handler that knows why the program has stopped, and nothing else. -/
def haltOnly : Handler Unit := fun call state =>
  match call with
  | .haltReason => some (.ok (.signal 5), state)
  | _ => none

/-- A frame whose checksum should be `3f` is acknowledged and answered. -/
theorem wrong_checksum_accepted :
    ¬ChecksumsRespected haltOnly ⟨ascii "$?#00", fun _ => 1⟩ () := by
  intro respected
  have token : Token (ascii "$?#00") (.data (ascii "?") 0) :=
    .frame (ascii "?") (ascii "00") 0 (by decide) rfl (by decide)
  have first : (Session.start ⟨ascii "$?#00", fun _ => 1⟩ ()).unserved = ascii "$?#00" ++ [] := rfl
  obtain ⟨t, reached, front, -, mode, -⟩ :=
    reaches_front (h := haltOnly) .start token (by decide) first
  -- the sum of the payload is the code of the question mark, 63
  have matched := respected t reached mode (ascii "?") 0 front (accepts_of_ackMode haltOnly t mode _ _)
  exact absurd matched (by unfold Matches; decide)

/-! ### Stray bytes -/

/-- A frame that the protocol allows: a payload without `#`, and two hexadecimal digits. -/
structure WellFormed (wire data : Bytes) : Prop where
  shape : ∃ c d, wire = ascii "$" ++ (data ++ (ascii "#" ++ [c, d])) ∧ isHexDigit c = true ∧ isHexDigit d = true
  plain : (35 : UInt8) ∉ data
  fits : wire.length ≤ maxPacketSize

/-- Places of a stream that are not inside a span from a `$` to two bytes after a `#`. -/
inductive OutsideSpans : Bytes → Prop where
  | nil : OutsideSpans []
  | stray {before : Bytes} {b : UInt8} (earlier : OutsideSpans before) (other : b ≠ 36) :
      OutsideSpans (before ++ [b])
  | span {before data : Bytes} {c d : UInt8} (earlier : OutsideSpans before) (plain : (35 : UInt8) ∉ data) :
      OutsideSpans (before ++ (ascii "$" ++ (data ++ (ascii "#" ++ [c, d]))))

/-- The session passes the payload of the frame that the given bytes start with to
`handle_packet`. -/
def Passed (h : Handler σ) (reader : Reader) (handler : σ) (data bytes : Bytes) : Prop :=
  ∃ s chk, Reaches (Session.round h) (.start reader handler) s ∧ s.unserved = bytes ∧
    s.Front (.data data chk)

/-- Only tokens stand before a place, and serving them does not end the session. -/
def Served (h : Handler σ) (handler : σ) (before : Bytes) : Prop :=
  ∃ packets ackMode server, Tokenized before packets ∧ Serves h handler packets ackMode server

def hexDigits : Bytes := ascii "0123456789abcdefABCDEF"

theorem mem_hexDigits (c : UInt8) (digit : isHexDigit c = true) : c ∈ hexDigits := by
  rw [← hexDigits_contains] at digit
  exact List.contains_iff_mem.mp digit

theorem hexDigits_read : ∀ c ∈ hexDigits, ∀ d ∈ hexDigits,
    ((fromUtf8 [c, d]).bind u8FromStrRadix).isSome = true := by decide +kernel

theorem wellFormed_token {wire data : Bytes} (wellFormed : WellFormed wire data) :
    ∃ chk, Token wire (.data data chk) := by
  obtain ⟨c, d, rfl, first, second⟩ := wellFormed.shape
  obtain ⟨chk, read⟩ := Option.isSome_iff_exists.mp
    (hexDigits_read c (mem_hexDigits c first) d (mem_hexDigits d second))
  exact ⟨chk, .frame data [c, d] chk wellFormed.plain rfl read⟩

/-- A frame is passed on exactly if what stands before it is served. -/
theorem passed_iff (h : Handler σ) (reader : Reader) (handler : σ) {before wire data rest : Bytes}
    (whole : reader.stream = before ++ (wire ++ rest)) (wellFormed : WellFormed wire data) :
    Passed h reader handler data (wire ++ rest) ↔ Served h handler before := by
  constructor
  · rintro ⟨s, chk, reached, bytes, -⟩
    obtain ⟨before', packets, split, tokenized, serves⟩ := reached_at reached
    rw [whole, bytes] at split
    obtain rfl : before = before' := List.append_cancel_right split
    exact ⟨packets, s.ackMode, s.server, tokenized, serves⟩
  · rintro ⟨packets, ackMode, server, tokenized, serves⟩
    obtain ⟨chk, token⟩ := wellFormed_token wellFormed
    obtain ⟨s, reached, bytes, -, -⟩ := reaches_place tokenized whole serves
    obtain ⟨t, reachedT, front, sameBytes, -, -⟩ := reaches_front reached token wellFormed.fits bytes
    exact ⟨t, chk, reachedT, sameBytes.trans bytes, front⟩

/-! ### Buffers without a token -/

/-- The bytes are a proper part, from its start, of a frame that the protocol allows. -/
def FramePart (bytes : Bytes) : Prop :=
  ∃ more data, more ≠ [] ∧ WellFormed (bytes ++ more) data

/-- The round reads a token, and so at least one byte. -/
def Session.Consumes (s : Session σ) : Prop :=
  ∃ len packet, runParser s.pending = some (len, packet) ∧ 0 < len

/-- What can stand at the front of the buffer and be neither a token nor a part of a frame:
a stray byte, a frame with a checksum that cannot be read, or too much for a frame. -/
inductive Junk : Bytes → Prop where
  | stray {b : UInt8} {rest : Bytes} (other : b ∉ ascii "$+-\x03") : Junk (b :: rest)
  | unreadable {data sum rest : Bytes} (plain : (35 : UInt8) ∉ data) (twoBytes : sum.length = 2)
      (unread : (fromUtf8 sum).bind u8FromStrRadix = none) :
      Junk (ascii "$" ++ (data ++ (ascii "#" ++ (sum ++ rest))))
  | noDigit {data : Bytes} {c : UInt8} (plain : (35 : UInt8) ∉ data) (other : isHexDigit c = false) :
      Junk (ascii "$" ++ (data ++ (ascii "#" ++ [c])))
  | endless {data : Bytes} (plain : (35 : UInt8) ∉ data) (large : maxPacketSize < data.length + 4) :
      Junk (ascii "$" ++ data)
  | oversized {data sum : Bytes} (plain : (35 : UInt8) ∉ data) (part : sum.length < 2)
      (large : maxPacketSize < data.length + 4) : Junk (ascii "$" ++ (data ++ (ascii "#" ++ sum)))

/-- What a buffer can start with. -/
theorem buffer_cases (pending : Bytes) : pending = [] ∨
    (∃ wire packet rest, pending = wire ++ rest ∧ Token wire packet) ∨
    (∃ b rest, pending = b :: rest ∧ b ∉ ascii "$+-\x03") ∨
    (∃ data, pending = ascii "$" ++ data ∧ (35 : UInt8) ∉ data) ∨
    (∃ data sum, pending = ascii "$" ++ (data ++ (ascii "#" ++ sum)) ∧ (35 : UInt8) ∉ data ∧
      sum.length < 2) ∨
    ∃ data sum rest, pending = ascii "$" ++ (data ++ (ascii "#" ++ (sum ++ rest))) ∧ (35 : UInt8) ∉ data ∧
      sum.length = 2 ∧ (fromUtf8 sum).bind u8FromStrRadix = none := by
  cases pending with
  | nil => exact .inl rfl
  | cons b tail =>
    right
    by_cases known : b ∈ ascii "$+-\x03"
    · have marks : ascii "$+-\x03" = [36, 43, 45, 3] := rfl
      simp only [marks, List.mem_cons, List.not_mem_nil, or_false] at known
      rcases known with rfl | rfl | rfl | rfl
      -- a `$`: is there a `#`, are there two bytes after it, and can they be read
      · by_cases closed : (35 : UInt8) ∈ tail
        · obtain ⟨data, after, rfl, plain⟩ := List.eq_append_cons_of_mem closed
          by_cases short : after.length < 2
          · exact .inr (.inr (.inr (.inl ⟨data, after, rfl, plain, short⟩)))
          · have twoBytes : (after.take 2).length = 2 := by rw [List.length_take]; omega
            have split : after = after.take 2 ++ after.drop 2 := (List.take_append_drop 2 after).symm
            cases read : (fromUtf8 (after.take 2)).bind u8FromStrRadix with
            | none =>
              refine .inr (.inr (.inr (.inr ⟨data, after.take 2, after.drop 2, ?_, plain, twoBytes, read⟩)))
              rw [← split]
              rfl
            | some chk =>
              refine .inl ⟨_, _, after.drop 2, ?_, .frame data (after.take 2) chk plain twoBytes read⟩
              simp only [List.append_assoc]
              rw [← split]
              rfl
        · exact .inr (.inr (.inl ⟨tail, rfl, closed⟩))
      · exact .inl ⟨_, _, tail, rfl, .ack⟩
      · exact .inl ⟨_, _, tail, rfl, .nack⟩
      · exact .inl ⟨_, _, tail, rfl, .interrupt⟩
    · exact .inr (.inl ⟨b, tail, rfl, known⟩)

/-- The first `#` of a frame ends its payload. -/
theorem payload_unique {data data' rest rest' : Bytes} (plain : (35 : UInt8) ∉ data)
    (plain' : (35 : UInt8) ∉ data') (same : ascii "$" ++ (data ++ (ascii "#" ++ rest)) =
      ascii "$" ++ (data' ++ (ascii "#" ++ rest'))) : data = data' ∧ rest = rest' := by
  have inner := List.append_cancel_left same
  obtain ⟨first, after⟩ := (payload_cut_iff _ data rest).mpr ⟨rfl, plain⟩
  obtain ⟨first', after'⟩ := (payload_cut_iff _ data' rest').mpr ⟨inner, plain'⟩
  exact ⟨first.trans first'.symm, List.append_cancel_left (after.trans after'.symm)⟩

theorem dollar_known : (36 : UInt8) ∈ ascii "$+-\x03" := by decide

theorem junk_not_framePart {bytes : Bytes} (junk : Junk bytes) : ¬FramePart bytes := by
  rintro ⟨more, data', -, ⟨c, d, whole, first, second⟩, plain', fits⟩
  -- besides its payload a frame has four bytes
  have size : data'.length + 4 ≤ maxPacketSize := by
    rw [whole] at fits
    have length : (ascii "$" ++ (data' ++ (ascii "#" ++ [c, d]))).length = data'.length + 4 := by
      simp only [List.length_append, List.length_cons, List.length_nil]
      exact Nat.add_comm 1 _
    omega
  cases junk with
  | stray other =>
    have head : _ = (36 : UInt8) := (List.cons.inj whole).1
    exact other (head ▸ dollar_known)
  | unreadable plain twoBytes unread =>
    simp only [List.append_assoc] at whole
    obtain ⟨-, sums⟩ := payload_unique plain plain' whole
    obtain ⟨rfl, -⟩ := List.append_inj (sums.trans (List.append_nil [c, d]).symm) twoBytes
    have read := hexDigits_read c (mem_hexDigits c first) d (mem_hexDigits d second)
    rw [unread] at read
    cases read
  | noDigit plain other =>
    simp only [List.append_assoc] at whole
    obtain ⟨-, sums⟩ := payload_unique plain plain' whole
    have same : _ = c := (List.cons.inj sums).1
    rw [same, first] at other
    cases other
  | @endless data plain large =>
    -- the payload of the frame goes on where the bytes end
    have inner : data ++ more = data' ++ (ascii "#" ++ [c, d]) := List.append_cancel_left
      ((List.append_assoc _ _ _).symm.trans whole)
    have within : data.length ≤ data'.length := by
      by_contra longer
      have start : data' ++ [35] <+: data := List.prefix_of_prefix_length_le
        (inner ▸ ⟨[c, d], by rw [List.append_assoc]; rfl⟩) (List.prefix_append data more)
        (by simp only [List.length_append, List.length_cons, List.length_nil]; omega)
      exact plain (start.subset (by simp))
    omega
  | oversized plain part large =>
    simp only [List.append_assoc] at whole
    obtain ⟨rfl, -⟩ := payload_unique plain plain' whole
    omega

theorem junk_no_token {bytes : Bytes} (junk : Junk bytes) : runParser bytes = none := by
  cases found : runParser bytes with
  | none => rfl
  | some result =>
    obtain ⟨len, packet⟩ := result
    obtain ⟨wire, rest', split, -, token⟩ := (runParser_eq_some_iff _ _ _).mp found
    -- a single byte starts nothing that begins with `$`
    have single (b : UInt8) (mark : b ∈ ascii "+-\x03") : ∀ rest, bytes ≠ b :: rest := by
      intro rest same
      have known : b ∈ ascii "$+-\x03" := List.mem_cons_of_mem 36 mark
      have notDollar : b ≠ 36 := by
        rintro rfl
        exact absurd mark (by decide)
      cases junk with
      | stray other =>
        obtain ⟨rfl, -⟩ := List.cons.inj same
        exact other known
      | unreadable => exact notDollar (List.cons.inj same).1.symm
      | noDigit => exact notDollar (List.cons.inj same).1.symm
      | endless => exact notDollar (List.cons.inj same).1.symm
      | oversized => exact notDollar (List.cons.inj same).1.symm
    cases token with
    | ack => exact absurd split (single 43 (by decide) rest')
    | nack => exact absurd split (single 45 (by decide) rest')
    | interrupt => exact absurd split (single 3 (by decide) rest')
    | frame data' sum' chk plain' twoBytes' value =>
      -- the payload ends at its first `#`, so only one pair of bytes can be the checksum
      simp only [List.append_assoc] at split
      cases junk with
      | stray other =>
        have head : _ = (36 : UInt8) := (List.cons.inj split).1
        exact absurd (head ▸ dollar_known) other
      | unreadable plain twoBytes unread =>
        obtain ⟨-, sums⟩ := payload_unique plain plain' split
        obtain ⟨rfl, -⟩ := List.append_inj sums (twoBytes.trans twoBytes'.symm)
        rw [unread] at value
        cases value
      | noDigit plain other =>
        obtain ⟨-, sums⟩ := payload_unique plain plain' split
        have length := congrArg List.length sums
        simp only [List.length_append, List.length_cons, List.length_nil] at length
        omega
      | endless plain large =>
        have inner := List.append_cancel_left split
        exact absurd (by rw [inner]; simp [ascii]) plain
      | oversized plain part large =>
        obtain ⟨-, sums⟩ := payload_unique plain plain' split
        have length := congrArg List.length sums
        rw [List.length_append] at length
        omega

/-- A buffer that holds neither junk nor a part of a frame starts with a token. -/
theorem token_of_not_junk {pending : Bytes} (noJunk : ¬Junk pending) (noPart : ¬FramePart pending) :
    ∃ wire packet rest, pending = wire ++ rest ∧ Token wire packet := by
  -- what is missing can be filled up with zeros
  have complete (data sum digits : Bytes) (plain : (35 : UInt8) ∉ data) (fits : data.length + 4 ≤ maxPacketSize)
      (missing : digits ≠ []) {c d : UInt8} (two : sum ++ digits = [c, d]) (first : isHexDigit c = true)
      (second : isHexDigit d = true) : FramePart (ascii "$" ++ (data ++ (ascii "#" ++ sum))) := by
    refine ⟨digits, data, missing, ⟨c, d, ?_, first, second⟩, plain, ?_⟩
    · simp only [List.append_assoc, two]
    · simp only [List.append_assoc, two, List.length_append, List.length_cons, List.length_nil]
      exact Nat.le_trans (Nat.le_of_eq (Nat.add_comm 1 _)) fits
  rcases buffer_cases pending with rfl | token | ⟨b, rest, rfl, other⟩ | ⟨data, rfl, plain⟩ |
    ⟨data, sum, rfl, plain, part⟩ | ⟨data, sum, rest, rfl, plain, twoBytes, unread⟩
  · exact absurd ⟨ascii "$#00", [], by decide, ⟨48, 48, rfl, rfl, rfl⟩, by simp, by decide⟩ noPart
  · exact token
  · exact absurd (.stray other) noJunk
  · by_cases large : maxPacketSize < data.length + 4
    · exact absurd (.endless plain large) noJunk
    · refine absurd ⟨ascii "#00", data, by decide, ⟨48, 48, ?_, rfl, rfl⟩, plain, ?_⟩ noPart
      · rw [List.append_assoc]
        rfl
      · have length : (ascii "$" ++ data ++ ascii "#00").length = data.length + 4 := by
          have one : (ascii "$").length = 1 := rfl
          have three : (ascii "#00").length = 3 := rfl
          rw [List.length_append, List.length_append, one, three]
          omega
        omega
  · by_cases large : maxPacketSize < data.length + 4
    · exact absurd (.oversized plain part large) noJunk
    -- none or one of the two digits is there
    · match sum, part with
      | [], _ =>
        exact absurd (complete data [] [48, 48] plain (by omega) (by simp) rfl rfl rfl) noPart
      | [c], _ =>
        by_cases digit : isHexDigit c = true
        · exact absurd (complete data [c] [48] plain (by omega) (by simp) rfl digit rfl) noPart
        · exact absurd (.noDigit plain (Bool.eq_false_iff.mpr digit)) noJunk
  · exact absurd (.unreadable plain twoBytes unread) noJunk

theorem consumes_iff (s : Session σ) :
    (¬FramePart s.pending → s.Consumes) ↔ ¬Junk s.pending := by
  constructor
  · intro consumes junk
    obtain ⟨len, packet, found, -⟩ := consumes (junk_not_framePart junk)
    rw [junk_no_token junk] at found
    cases found
  · intro noJunk noPart
    obtain ⟨wire, packet, rest, split, token⟩ := token_of_not_junk noJunk noPart
    exact ⟨wire.length, packet, (runParser_eq_some_iff _ _ _).mpr ⟨wire, rest, split, rfl, token⟩,
      List.length_pos_of_ne_nil (token_ne_nil token)⟩

/-- A frame is passed to `handle_packet` exactly if only tokens stand before it and serving these does not
end the session; and a state of the inner loop whose buffer is not a part of a frame consumes
a byte exactly if the buffer does not start with junk. -/
theorem resynchronises_iff (h : Handler σ) (reader : Reader) (handler : σ) :
    (∀ before wire data rest, reader.stream = before ++ (wire ++ rest) → WellFormed wire data →
      (Passed h reader handler data (wire ++ rest) ↔ Served h handler before)) ∧
    ∀ s parsed, Reaches (Session.round h) (.start reader handler) s → s.phase = .parsing parsed →
      ((¬FramePart s.pending → s.Consumes) ↔ ¬Junk s.pending) :=
  ⟨fun _ _ _ _ whole wellFormed => passed_iff h reader handler whole wellFormed,
    fun s _ _ _ => consumes_iff s⟩

theorem not_tokenized_stray {packets : List Packet} : ¬Tokenized (ascii "x") packets := by
  -- the first byte of a token is one of four
  suffices stray : ∀ bytes packets, Tokenized bytes packets → ∀ b ∈ bytes.head?, b ∈ ascii "$+-\x03" by
    intro tokenized
    exact absurd (stray _ _ tokenized 120 rfl) (by decide)
  intro bytes packets tokenized
  induction tokenized with
  | nil => simp
  | @snoc before wire packets packet earlier token fits ih =>
    intro b first
    cases before with
    | nil => cases token <;> cases first <;> decide
    | cons c before => exact ih b first

/-- A stray byte before a frame hides it. -/
theorem stray_byte_hides_frame :
    OutsideSpans (ascii "x") ∧ WellFormed (ascii "$?#3f") (ascii "?") ∧
      ¬Passed haltOnly ⟨ascii "x$?#3f", fun _ => 1⟩ () (ascii "?") (ascii "$?#3f") := by
  have outside : OutsideSpans ([] ++ [120]) := .stray .nil (by decide)
  refine ⟨outside, ⟨⟨51, 102, rfl, rfl, rfl⟩, by decide, by decide⟩, ?_⟩
  rintro ⟨s, chk, reached, bytes, -⟩
  obtain ⟨before, packets, split, tokenized, -⟩ := reached_at reached
  rw [bytes] at split
  have whole : ascii "x" ++ ascii "$?#3f" = before ++ ascii "$?#3f" := split
  have stray : ascii "x" = before := List.append_cancel_right whole
  rw [← stray] at tokenized
  exact not_tokenized_stray tokenized

end GdbRemote
