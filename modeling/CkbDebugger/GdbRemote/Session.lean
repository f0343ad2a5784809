import CkbDebugger.Loop.Basic
import CkbDebugger.GdbRemote.Frame
import CkbDebugger.GdbRemote.Handler

/-!
# The packet loop

`process_packets_from` reads into a buffer of fixed size, cuts tokens off its
front and moves what is left to the start of the buffer. The loop is compared
with a specification that sees the whole input at once: it tokenises the input
and serves the packets one after the other. The two agree however the input is
split into reads.
-/
namespace GdbRemote

variable {σ : Type}

/-! ### The buffer and the reader -/

/-- The receive buffer, which keeps its size. -/
structure Buffer where
  bytes : Bytes
  sized : bytes.length = maxPacketSize

def Buffer.zeroed : Buffer := ⟨List.replicate maxPacketSize 0, List.length_replicate⟩

/-- `&buf[start..stop]`; an inverted range, or one outside the buffer, panics. -/
def Buffer.slice (buf : Buffer) (start stop : Nat) : Option Bytes :=
  if start ≤ stop ∧ stop ≤ maxPacketSize then some ((buf.bytes.drop start).take (stop - start))
  else none

/-- What a read leaves in the buffer when it puts a chunk at `start`. -/
def Buffer.fill (buf : Buffer) (start : Nat) (chunk : Bytes)
    (room : start + chunk.length ≤ maxPacketSize) : Buffer where
  bytes := buf.bytes.take start ++ chunk ++ buf.bytes.drop (start + chunk.length)
  sized := by
    have size := buf.sized
    simp only [List.length_append, List.length_take, List.length_drop]
    omega

/-- `buf.copy_within(start..stop, 0)`. -/
def Buffer.copyWithin (buf : Buffer) (start stop : Nat) : Option Buffer :=
  if range : start ≤ stop ∧ stop ≤ maxPacketSize then
    some {
      bytes := (buf.bytes.drop start).take (stop - start) ++ buf.bytes.drop (stop - start)
      sized := by
        have size := buf.sized
        simp only [List.length_append, List.length_take, List.length_drop]
        omega }
  else none

/-- A reader over a byte stream. `sizes` is how many bytes each read would like
to return; a read returns no more than fit and no more than there are. -/
structure Reader where
  stream : Bytes
  sizes : Nat → Nat

/-- `Read::read` into a slice of `free` bytes. -/
def Reader.read (reader : Reader) (free : Nat) : Bytes × Reader :=
  let count := min (max 1 (reader.sizes 0)) (min free reader.stream.length)
  (reader.stream.take count, ⟨reader.stream.drop count, fun i => reader.sizes (i + 1)⟩)

theorem Reader.read_fits (reader : Reader) {endbuf : Nat} (inside : endbuf ≤ maxPacketSize) :
    endbuf + (reader.read (maxPacketSize - endbuf)).1.length ≤ maxPacketSize := by
  simp only [Reader.read, List.length_take]
  omega

/-! ### The loop -/

inductive Phase where
  | reading
  | parsing (parsed : Nat)
  deriving Repr, DecidableEq

/-- The variables of `process_packets_from`. -/
structure Session (σ : Type) where
  buf : Buffer
  endbuf : Nat
  ackMode : Bool
  phase : Phase
  reader : Reader
  server : Server σ

/-- How serving ended: with a panic (`none`) or not, and what was done. -/
abbrev Outcome (σ : Type) := Option Unit × Server σ

def Session.panicked (s : Session σ) : Loop.Round (Session σ) (Outcome σ) := .leave (none, s.server)

def acknowledge (ackMode : Bool) : Service σ Unit := if ackMode then write (ascii "+") else pure ()

/-- The body of the inner loop for one packet; returns the new `ack_mode`. -/
def processPacket (h : Handler σ) (ackMode : Bool) : Packet → Service σ Bool
  -- the checksum has been parsed, and is not compared with anything
  | .data data _checksum => do
    acknowledge ackMode
    let noAckMode ← handlePacket h data
    return if noAckMode then false else ackMode
  | _ => return ackMode

/-- The next step of `process_packets_from`: a read, a parsed token, or the end of
the inner loop. -/
def Session.round (h : Handler σ) (s : Session σ) : Loop.Round (Session σ) (Outcome σ) :=
  match s.phase with
  | .reading =>
    if inside : s.endbuf ≤ maxPacketSize then
      let read := s.reader.read (maxPacketSize - s.endbuf)
      -- the end of the stream, or a buffer that is full
      if read.1 = [] then .leave (some (), s.server)
      else
        .again { s with
          buf := s.buf.fill s.endbuf read.1 (s.reader.read_fits inside)
          endbuf := s.endbuf + read.1.length
          phase := .parsing 0
          reader := read.2 }
    else s.panicked
  | .parsing parsed =>
    match s.buf.slice parsed s.endbuf with
    | none => s.panicked
    | some window =>
      match runParser window with
      | some (len, packet) =>
        match (processPacket h s.ackMode packet).runOn s.server with
        | (some ackMode, server) => .again { s with ackMode, server, phase := .parsing (parsed + len) }
        | (none, server) => .leave (none, server)
      | none =>
        -- what is left over goes to the front of the buffer before the next read
        match s.buf.copyWithin parsed s.endbuf with
        | none => s.panicked
        | some buf => .again { s with buf, endbuf := s.endbuf - parsed, phase := .reading }

def Session.start (reader : Reader) (handler : σ) : Session σ where
  buf := .zeroed
  endbuf := 0
  ackMode := true
  phase := .reading
  reader := reader
  server := ⟨handler, [], []⟩

/-- `process_packets_from`, for at most the given number of rounds. -/
def processPacketsFrom (h : Handler σ) (rounds : Nat) (reader : Reader) (handler : σ) :
    Option (Outcome σ) :=
  Loop.run (Session.round h) rounds (.start reader handler)

/-! ### The specification -/

/-- Serve the packets in order. A data packet is acknowledged unless an earlier
one turned acknowledgements off. -/
def servePackets (h : Handler σ) (earlier : List Bytes) : List Packet → Service σ Unit
  | [] => return
  | .data data _ :: packets => do
    acknowledge (earlier.all fun payload => !startsNoAckMode payload)
    let _ ← handlePacket h data
    servePackets h (earlier ++ [data]) packets
  | _ :: packets => servePackets h earlier packets

/-- What serving a stream should do: tokenise it as a whole, and serve its
packets. -/
def serveStream (h : Handler σ) (stream : Bytes) (handler : σ) : Outcome σ :=
  (servePackets h [] (packetTokenizer.tokens maxPacketSize stream)).runOn ⟨handler, [], []⟩

/-! ### Serving -/

/-- A packet that is served to its end tells whether it was the request for the
mode without acknowledgements. -/
theorem handlePacket_returned (h : Handler σ) (data : Bytes) (server after : Server σ) (noAck : Bool)
    (returned : (handlePacket h data).runOn server = (some noAck, after)) :
    noAck = startsNoAckMode data := by
  unfold handlePacket at returned
  unfold startsNoAckMode
  cases parsed : command data with
  | done rest cmd =>
    rw [parsed] at returned
    obtain ⟨response, middle, _, returned⟩ := runOn_bind_some returned
    obtain ⟨_, _, _, returned⟩ := runOn_bind_some returned
    simp only [runOn_pure, Prod.mk.injEq, Option.some.injEq] at returned
    -- the reply is made before the test, and no reply changes what it tests
    rw [← returned.1]
    split
    next equal =>
      cases equal
      rfl
    next other =>
      simp only [decide_eq_false_iff_not]
      rintro rfl
      exact other rest rfl
  | incomplete =>
    rw [parsed] at returned
    obtain ⟨_, _, _, returned⟩ := runOn_bind_some returned
    simp only [runOn_pure, Prod.mk.injEq, Option.some.injEq] at returned
    exact returned.1.symm
  | error =>
    rw [parsed] at returned
    obtain ⟨_, _, _, returned⟩ := runOn_bind_some returned
    simp only [runOn_pure, Prod.mk.injEq, Option.some.injEq] at returned
    exact returned.1.symm
  | panic =>
    rw [parsed] at returned
    cases returned

/-- The specification with the loop's `ack_mode` in place of the earlier packets. -/
def serveFrom (h : Handler σ) (ackMode : Bool) : List Packet → Service σ Unit
  | [] => return
  | packet :: packets => do
    let ackMode ← processPacket h ackMode packet
    serveFrom h ackMode packets

theorem servePackets_eq_serveFrom (h : Handler σ) (earlier : List Bytes) (packets : List Packet)
    (server : Server σ) :
    (servePackets h earlier packets).runOn server =
      (serveFrom h (earlier.all fun payload => !startsNoAckMode payload) packets).runOn server := by
  induction packets generalizing earlier server with
  | nil => rfl
  | cons packet packets ih =>
    cases packet with
    | data data sum =>
      simp only [servePackets, serveFrom, processPacket, bind_assoc, pure_bind]
      rw [runOn_bind, runOn_bind]
      split
      next _ middle _ =>
        rw [runOn_bind, runOn_bind]
        cases served : (handlePacket h data).runOn middle with
        | mk result after =>
          cases result with
          | none => rfl
          | some noAck =>
            -- the mode after the packet is what the longer list of packets says
            have mode := handlePacket_returned h data middle after noAck served
            simp only [ih, List.all_append, List.all_cons, List.all_nil, Bool.and_true, mode]
            cases startsNoAckMode data <;> simp
      next => rfl
    | ack => simpa only [servePackets, serveFrom, processPacket, pure_bind] using ih earlier server
    | nack => simpa only [servePackets, serveFrom, processPacket, pure_bind] using ih earlier server
    | interrupt => simpa only [servePackets, serveFrom, processPacket, pure_bind] using ih earlier server

/-! ### The invariant of the loop -/

/-- The bytes that have been read and not been parsed. -/
def Session.pending (s : Session σ) : Bytes :=
  match s.phase with
  | .reading => s.buf.bytes.take s.endbuf
  | .parsing parsed => (s.buf.bytes.drop parsed).take (s.endbuf - parsed)

/-- The offsets stay inside the buffer, and a read only happens when the buffer
holds no whole token. -/
def Session.Valid (s : Session σ) : Prop :=
  s.endbuf ≤ maxPacketSize ∧
    match s.phase with
    | .reading => runParser s.pending = none
    | .parsing parsed => parsed ≤ s.endbuf

/-- What is still to be done, in the terms of the specification. -/
def Session.remaining (h : Handler σ) (s : Session σ) : Outcome σ :=
  (serveFrom h s.ackMode (packetTokenizer.tokens maxPacketSize
    (s.pending ++ s.reader.stream))).runOn s.server

/-- Bytes to read count three times and bytes to parse once, so that a read and
the end of a parse both come closer to the end. -/
def Session.work (s : Session σ) : Nat :=
  3 * s.reader.stream.length + s.pending.length +
    match s.phase with
    | .reading => 0
    | .parsing _ => 1

theorem pending_length {s : Session σ} (valid : s.Valid) : s.pending.length ≤ maxPacketSize := by
  have size := s.buf.sized
  have inside := valid.1
  unfold Session.pending
  split <;> simp only [List.length_take, List.length_drop] <;> omega

theorem take_fill (buf : Buffer) (start : Nat) (chunk : Bytes)
    (room : start + chunk.length ≤ maxPacketSize) :
    (buf.fill start chunk room).bytes.take (start + chunk.length) = buf.bytes.take start ++ chunk := by
  have size := buf.sized
  have length : (buf.bytes.take start ++ chunk).length = start + chunk.length := by
    simp only [List.length_append, List.length_take]
    omega
  exact List.take_left' length

theorem take_copyWithin {buf moved : Buffer} {start stop : Nat}
    (copied : buf.copyWithin start stop = some moved) :
    moved.bytes.take (stop - start) = (buf.bytes.drop start).take (stop - start) := by
  have size := buf.sized
  unfold Buffer.copyWithin at copied
  split at copied
  next range =>
    cases copied
    have length : ((buf.bytes.drop start).take (stop - start)).length = stop - start := by
      simp only [List.length_take, List.length_drop]
      omega
    exact List.take_left' length
  · cases copied

/-- What a round that goes on can do. -/
inductive Session.Advance (h : Handler σ) (s next : Session σ) : Prop where
  | read (chunk : Bytes) (here : s.phase = .reading) (there : next.phase = .parsing 0)
      (nonempty : chunk ≠ []) (arrived : s.reader.stream = chunk ++ next.reader.stream)
      (appended : next.pending = s.pending ++ chunk) (inside : next.endbuf ≤ maxPacketSize)
      (sameMode : next.ackMode = s.ackMode) (sameServer : next.server = s.server)
  | token (parsed len : Nat) (packet : Packet) (here : s.phase = .parsing parsed)
      (there : next.phase = .parsing (parsed + len))
      (found : runParser s.pending = some (len, packet))
      (served : (processPacket h s.ackMode packet).runOn s.server = (some next.ackMode, next.server))
      (dropped : next.pending = s.pending.drop len) (sameEnd : next.endbuf = s.endbuf)
      (sameStream : next.reader.stream = s.reader.stream)
  | compact (parsed : Nat) (here : s.phase = .parsing parsed) (there : next.phase = .reading)
      (missing : runParser s.pending = none) (kept : next.pending = s.pending)
      (inside : next.endbuf ≤ s.endbuf) (sameStream : next.reader.stream = s.reader.stream)
      (sameMode : next.ackMode = s.ackMode) (sameServer : next.server = s.server)

theorem round_advance {h : Handler σ} {s next : Session σ} (went : s.round h = .again next) :
    s.Advance h next := by
  unfold Session.round at went
  split at went
  next here =>
    split at went
    next inside =>
      simp only at went
      split at went
      · cases went
      next nonempty =>
        cases went
        refine .read _ here rfl nonempty ?_ ?_ (s.reader.read_fits inside) rfl rfl
        · simp only [Reader.read, List.take_append_drop]
        · simp only [Session.pending, here, List.drop_zero, Nat.sub_zero]
          exact take_fill _ _ _ _
    · cases went
  next parsed here =>
    split at went
    · cases went
    next window sliced =>
      -- the slice is what the session has not parsed yet
      have range : parsed ≤ s.endbuf ∧ s.pending = window := by
        unfold Buffer.slice at sliced
        split at sliced
        next range => exact ⟨range.1, by simpa [Session.pending, here] using sliced⟩
        · cases sliced
      split at went
      next len packet found =>
        split at went
        next ackMode server served =>
          cases went
          refine .token parsed len packet here rfl (range.2 ▸ found) served ?_ rfl rfl
          simp only [Session.pending, here, List.drop_take, List.drop_drop]
          congr 1
          omega
        · cases went
      next missing =>
        split at went
        · cases went
        next moved copied =>
          cases went
          refine .compact parsed here rfl (range.2 ▸ missing) ?_ (Nat.sub_le _ _) rfl rfl rfl
          simp only [Session.pending, here]
          exact take_copyWithin copied

/-- How a round that starts in a valid state can leave the loop. -/
inductive Session.Ends (h : Handler σ) (s : Session σ) : Outcome σ → Prop where
  | noInput (here : s.phase = .reading) (ended : s.reader.stream = []) : Ends h s (some (), s.server)
  | noRoom (here : s.phase = .reading) (full : s.endbuf = maxPacketSize) :
      Ends h s (some (), s.server)
  | panic (len : Nat) (packet : Packet) (server : Server σ)
      (found : runParser s.pending = some (len, packet))
      (served : (processPacket h s.ackMode packet).runOn s.server = (none, server)) :
      Ends h s (none, server)

theorem read_eq_nil_iff (reader : Reader) (free : Nat) :
    (reader.read free).1 = [] ↔ reader.stream = [] ∨ free = 0 := by
  simp only [Reader.read, List.take_eq_nil_iff]
  constructor
  · rintro (none | ended)
    · by_cases ended : reader.stream = []
      · exact .inl ended
      · have some := List.length_pos_of_ne_nil ended
        omega
    · exact .inl ended
  · rintro (ended | full)
    · exact .inr ended
    · omega

theorem round_ends {h : Handler σ} {s : Session σ} {outcome : Outcome σ} (valid : s.Valid)
    (left : s.round h = .leave outcome) : s.Ends h outcome := by
  obtain ⟨inside, phase⟩ := valid
  unfold Session.round at left
  split at left
  next here =>
    rw [dif_pos inside] at left
    simp only at left
    split at left
    next nothing =>
      cases left
      rcases (read_eq_nil_iff _ _).mp nothing with ended | full
      · exact .noInput here ended
      · exact .noRoom here (by omega)
    · cases left
  next parsed here =>
    rw [here] at phase
    have ordered : parsed ≤ s.endbuf := phase
    -- in a valid state neither the slice nor the copy is out of range
    have sliced : s.buf.slice parsed s.endbuf = some s.pending := by
      simp only [Buffer.slice, Session.pending, here, ordered, inside, and_self, if_true]
    rw [sliced] at left
    simp only at left
    split at left
    next len packet found =>
      split at left
      · cases left
      next server served =>
        cases left
        exact .panic len packet server found served
    next missing =>
      simp only [Buffer.copyWithin, ordered, inside, and_self, dif_pos] at left
      cases left

/-! ### The loop does what the specification says -/

theorem advance_valid {h : Handler σ} {s next : Session σ} (valid : s.Valid)
    (advance : s.Advance h next) : next.Valid := by
  cases advance with
  | read chunk here there nonempty arrived appended inside sameMode sameServer =>
    exact ⟨inside, by rw [there]; exact Nat.zero_le _⟩
  | token parsed len packet here there found served dropped sameEnd sameStream =>
    obtain ⟨inside, phase⟩ := valid
    refine ⟨sameEnd ▸ inside, ?_⟩
    rw [here] at phase
    rw [there]
    have ordered : parsed ≤ s.endbuf := phase
    have short := (packetTokenizer.bounds found).2
    simp only [Session.pending, here, List.length_take, List.length_drop] at short
    rw [sameEnd]
    omega
  | compact parsed here there missing kept inside sameStream sameMode sameServer =>
    exact ⟨le_trans inside valid.1, by rw [there]; exact kept ▸ missing⟩

theorem advance_work {h : Handler σ} {s next : Session σ} (advance : s.Advance h next) :
    next.work < s.work := by
  cases advance with
  | read chunk here there nonempty arrived appended inside sameMode sameServer =>
    have some := List.length_pos_of_ne_nil nonempty
    simp only [Session.work, here, there, arrived, appended, List.length_append]
    omega
  | token parsed len packet here there found served dropped sameEnd sameStream =>
    have bounds := packetTokenizer.bounds found
    simp only [Session.work, here, there, sameStream, dropped, List.length_drop]
    omega
  | compact parsed here there missing kept inside sameStream sameMode sameServer =>
    simp only [Session.work, here, there, sameStream, kept]
    omega

theorem advance_remaining {h : Handler σ} {s next : Session σ} (valid : s.Valid)
    (advance : s.Advance h next) : next.remaining h = s.remaining h := by
  cases advance with
  | read chunk here there nonempty arrived appended inside sameMode sameServer =>
    simp only [Session.remaining, arrived, appended, sameMode, sameServer, List.append_assoc]
  | token parsed len packet here there found served dropped sameEnd sameStream =>
    -- the token in the buffer is the first one of the whole rest of the stream
    have first := packetTokenizer.tokens_of_buffered s.reader.stream (pending_length valid) found
    simp only [Session.remaining, sameStream, dropped]
    rw [first, serveFrom, runOn_bind, served]
  | compact parsed here there missing kept inside sameStream sameMode sameServer =>
    simp only [Session.remaining, sameStream, kept, sameMode, sameServer]

theorem ends_remaining {h : Handler σ} {s : Session σ} {outcome : Outcome σ} (valid : s.Valid)
    (ends : s.Ends h outcome) : outcome = s.remaining h := by
  cases ends with
  | noInput here ended =>
    have missing : runParser s.pending = none := by
      have phase := valid.2
      rwa [here] at phase
    rw [Session.remaining, ended, List.append_nil, packetTokenizer.tokens_of_end missing]
    rfl
  | noRoom here full =>
    have missing : runParser s.pending = none := by
      have phase := valid.2
      rwa [here] at phase
    have size := s.buf.sized
    -- a buffer that is full without a token ends the specification as well
    have filled : maxPacketSize ≤ s.pending.length := by
      simp only [Session.pending, here, List.length_take]
      omega
    rw [Session.remaining, packetTokenizer.tokens_of_full _ filled missing]
    rfl
  | panic len packet server found served =>
    have first := packetTokenizer.tokens_of_buffered s.reader.stream (pending_length valid) found
    rw [Session.remaining, first, serveFrom, runOn_bind, served]

theorem start_valid (reader : Reader) (handler : σ) : (Session.start reader handler).Valid :=
  ⟨Nat.zero_le _, rfl⟩

theorem start_remaining (h : Handler σ) (reader : Reader) (handler : σ) :
    (Session.start reader handler).remaining h = serveStream h reader.stream handler :=
  (servePackets_eq_serveFrom h [] _ _).symm

/-- Whatever the stream, the sizes of the reads and the handler: the packet loop
ends, having made the calls and written the bytes that serving the packets of
the whole stream makes and writes, and its offsets never leave the buffer. -/
theorem processPacketsFrom_eq_serveStream (h : Handler σ) (reader : Reader) (handler : σ) :
    (∃ rounds, processPacketsFrom h rounds reader handler =
      some (serveStream h reader.stream handler)) ∧
    ∀ s, Loop.Reaches (Session.round h) (.start reader handler) s →
      s.endbuf ≤ maxPacketSize ∧ ∀ parsed, s.phase = .parsing parsed → parsed ≤ s.endbuf := by
  refine ⟨⟨(Session.start reader handler).work + 1, ?_⟩, ?_⟩
  -- every round keeps what remains to be done, and lowers the work
  · rw [← start_remaining]
    apply Loop.run_eq_of_measure Session.Valid (Session.remaining h) Session.work
    · intro s next valid went
      have advance := round_advance went
      exact ⟨advance_valid valid advance, advance_remaining valid advance, advance_work advance⟩
    · intro s outcome valid left
      exact ends_remaining valid (round_ends valid left)
    · exact start_valid reader handler
  · intro s reached
    have valid : s.Valid := reached.invariant (start_valid reader handler)
      fun t next valid went => advance_valid valid (round_advance went)
    refine ⟨valid.1, fun parsed here => ?_⟩
    have phase := valid.2
    rwa [here] at phase

end GdbRemote
