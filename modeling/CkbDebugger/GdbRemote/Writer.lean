import CkbDebugger.Stream.Write
import CkbDebugger.GdbRemote.Response

/-!
# Replies on the wire

`write_response` with the writer that it is given: `$` and the end of the frame go to it
directly, and the payload through `PacketWriter`, which adds up the bytes that the writer
has accepted. The frame on the wire is the same for every writer.
-/
namespace GdbRemote

open Nom

/-! ### Writers -/

/-- A writer that never fails and accepts at least one byte of what it is given. -/
structure Writer (ω : Type) where
  write : Stream.Write UInt8 ω
  positive : ∀ buf w, buf ≠ [] → 0 < (write buf w).1
  bounded : ∀ buf w, (write buf w).1 ≤ buf.length

/-- A writer in some state, and the bytes that it has accepted. -/
structure Wire (ω : Type) where
  state : ω
  sent : Bytes

/-- `PacketWriter` around a writer. -/
structure Summing (ω : Type) where
  wire : Wire ω
  checksum : UInt8

variable {ω : Type} (writer : Writer ω)

def Wire.write : Stream.Write UInt8 (Wire ω) := fun buf wire =>
  let (count, state) := writer.write buf wire.state
  (count, ⟨state, wire.sent ++ buf.take count⟩)

/-- `PacketWriter::write`. -/
def Summing.write : Stream.Write UInt8 (Summing ω) := fun buf summing =>
  let (count, wire) := Wire.write writer buf summing.wire
  -- only what the writer has accepted is added to the sum
  (count, ⟨wire, computeChecksumIncremental (buf.take count) summing.checksum⟩)

/-- `PacketWriter::finish`. -/
def Summing.finish (summing : Summing ω) : Option (Wire ω) :=
  Stream.writeEach (Wire.write writer) [ascii "#", lowerHex2 summing.checksum.toNat] summing.wire

/-- A frame with the given pieces between its `$` and its `#`. -/
def writeFrame (pieces : List Bytes) (wire : Wire ω) : Option (Wire ω) :=
  (Stream.writeAll (Wire.write writer) (ascii "$") wire).bind fun wire =>
    (Stream.writeEach (Summing.write writer) pieces ⟨wire, 0⟩).bind fun summing =>
      summing.finish writer

/-- `write_response`. -/
def Response.writeTo (response : Response) (wire : Wire ω) : Option (Wire ω) :=
  writeFrame writer response.pieces wire

/-! ### What is sent -/

theorem computeChecksumIncremental_append (first second : Bytes) (init : UInt8) :
    computeChecksumIncremental (first ++ second) init =
      computeChecksumIncremental second (computeChecksumIncremental first init) := by
  simp only [computeChecksumIncremental, List.foldl_append]

theorem wire_tracks (before : Bytes) :
    Stream.Tracks (Wire.write writer) fun done wire => wire.sent = before ++ done where
  positive := fun buf wire nonempty => writer.positive buf wire.state nonempty
  keeps := by
    intro done buf wire sent
    simp only [Wire.write, sent, List.append_assoc]

theorem summing_tracks (before : Bytes) :
    Stream.Tracks (Summing.write writer) fun done summing =>
      summing.wire.sent = before ++ done ∧ summing.checksum = computeChecksumIncremental done 0 where
  positive := fun buf summing nonempty => writer.positive buf summing.wire.state nonempty
  keeps := by
    rintro done buf summing ⟨sent, sum⟩
    simp only [Summing.write, Wire.write, sent, sum, List.append_assoc,
      computeChecksumIncremental_append, and_self]

/-- A frame ends up on the wire whole, with the sum of its payload, however its
payload is cut into pieces and however the writer splits these. -/
theorem writeFrame_sent (pieces : List Bytes) (wire : Wire ω) :
    ∃ after, writeFrame writer pieces wire = some after ∧
      after.sent = wire.sent ++ (ascii "$" ++ pieces.flatten ++ ascii "#" ++
        lowerHex2 (computeChecksumIncremental pieces.flatten 0).toNat) := by
  -- the `$` goes to the writer directly, and so is not in the sum
  obtain ⟨started, start, sentStart⟩ :=
    Stream.writeAll_tracks (wire_tracks writer wire.sent) (ascii "$") [] wire (by rw [List.append_nil])
  obtain ⟨summed, body, sentBody, sum⟩ :=
    Stream.writeEach_tracks (summing_tracks writer started.sent) pieces [] ⟨started, 0⟩
      ⟨by rw [List.append_nil], rfl⟩
  -- neither are the `#` and the digits
  obtain ⟨after, finish, sentAll⟩ :=
    Stream.writeEach_tracks (wire_tracks writer summed.wire.sent)
      [ascii "#", lowerHex2 summed.checksum.toNat] [] summed.wire (by rw [List.append_nil])
  refine ⟨after, ?_, ?_⟩
  · simp only [writeFrame, start, body, Option.bind_some, Summing.finish, finish]
  · rw [sentAll, sentBody, sentStart, sum]
    simp only [List.nil_append, List.flatten_cons, List.flatten_nil, List.append_nil, List.append_assoc]

/-! ### The frame -/

/-- What stands between `$` and `#` in a reply. -/
def Response.payload (response : Response) : Bytes := response.pieces.flatten

def byteSum (bytes : Bytes) : Nat := bytes.foldr (fun b sum => b.toNat + sum) 0

def lowerDigit (n : Nat) : UInt8 := UInt8.ofNat (if n < 10 then 48 + n else 87 + n)

theorem checksum_toNat (bytes : Bytes) (init : UInt8) :
    (computeChecksumIncremental bytes init).toNat = (init.toNat + byteSum bytes) % 256 := by
  induction bytes generalizing init with
  | nil =>
    have small := init.toNat_lt
    simp only [computeChecksumIncremental, List.foldl_nil, byteSum, List.foldr_nil]
    omega
  | cons b bytes ih =>
    have next := ih (init + b)
    simp only [computeChecksumIncremental, List.foldl_cons, byteSum, List.foldr_cons, UInt8.toNat_add]
      at next ⊢
    omega

theorem lowerHex2_digits : ∀ n < 256, lowerHex2 n = [lowerDigit (n / 16), lowerDigit (n % 16)] := by
  decide +kernel

theorem lowerHex2_checksum (bytes : Bytes) :
    lowerHex2 (computeChecksumIncremental bytes 0).toNat =
      [lowerDigit (byteSum bytes % 256 / 16), lowerDigit (byteSum bytes % 256 % 16)] := by
  have sum : (computeChecksumIncremental bytes 0).toNat = byteSum bytes % 256 := by
    simpa using checksum_toNat bytes 0
  rw [sum, lowerHex2_digits _ (Nat.mod_lt _ (by decide))]

theorem writeAll_fold (pieces : List Bytes) (writer : PacketWriter) :
    pieces.foldl PacketWriter.writeAll writer =
      ⟨writer.written ++ pieces.flatten, computeChecksumIncremental pieces.flatten writer.checksum⟩ := by
  induction pieces generalizing writer with
  | nil => simp [computeChecksumIncremental]
  | cons piece pieces ih =>
    rw [List.foldl_cons, ih]
    simp only [PacketWriter.writeAll, List.flatten_cons, List.append_assoc,
      computeChecksumIncremental_append]

/-- The reply of `writeResponse`, in its parts. -/
theorem writeResponse_eq (response : Response) :
    writeResponse response = ascii "$" ++ response.payload ++ ascii "#" ++
      lowerHex2 (computeChecksumIncremental response.payload 0).toNat := by
  simp only [writeResponse, writeAll_fold, PacketWriter.finish, Response.payload, List.nil_append,
    List.append_assoc]

/-- What reaches the wire through any writer is what `writeResponse` says. -/
theorem writeTo_sends_writeResponse (response : Response) (wire : Wire ω) :
    ∃ after, response.writeTo writer wire = some after ∧
      after.sent = wire.sent ++ writeResponse response := by
  obtain ⟨after, ran, sent⟩ := writeFrame_sent writer response.pieces wire
  exact ⟨after, ran, by rw [sent, writeResponse_eq]; rfl⟩

/-- For every writer that accepts something at each call, `write_response` sends `$`, the
payload, `#` and the two digits of the sum of the payload modulo 256. -/
theorem write_response_frame (response : Response) (wire : Wire ω) :
    ∃ after, response.writeTo writer wire = some after ∧
      after.sent = wire.sent ++ (ascii "$" ++ response.payload ++ ascii "#" ++
        [lowerDigit (byteSum response.payload % 256 / 16),
          lowerDigit (byteSum response.payload % 256 % 16)]) := by
  obtain ⟨after, ran, sent⟩ := writeTo_sends_writeResponse writer response wire
  refine ⟨after, ran, ?_⟩
  rw [sent, writeResponse_eq, lowerHex2_checksum]

theorem one_or_two_taken (buf : Bytes) (two : Bool) (nonempty : buf ≠ []) :
    0 < (buf.take (if two then 2 else 1)).length := by
  have some := List.length_pos_iff.mpr nonempty
  cases two <;> simp <;> omega

/-- A writer that takes one byte and two in turns, as far as there are as many. -/
def oneOrTwo : Writer Bool where
  write := fun buf two => ((buf.take (if two then 2 else 1)).length, !two)
  positive := one_or_two_taken
  bounded := fun _ _ => List.length_take_le' _ _

theorem ok_through_short_writer : ∃ after, Response.ok.writeTo oneOrTwo ⟨false, []⟩ = some after ∧
    after.sent = ascii "$OK#9a" := by
  obtain ⟨after, ran, sent⟩ := write_response_frame oneOrTwo .ok ⟨false, []⟩
  exact ⟨after, ran, sent.trans (by decide)⟩

end GdbRemote
