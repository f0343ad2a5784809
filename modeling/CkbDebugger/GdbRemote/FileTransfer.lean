import CkbDebugger.GdbRemote.HostFile
import CkbDebugger.GdbRemote.LibcFs
import CkbDebugger.GdbRemote.RequestPacket
import CkbDebugger.GdbRemote.Session

/-!
# File transfers

A client uploads a file piece by piece with `vFile:pwrite` and downloads it with `vFile:pread`, each time from
where it has got to. Reads and writes may be short, and a failed one is tried again.
-/
namespace GdbRemote

open Nom

variable {σ : Type}

/-! ### Files -/

/-- Contents with some data written over them from an offset on. A gap before it is filled with zeros. -/
def overwrite (contents : Bytes) (offset : Nat) (data : Bytes) : Bytes :=
  contents.take offset ++ List.replicate (offset - contents.length) 0 ++ data ++ contents.drop (offset + data.length)

/-- What the C library promises of a descriptor of a regular file: it reads some of the bytes at the offset, and
none only at the end of the file or when none are asked for; it writes some of the bytes, and none only when
there are none. It may also fail, and does nothing then. -/
structure RegularFile (libc : Libc σ) (fd : Int32) (contents : σ → Bytes) : Prop where
  pread : ∀ count offset state, (0 : Int64) ≤ offset →
    contents (libc.pread fd count offset state).2 = contents state ∧
    ∀ data, (libc.pread fd count offset state).1 = some data →
      data <+: (contents state).drop offset.toInt.toNat ∧ data.length ≤ count.toNat ∧
      (data = [] → count = 0 ∨ (contents state).length ≤ offset.toInt.toNat)
  pwrite : ∀ data offset state, (0 : Int64) ≤ offset →
    if 0 ≤ (libc.pwrite fd data offset state).1 then
      ((libc.pwrite fd data offset state).1.toInt.toNat ≤ data.length ∧
        (data ≠ [] → 0 < (libc.pwrite fd data offset state).1.toInt.toNat)) ∧
      contents (libc.pwrite fd data offset state).2 = overwrite (contents state) offset.toInt.toNat
        (data.take (libc.pwrite fd data offset state).1.toInt.toNat)
    else contents (libc.pwrite fd data offset state).2 = contents state

/-! ### The client -/

/-- The payload of the reply to a request, and the server after it. There is none if the server panics. -/
def ask (h : Handler σ) (request : Bytes) (server : Server σ) : Option (Bytes × Server σ) :=
  match (handlePacket h request).runOn server with
  | (some _, after) =>
    match runParser (after.output.drop server.output.length) with
    | some (_, .data payload _) => some (payload, after)
    | _ => none
  | (none, _) => none

/-- The data that a reply carries, which are as many as it says. -/
def carried (payload : Bytes) : Option Bytes :=
  match (preceded (literal "F") (separatedPair hexValue (literal ";") unescape)) payload with
  | .done [] (length, data) => if data.length = length.toNat then some data else none
  | _ => none

/-- The number in a reply. -/
def counted (payload : Bytes) : Option UInt64 :=
  match (preceded (literal "F") hexValue) payload with
  | .done [] n => some n
  | _ => none

def preadRequest (fd count : UInt64) (offset : Nat) : Bytes :=
  ascii "v" ++ (ascii "File:" ++ (ascii "pread:" ++ (lowerHex fd.toNat ++ (ascii "," ++
    (lowerHex count.toNat ++ (ascii "," ++ lowerHex offset))))))

def pwriteRequest (fd : UInt64) (offset : Nat) (data : Bytes) : Bytes :=
  ascii "v" ++ (ascii "File:" ++ (ascii "pwrite:" ++ (lowerHex fd.toNat ++ (ascii "," ++
    (lowerHex offset ++ (ascii "," ++ (writeBinaryData data).flatten))))))

/-- What a client has downloaded, how many reads have failed, and whether it has seen the end of the file. -/
structure Download where
  received : Bytes
  failures : Nat
  ended : Bool
  deriving Repr, DecidableEq

def Download.take (client : Download) (count : UInt64) : Option Bytes → Download
  | none => { client with failures := client.failures + 1 }
  | some data => ⟨client.received ++ data, client.failures, client.ended || (data = [] && count ≠ 0)⟩

/-- Reads of these sizes, each from the end of what there is already. -/
def download (h : Handler σ) (fd : UInt64) : List UInt64 → Download → Server σ → Option (Download × Server σ)
  | [], client, server => some (client, server)
  | count :: counts, client, server =>
    match ask h (preadRequest fd count client.received.length) server with
    | none => none
    | some (reply, after) => download h fd counts (client.take count (carried reply)) after

/-- How much of some data a client has uploaded, and how many writes have failed. -/
structure Upload where
  sent : Nat
  failures : Nat
  deriving Repr, DecidableEq

def Upload.take (client : Upload) : Option UInt64 → Upload
  | none => { client with failures := client.failures + 1 }
  | some n => { client with sent := client.sent + n.toNat }

/-- Writes of at most these sizes, each from where the one before has got to, until all has been written. -/
def upload (h : Handler σ) (fd : UInt64) (data : Bytes) :
    List Nat → Upload → Server σ → Option (Upload × Server σ)
  | [], client, server => some (client, server)
  | size :: sizes, client, server =>
    if (data.drop client.sent).take size = [] then upload h fd data sizes client server
    else
      match ask h (pwriteRequest fd client.sent ((data.drop client.sent).take size)) server with
      | none => none
      | some (reply, after) => upload h fd data sizes (client.take (counted reply)) after

/-! ### Contents -/

theorem overwrite_next {data old piece : Bytes} {sent : Nat} (within : sent ≤ data.length)
    (next : piece <+: data.drop sent) : overwrite (data.take sent ++ old.drop sent) sent piece =
      data.take (sent + piece.length) ++ old.drop (sent + piece.length) := by
  have length : (data.take sent).length = sent := by rw [List.length_take, Nat.min_eq_left within]
  have gap : sent - (data.take sent ++ old.drop sent).length = 0 := by
    rw [List.length_append, length]
    omega
  have front : data.take sent ++ piece = data.take (sent + piece.length) := by
    rw [List.take_add, List.prefix_iff_eq_take.mp next, List.length_take]
    congr 1
    rw [List.take_eq_take_iff]
    omega
  have back : (data.take sent ++ old.drop sent).drop (sent + piece.length) = old.drop (sent + piece.length) := by
    rw [List.drop_append, List.drop_drop, length, List.drop_eq_nil_of_le (by omega), List.nil_append]
    congr 1
    omega
  have kept : (data.take sent ++ old.drop sent).take sent = data.take sent := List.take_left' length
  rw [overwrite, gap, List.replicate_zero, List.append_nil, back, kept, front]

/-- An offset that fits the library's type. -/
theorem offset_toInt64 {offset : Nat} (small : offset < 2 ^ 63) :
    (0 : Int64) ≤ (UInt64.ofNat offset).toInt64 ∧ (UInt64.ofNat offset).toInt64.toInt.toNat = offset := by
  have value : (UInt64.ofNat offset).toInt64.toInt = offset := by
    have number : (UInt64.ofNat offset).toBitVec.toNat = offset :=
      UInt64.toNat_ofNat_of_lt' (show offset < 2 ^ 64 by omega)
    have positive := @BitVec.toInt_eq_toNat_of_lt 64 (UInt64.ofNat offset).toBitVec (by omega)
    rwa [number] at positive
  refine ⟨?_, by rw [value]; rfl⟩
  rw [Int64.le_iff_toInt_le, value]
  simp

/-! ### Asking -/

theorem ask_answered {h : Handler σ} {server after : Server σ} {request payload : Bytes}
    (answered : Answered h server request payload after) (plain : (35 : UInt8) ∉ payload) :
    ask h request server = some (payload, after) := by
  obtain ⟨⟨noAck, handled⟩, output⟩ := answered
  obtain ⟨twoDigits, value⟩ := lowerHex2_read (computeChecksumIncremental payload 0).toNat
    (computeChecksumIncremental payload 0).toNat_lt
  have token := Token.frame payload _ _ plain twoDigits value
  rw [← List.append_assoc, ← List.append_assoc] at token
  have parsed := (runParser_eq_some_iff _ _ _).mpr ⟨framed payload, [], (List.append_nil _).symm, rfl, token⟩
  rw [ask, handled]
  simp only [output, List.drop_left, parsed]

/-- A call on the file system that the handler answers. -/
theorem ask_call {α : Type} {h : Handler σ} {server : Server σ} {request rest : Bytes} {cmd : Command}
    {call : HandlerCall} {into : α → HostIOResult} {operation : Service σ (IOResult α)} {opened state : σ}
    {result : Except HostErrno α} (parsed : command request = .done rest cmd)
    (handles : handleCommand h cmd = do return .fromIOResult into (← fsAndThen h operation))
    (offers : h .fs server.handler = some (true, opened))
    (answers : operation.runOn ⟨opened, server.calls ++ [.fs], server.output⟩ =
      (some (some result), ⟨state, server.calls ++ [.fs] ++ [call], server.output⟩)) :
    ∃ after, ask h request server = some ((Response.fromIOResult into (some result)).payload, after) ∧
      after.handler = state := by
  have ran : (handleCommand h cmd).runOn server =
      (some (.fromIOResult into (some result)), ⟨state, server.calls ++ [.fs] ++ [call], server.output⟩) := by
    rw [handles, runOn_bind, fsAndThen_runOn offers, answers]
    rfl
  obtain ⟨after, answered, same, _⟩ := answered_of_response parsed ran
  refine ⟨after, ask_answered answered fun mark => ?_, same⟩
  -- numbers and escaped data have no mark of an end in them
  have clean : Clean (Response.fromIOResult into (some result)).payload := by
    cases result with
    | error errno => exact hostIOResult_clean (.error errno)
    | ok value => exact hostIOResult_clean (into value)
  exact absurd (clean 35 mark) (by decide)

/-- A panic of the handler is one of the server. -/
theorem ask_panic {α : Type} {h : Handler σ} {server : Server σ} {request rest : Bytes} {cmd : Command}
    {into : α → HostIOResult} {operation : Service σ (IOResult α)} {opened : σ}
    (parsed : command request = .done rest cmd)
    (handles : handleCommand h cmd = do return .fromIOResult into (← fsAndThen h operation))
    (offers : h .fs server.handler = some (true, opened))
    (panics : (operation.runOn ⟨opened, server.calls ++ [.fs], server.output⟩).1 = none) :
    ask h request server = none := by
  obtain ⟨middle, ran⟩ : ∃ middle, (handleCommand h cmd).runOn server = (none, middle) := by
    rw [handles, runOn_bind, fsAndThen_runOn offers]
    rcases ran : operation.runOn ⟨opened, server.calls ++ [.fs], server.output⟩ with ⟨_ | _, middle⟩
    · exact ⟨middle, by rw [ran]⟩
    · rw [ran] at panics
      cases panics
  simp only [ask, handlePacket, parsed, runOn_bind, ran]

/-! ### Replies -/

theorem carried_data {data : Bytes} (small : data.length < 2 ^ 64) :
    carried (Response.hostIOResult (.data data)).payload = some data := by
  obtain ⟨escaped, payload, read⟩ := data_announced data
  have length : (UInt64.ofNat data.length).toNat = data.length := UInt64.toNat_ofNat_of_lt' small
  have digits : Digits (lowerHex data.length) (UInt64.ofNat data.length) := by
    have digits := lowerHex_digits (UInt64.ofNat data.length)
    rwa [length] at digits
  have semicolon : ∀ b ∈ (ascii ";" ++ escaped).head?, isHexDigit b = false := stops_at_mark rfl _
  simp only [carried, payload, preceded_literal_append, separatedPair, bind_apply, hexValue_digits digits semicolon,
    andThen_done, literal_append, read, pure_apply, length, if_true]

theorem counted_integer (n : UInt64) : counted (Response.hostIOResult (.integer n)).payload = some n := by
  have payload : (Response.hostIOResult (.integer n)).payload = ascii "F" ++ lowerHex n.toNat := by
    simp only [Response.payload, Response.pieces, HostIOResult.pieces, List.flatten_cons, List.flatten_nil,
      List.append_nil]
  simp only [counted, payload, preceded_literal_append, hexValue_at_end (lowerHex_digits n)]

/-- An error is neither data nor a number. -/
theorem error_read (errno : HostErrno) :
    carried (Response.hostIOResult (.error errno)).payload = none ∧
      counted (Response.hostIOResult (.error errno)).payload = none := by
  have payload : (Response.hostIOResult (.error errno)).payload =
      ascii "F" ++ (45 :: (ascii "1," ++ lowerHex errno.code)) := by
    simp only [Response.payload, Response.pieces, HostIOResult.pieces, List.flatten_cons, List.flatten_nil,
      List.append_nil]
    rfl
  have minus : ∀ rest, hexValue (45 :: rest) = .error := fun _ => rfl
  constructor
  · simp only [carried, payload, preceded_literal_append, separatedPair, bind_apply, minus, andThen_error]
  · simp only [counted, payload, preceded_literal_append, minus]

/-! ### One request -/

section Requests

variable {libc : Libc σ} {fd : UInt64} {contents : σ → Bytes} (file : RegularFile libc (LibcFS.descriptor fd) contents)
  (h : Handler σ)

theorem lowerHex_offset {offset : Nat} (small : offset < 2 ^ 63) : Digits (lowerHex offset) (UInt64.ofNat offset) := by
  have digits := lowerHex_digits (UInt64.ofNat offset)
  rwa [UInt64.toNat_ofNat_of_lt' (show offset < 2 ^ 64 by omega)] at digits

theorem preadRequest_decodes (fd count : UInt64) {offset : Nat} (small : offset < 2 ^ 63) :
    command (preadRequest fd count offset) = .done [] (.hostPRead fd count (.ofNat offset)) := by
  rw [preadRequest, command_v]
  exact vCommand_file (parseVfileOp_text (.pread (lowerHex_digits fd) (lowerHex_digits count) (lowerHex_offset small)))

theorem pwriteRequest_decodes (fd : UInt64) {offset : Nat} (small : offset < 2 ^ 63) {data : Bytes} (some : data ≠ []) :
    command (pwriteRequest fd offset data) = .done [] (.hostPWrite fd (.ofNat offset) data) := by
  rw [pwriteRequest, command_v]
  exact vCommand_file (parseVfileOp_text (.pwrite (lowerHex_digits fd) (lowerHex_offset small) some))

/-- No answer to a read that is larger than any buffer. -/
theorem ask_pread_none {count : UInt64} (large : LibcFS.maxCapacity < count) {offset : Nat} (small : offset < 2 ^ 63)
    (server : Server σ) : ask (h.withLibcFS libc) (preadRequest fd count offset) server = none := by
  have panics : LibcFS.hostPread libc fd count (.ofNat offset) server.handler = none := if_pos large
  refine ask_panic (preadRequest_decodes fd count small) rfl rfl ?_
  rw [runOn_call]
  simp only [Handler.withLibcFS, panics]

include file

/-- A read that fits brings some of the bytes at the offset, or none because it failed. -/
theorem ask_pread {count : UInt64} (fits : count ≤ LibcFS.maxCapacity) {offset : Nat} (small : offset < 2 ^ 63)
    (server : Server σ) :
    ∃ reply after, ask (h.withLibcFS libc) (preadRequest fd count offset) server = some (reply, after) ∧
      contents after.handler = contents server.handler ∧
      ∀ data, carried reply = some data → data <+: (contents server.handler).drop offset ∧
        (data = [] → count = 0 ∨ (contents server.handler).length ≤ offset) := by
  obtain ⟨positive, value⟩ := offset_toInt64 small
  obtain ⟨same, reads⟩ := file.pread count _ server.handler positive
  rw [value] at reads
  have answers (result : Except HostErrno Bytes) (next : σ)
      (returned : LibcFS.hostPread libc fd count (.ofNat offset) server.handler = some (some result, next)) :
      ∃ after, ask (h.withLibcFS libc) (preadRequest fd count offset) server =
        some ((Response.fromIOResult .data (some result)).payload, after) ∧ after.handler = next :=
    ask_call (preadRequest_decodes fd count small) rfl rfl (runOn_call_of_answer returned)
  -- `hostPread` calls `pread` once, and reports the error that it leaves
  rcases read : libc.pread (LibcFS.descriptor fd) count (UInt64.ofNat offset).toInt64 server.handler with
    ⟨_ | data, next⟩
  · obtain ⟨after, asked, last⟩ := answers (.error (LibcFS.errno libc next)) next (by
      rw [LibcFS.hostPread, if_neg (UInt64.not_lt.mpr fits), read])
    refine ⟨_, after, asked, ?_, fun data carries => ?_⟩
    · rw [last, ← same, read]
    · exact absurd ((error_read _).1.symm.trans carries) (by simp)
  · obtain ⟨after, asked, last⟩ := answers (.ok data) next (by
      rw [LibcFS.hostPread, if_neg (UInt64.not_lt.mpr fits), read])
    obtain ⟨front, within, ends⟩ := reads data (by rw [read])
    have size : data.length < 2 ^ 64 := Nat.lt_of_le_of_lt within count.toNat_lt
    refine ⟨_, after, asked, ?_, fun data' carries => ?_⟩
    · rw [last, ← same, read]
    · obtain rfl : data = data' := Option.some.inj ((carried_data size).symm.trans carries)
      exact ⟨front, ends⟩

/-- A write puts some of its bytes at the offset, or none because it failed. -/
theorem ask_pwrite {offset : Nat} (small : offset < 2 ^ 63) {data : Bytes} (some : data ≠ []) (server : Server σ) :
    ∃ reply after, ask (h.withLibcFS libc) (pwriteRequest fd offset data) server = .some (reply, after) ∧
      match counted reply with
      | none => contents after.handler = contents server.handler
      | .some n => 0 < n.toNat ∧ n.toNat ≤ data.length ∧
        contents after.handler = overwrite (contents server.handler) offset (data.take n.toNat) := by
  obtain ⟨positive, value⟩ := offset_toInt64 small
  have writes := file.pwrite data _ server.handler positive
  rw [value] at writes
  have answers (result : Except HostErrno UInt64) (next : σ)
      (returned : LibcFS.hostPwrite libc fd (.ofNat offset) data server.handler = (.some result, next)) :
      ∃ after, ask (h.withLibcFS libc) (pwriteRequest fd offset data) server =
        .some ((Response.fromIOResult .integer (.some result)).payload, after) ∧ after.handler = next :=
    ask_call (pwriteRequest_decodes fd small some) rfl rfl
      (runOn_call_of_answer (congrArg Option.some returned))
  rcases wrote : libc.pwrite (LibcFS.descriptor fd) data (UInt64.ofNat offset).toInt64 server.handler with
    ⟨written, next⟩
  simp only [wrote] at writes
  by_cases succeeded : 0 ≤ written
  · obtain ⟨after, asked, last⟩ := answers (.ok written.toUInt64) next (by
      simp only [LibcFS.hostPwrite, wrote, ge_iff_le, if_pos succeeded])
    rw [if_pos succeeded] at writes
    obtain ⟨⟨within, progress⟩, same⟩ := writes
    -- what `pwrite` returns is cast to an unsigned number for the reply
    have number : written.toUInt64.toNat = written.toInt.toNat := Int64.toNat_toUInt64_of_le succeeded
    refine ⟨_, after, asked, ?_⟩
    simp only [Response.fromIOResult, counted_integer, number]
    exact ⟨progress some, within, by rw [last, same]⟩
  · obtain ⟨after, asked, last⟩ := answers (.error (LibcFS.errno libc next)) next (by
      simp only [LibcFS.hostPwrite, wrote, ge_iff_le, if_neg succeeded])
    rw [if_neg succeeded] at writes
    refine ⟨_, after, asked, ?_⟩
    simp only [Response.fromIOResult, (error_read _).2]
    rw [last, writes]

end Requests

/-! ### Transfers -/

/-- What a client has downloaded of a file after some reads, each of which asked for some bytes. -/
structure Downloaded (file : Bytes) (reads : Nat) (client : Download) : Prop where
  front : client.received <+: file
  whole : client.ended = true → client.received = file
  progress : client.ended = true ∨ reads ≤ client.failures + client.received.length

theorem Downloaded.take {file : Bytes} {reads : Nat} {client : Download} (sound : Downloaded file reads client)
    {count : UInt64} {reply : Option Bytes} (read : ∀ data, reply = some data →
      data <+: file.drop client.received.length ∧ (data = [] → count = 0 ∨ file.length ≤ client.received.length)) :
    Downloaded file (if count = 0 then reads else reads + 1) (client.take count reply) := by
  obtain ⟨front, whole, progress⟩ := sound
  cases reply with
  | none =>
    refine ⟨front, whole, progress.imp_right fun few => ?_⟩
    simp only [Download.take]
    split <;> omega
  | some data =>
    obtain ⟨next, ends⟩ := read data rfl
    -- the bytes at the offset continue the front that has been received
    have longer : client.received ++ data <+: file := by
      rw [← List.take_append_drop client.received.length file, ← List.prefix_iff_eq_take.mp front]
      exact (List.prefix_append_right_inj _).mpr next
    refine ⟨longer, fun ended => ?_, ?_⟩
    · simp only [Download.take, Bool.or_eq_true, Bool.and_eq_true, decide_eq_true_eq] at ended ⊢
      rcases ended with ended | ⟨rfl, asks⟩
      · -- after the end there is nothing
        rw [whole ended, List.drop_length, List.prefix_nil] at next
        rw [next, List.append_nil, whole ended]
      · rw [List.append_nil]
        exact front.eq_of_length_le ((ends rfl).resolve_left asks)
    · simp only [Download.take, Bool.or_eq_true, Bool.and_eq_true, decide_eq_true_eq, List.length_append]
      rcases progress with ended | few
      · exact .inl (.inl ended)
      · by_cases nothing : data = []
        · by_cases none : count = 0
          · rw [if_pos none]
            exact .inr (by omega)
          · exact .inl (.inr ⟨nothing, none⟩)
        · have positive := List.length_pos_iff.mpr nothing
          refine .inr ?_
          split <;> omega

/-- What a client has uploaded over old contents after some writes, each of which was of some bytes if any were
left. -/
structure Uploaded (data old new : Bytes) (writes : Nat) (client : Upload) : Prop where
  written : new = data.take client.sent ++ old.drop client.sent
  within : client.sent ≤ data.length
  progress : client.sent = data.length ∨ writes ≤ client.failures + client.sent

theorem Uploaded.take {data old new next piece : Bytes} {writes : Nat} {client : Upload}
    (sound : Uploaded data old new writes client) (front : piece <+: data.drop client.sent) {reply : Option UInt64}
    (wrote : match reply with
      | none => next = new
      | some n => 0 < n.toNat ∧ n.toNat ≤ piece.length ∧ next = overwrite new client.sent (piece.take n.toNat)) :
    Uploaded data old next (writes + 1) (client.take reply) := by
  obtain ⟨written, within, progress⟩ := sound
  cases reply with
  | none =>
    refine ⟨wrote.trans written, within, progress.imp_right fun few => ?_⟩
    simp only [Upload.take]
    omega
  | some n =>
    obtain ⟨positive, inside, same⟩ := wrote
    have length : (piece.take n.toNat).length = n.toNat := by rw [List.length_take, Nat.min_eq_left inside]
    have room := front.length_le
    rw [List.length_drop] at room
    refine ⟨?_, ?_, ?_⟩
    -- the write goes on where the last one that was acknowledged ended
    · rw [same, written, overwrite_next within ((List.take_prefix _ _).trans front), length]
      rfl
    · simp only [Upload.take]
      omega
    · simp only [Upload.take]
      omega

section Transfers

variable {libc : Libc σ} {fd : UInt64} {contents : σ → Bytes} (file : RegularFile libc (LibcFS.descriptor fd) contents)
  (h : Handler σ)

include file

theorem download_follows (counts : List UInt64) {client : Download} {server : Server σ} {reads : Nat}
    (small : (contents server.handler).length < 2 ^ 63) (sound : Downloaded (contents server.handler) reads client) :
    (download (h.withLibcFS libc) fd counts client server = none ↔ ∃ count ∈ counts, LibcFS.maxCapacity < count) ∧
    ∀ last after, download (h.withLibcFS libc) fd counts client server = some (last, after) →
      contents after.handler = contents server.handler ∧
      Downloaded (contents server.handler) (reads + counts.countP (· ≠ 0)) last := by
  induction counts generalizing client server reads with
  | nil =>
    refine ⟨by simp [download], fun last after returned => ?_⟩
    cases returned
    exact ⟨rfl, sound⟩
  | cons count counts ih =>
    have offset : client.received.length < 2 ^ 63 := Nat.lt_of_le_of_lt sound.front.length_le small
    simp only [download, List.exists_mem_cons_iff]
    by_cases large : LibcFS.maxCapacity < count
    · rw [ask_pread_none h large offset]
      simp [large]
    · obtain ⟨reply, middle, asked, same, read⟩ := ask_pread file h (UInt64.not_lt.mp large) offset server
      rw [asked]
      have next : Downloaded (contents middle.handler) (if count = 0 then reads else reads + 1)
          (client.take count (carried reply)) := same ▸ sound.take read
      obtain ⟨panics, ends⟩ := ih (same ▸ small) next
      refine ⟨by simp [panics, large], fun last after returned => ?_⟩
      obtain ⟨kept, downloaded⟩ := ends last after returned
      rw [same] at kept downloaded
      -- a read of no bytes counts for nothing
      have counted : (if count = 0 then reads else reads + 1) + counts.countP (· ≠ 0) =
          reads + (count :: counts).countP (· ≠ 0) := by
        rw [List.countP_cons]
        by_cases zero : count = 0
        · simp [zero]
        · simp [zero, Nat.add_assoc, Nat.add_comm]
      rw [counted] at downloaded
      exact ⟨kept, downloaded⟩

theorem upload_follows {data old : Bytes} (small : data.length < 2 ^ 63) (sizes : List Nat) {client : Upload}
    {server : Server σ} {writes : Nat} (sound : Uploaded data old (contents server.handler) writes client) :
    ∃ last after, upload (h.withLibcFS libc) fd data sizes client server = some (last, after) ∧
      Uploaded data old (contents after.handler) (writes + sizes.countP (· ≠ 0)) last := by
  induction sizes generalizing client server writes with
  | nil => exact ⟨client, server, rfl, sound⟩
  | cons size sizes ih =>
    rw [upload]
    split
    next nothing =>
      -- no bytes are asked for, or none are left
      have next : Uploaded data old (contents server.handler) (writes + if size = 0 then 0 else 1) client := by
        refine ⟨sound.written, sound.within, ?_⟩
        rcases List.take_eq_nil_iff.mp nothing with rfl | ended
        · exact sound.progress
        · have sent := List.drop_eq_nil_iff.mp ended
          exact .inl (Nat.le_antisymm sound.within sent)
      obtain ⟨last, after, returned, uploaded⟩ := ih next
      refine ⟨last, after, returned, ?_⟩
      rw [List.countP_cons]
      by_cases zero : size = 0 <;> simpa [zero, Nat.add_assoc, Nat.add_comm] using uploaded
    next something =>
      have offset : client.sent < 2 ^ 63 := Nat.lt_of_le_of_lt sound.within small
      obtain ⟨reply, middle, asked, wrote⟩ := ask_pwrite file h offset something server
      obtain ⟨last, after, returned, uploaded⟩ := ih (sound.take (List.take_prefix size _) wrote)
      rw [asked]
      refine ⟨last, after, returned, ?_⟩
      have asks : size ≠ 0 := fun zero => something (by rw [zero, List.take_zero])
      rw [List.countP_cons]
      simpa [asks, Nat.add_assoc, Nat.add_comm] using uploaded

end Transfers

/-- A system of one file, of which at most two bytes are read or written at a time. -/
def smallFile : Libc Bytes where
  openFile := fun _ _ _ file => (3, file)
  close := fun _ file => (0, file)
  pread := fun _ count offset file => (some ((file.drop offset.toInt.toNat).take (min count.toNat 2)), file)
  pwrite := fun _ data offset file =>
    (if data.length ≤ 1 then Int64.ofNat data.length else 2, overwrite file offset.toInt.toNat (data.take 2))
  fstat := fun _ file => (none, file)
  errno := fun _ => 9

theorem smallFile_regular (fd : Int32) : RegularFile smallFile fd id where
  pread := by
    intro count offset file _
    refine ⟨rfl, fun data read => ?_⟩
    cases read
    refine ⟨List.take_prefix _ _, by simp, fun nothing => ?_⟩
    rcases List.take_eq_nil_iff.mp nothing with none | ended
    · exact .inl (UInt64.toNat_inj.mp (by simpa using none))
    · exact .inr (List.drop_eq_nil_iff.mp ended)
  pwrite := by
    intro data offset file _
    match data with
    | [] => simp [smallFile]
    | [byte] => simp [smallFile]
    | first :: second :: rest => simp [smallFile]

end GdbRemote
