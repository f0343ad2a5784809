import CkbDebugger.GdbRemote.Escaping
import CkbDebugger.GdbRemote.HexText

/-!
# The two packets that write memory

`M` carries its data in hexadecimal digits and `X` carries it escaped. The parsers for the data
are different; the requests are the same.
-/
namespace GdbRemote

open Nom

/-! ### The texts -/

/-- What both packets have in front of their data. -/
def memoryHeader (letter : String) (addr len payload : Bytes) : Bytes :=
  ascii letter ++ (addr ++ (ascii "," ++ (len ++ (ascii ":" ++ payload))))

def hexWrite (addr len digits : Bytes) : Bytes := memoryHeader "M" addr len digits

def binaryWrite (addr len data : Bytes) : Bytes := memoryHeader "X" addr len (writeBinaryData data).flatten

/-- The request that either packet makes; without data there is none. -/
def memoryRequest (address length : UInt64) (data : Bytes) : IResult Command :=
  if data = [] then .error else .done [] (.writeMemory ⟨address, length⟩ data)

/-! ### Parsing -/

theorem writeMemoryWith_header (letter : String) (data : Parser Bytes) {addr len : Bytes}
    {address length : UInt64} (addrNumber : Digits addr address) (lenNumber : Digits len length)
    (payload : Bytes) :
    writeMemoryWith letter data (memoryHeader letter addr len payload) =
      (complete data payload).andThen fun rest bytes => .done rest (address, length, bytes) := by
  have comma : ∀ b ∈ (ascii "," ++ (len ++ (ascii ":" ++ payload))).head?, isHexDigit b = false :=
    stops_at_mark rfl _
  have colon : ∀ b ∈ (ascii ":" ++ payload).head?, isHexDigit b = false :=
    stops_at_mark rfl _
  simp only [writeMemoryWith, memoryHeader, complete, bind_apply, literal_append, andThen_done,
    hexValue_digits addrNumber comma, hexValue_digits lenNumber colon, pure_apply]
  cases data payload <;> rfl

/-- The first byte leaves one alternative of the choice. -/
theorem command_M (rest : Bytes) : command (ascii "M" ++ rest) =
    (writeMemory (ascii "M" ++ rest)).andThen fun final fields =>
      .done final (.writeMemory ⟨fields.1, fields.2.1⟩ fields.2.2) := by
  change command (_ :: rest) = (writeMemory (_ :: rest)).andThen _
  unfold command
  iterate 8 rw [alt_cons_of_error (by rfl)]
  exact alt_cons_of_others_error _ rfl

theorem command_X (rest : Bytes) : command (ascii "X" ++ rest) =
    (writeMemoryBinary (ascii "X" ++ rest)).andThen fun final fields =>
      .done final (.writeMemory ⟨fields.1, fields.2.1⟩ fields.2.2) := by
  change command (_ :: rest) = (writeMemoryBinary (_ :: rest)).andThen _
  unfold command
  iterate 16 rw [alt_cons_of_error (by rfl)]
  exact alt_cons_of_others_error _ rfl

section Packets

variable {addr len : Bytes} {address length : UInt64} (addrNumber : Digits addr address)
  (lenNumber : Digits len length)

include addrNumber lenNumber

theorem command_hexWrite {digits data : Bytes} (written : HexData digits data) :
    command (hexWrite addr len digits) = memoryRequest address length data := by
  rw [hexWrite, memoryHeader, command_M]
  have fields := writeMemoryWith_header "M" hexByteSequence addrNumber lenNumber digits
  rw [memoryHeader] at fields
  rw [writeMemory, fields, memoryRequest]
  by_cases nil : data = []
  · -- a byte is missing, which `complete!` turns into an error
    have none : digits = [] := (hexData_nil_iff written).mpr nil
    subst none
    rw [if_pos nil]
    rfl
  · rw [if_neg nil]
    simp only [complete, hexByteSequence_at_end written nil, andThen_done]

theorem command_binaryWrite (data : Bytes) :
    command (binaryWrite addr len data) = memoryRequest address length data := by
  rw [binaryWrite, memoryHeader, command_X]
  have fields := writeMemoryWith_header "X" binaryByteSequence addrNumber lenNumber (writeBinaryData data).flatten
  rw [memoryHeader] at fields
  rw [writeMemoryBinary, fields, memoryRequest]
  by_cases nil : data = []
  · -- here too the sequence needs a first byte
    subst nil
    rw [if_pos rfl, writeBinaryData_flatten]
    rfl
  · rw [if_neg nil]
    simp only [complete, binaryByteSequence_written nil, andThen_done]

end Packets

/-! ### Serving -/

variable {σ : Type}

/-- A handler is asked once to write the data, and its result is the reply. -/
def serveWrite (h : Handler σ) (address : UInt64) (data : Bytes) : Service σ Bool := do
  let result ← h.call (.writeMemory address data)
  write (writeResponse (.fromResult (fun _ => .ok) result))
  return false

theorem handlePacket_of_request (h : Handler σ) (server : Server σ) {packet data : Bytes}
    {address length : UInt64} (request : command packet = memoryRequest address length data) :
    (handlePacket h packet).runOn server =
      if data = [] then (some false, { server with output := server.output ++ ascii "$#00" })
      else if length.toNat = data.length then (serveWrite h address data).runOn server
      else (some false, { server with output := server.output ++ ascii "$E01#a6" }) := by
  unfold memoryRequest at request
  split at request
  next nil =>
    rw [if_pos nil, handlePacket, request]
    rfl
  next some =>
    rw [if_neg some, handlePacket, request]
    -- the declared length is compared before the handler is asked
    by_cases same : length.toNat = data.length
    · simp only [handleCommand, same, ne_eq, not_true_eq_false, if_false, if_true, serveWrite, runOn_bind]
      rcases (h.call (.writeMemory address data)).runOn server with ⟨_ | result, after⟩ <;> rfl
    · simp only [handleCommand, same, ne_eq, not_false_eq_true, if_false, if_true]
      rfl

/-- Both packets do the same, whatever the handler: data of the declared length is written, other data
gets `E01` without a call, and a packet without data is not known. -/
theorem memory_writes_agree (h : Handler σ) (server : Server σ) {address length : UInt64}
    {addr addr' len len' digits data : Bytes} (addrNumber : Digits addr address)
    (addrNumber' : Digits addr' address) (lenNumber : Digits len length) (lenNumber' : Digits len' length)
    (written : HexData digits data) :
    (handlePacket h (hexWrite addr len digits)).runOn server =
        (handlePacket h (binaryWrite addr' len' data)).runOn server ∧
      (data ≠ [] → length.toNat = data.length →
        (handlePacket h (hexWrite addr len digits)).runOn server = (serveWrite h address data).runOn server) ∧
      (data ≠ [] → length.toNat ≠ data.length →
        (handlePacket h (hexWrite addr len digits)).runOn server =
          (some false, { server with output := server.output ++ ascii "$E01#a6" })) := by
  have hex := handlePacket_of_request h server (command_hexWrite addrNumber lenNumber written)
  have binary := handlePacket_of_request h server (command_binaryWrite addrNumber' lenNumber' data)
  refine ⟨hex.trans binary.symm, ?_, ?_⟩
  · intro some same
    rw [hex, if_neg some, if_pos same]
  · intro some differs
    rw [hex, if_neg some, if_neg differs]

/-- A handler that stores what it is asked to write. -/
def recorder : Handler (List (UInt64 × Bytes)) := fun call state =>
  match call with
  | .writeMemory address bytes => some (.ok (), state ++ [(address, bytes)])
  | _ => none

theorem two_bytes_written :
    (handlePacket recorder (ascii "M1F,2:2a7D")).runOn ⟨[], [], []⟩ =
        (handlePacket recorder (binaryWrite (ascii "1f") (ascii "02") [0x2a, 0x7d])).runOn ⟨[], [], []⟩ ∧
      (handlePacket recorder (ascii "M1F,2:2a7D")).runOn ⟨[], [], []⟩ =
        (serveWrite recorder 0x1f [0x2a, 0x7d]).runOn ⟨[], [], []⟩ := by
  have written : HexData (ascii "2a7D") [0x2a, 0x7d] :=
    ⟨[ascii "2a", ascii "7D"], rfl, .cons ⟨50, 97, rfl, rfl, rfl, rfl⟩ (.cons ⟨55, 68, rfl, rfl, rfl, rfl⟩ .nil)⟩
  have addrNumber : Digits (ascii "1F") 0x1f := digits_of_all (by decide) rfl rfl
  have addrNumber' : Digits (ascii "1f") 0x1f := digits_of_all (by decide) rfl rfl
  have lenNumber : Digits (ascii "2") 2 := digits_of_all (by decide) rfl rfl
  have lenNumber' : Digits (ascii "02") 2 := digits_of_all (by decide) rfl rfl
  have agree := memory_writes_agree recorder ⟨[], [], []⟩ addrNumber addrNumber' lenNumber lenNumber' written
  exact ⟨agree.1, agree.2.1 (by decide) (by decide)⟩

end GdbRemote
