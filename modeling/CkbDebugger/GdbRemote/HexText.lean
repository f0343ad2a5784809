import Mathlib.Data.List.Forall2
import CkbDebugger.Nom.Texts
import CkbDebugger.GdbRemote.BreakpointPacket
import CkbDebugger.GdbRemote.Response

/-!
# Numbers, bytes and thread ids as text

The texts that a request carries its numbers, bytes and thread ids in, with what the parsers
make of them. A number and a byte may be written with digits of either case; a thread id is
written as `write_thread_id` does.
-/
namespace GdbRemote

open Nom

/-! ### Digits -/

theorem digitChar_isHexDigit : ∀ d < 16, isHexDigit (UInt8.ofNat (Nat.digitChar d).toNat) = true := by
  decide

theorem hexDigitValue_digitChar : ∀ d < 16, hexDigitValue (UInt8.ofNat (Nat.digitChar d).toNat) = d := by
  decide

/-! ### Numbers -/

theorem hexNumber_append_digit (digits : Bytes) (b : UInt8) :
    hexNumber (digits ++ [b]) = 16 * hexNumber digits + hexDigitValue b := by
  simp only [hexNumber, List.foldl_append, List.foldl_cons, List.foldl_nil]

theorem lowerHex_step (n : Nat) : lowerHex n =
    (if n < 16 then [] else lowerHex (n / 16)) ++ [UInt8.ofNat (Nat.digitChar (n % 16)).toNat] := by
  rw [lowerHex, Nat.toDigits_eq_if (by decide)]
  split
  next small => simp only [Nat.mod_eq_of_lt small, List.map_cons, List.map_nil, List.nil_append]
  next => rw [List.map_append, lowerHex, List.map_cons, List.map_nil]

theorem lowerHex_ne_nil (n : Nat) : lowerHex n ≠ [] := by
  rw [lowerHex_step]
  simp

theorem lowerHex_isHexDigit (n : Nat) : ∀ b ∈ lowerHex n, isHexDigit b = true := by
  induction n using Nat.strongRecOn with
  | ind n ih =>
    intro b member
    rw [lowerHex_step, List.mem_append, List.mem_singleton] at member
    rcases member with before | rfl
    · split at before
      · cases before
      · exact ih (n / 16) (by omega) b before
    · exact digitChar_isHexDigit (n % 16) (Nat.mod_lt _ (by decide))

theorem hexNumber_lowerHex (n : Nat) : hexNumber (lowerHex n) = n := by
  induction n using Nat.strongRecOn with
  | ind n ih =>
    rw [lowerHex_step, hexNumber_append_digit, hexDigitValue_digitChar (n % 16) (Nat.mod_lt _ (by decide))]
    split
    next small =>
      rw [hexNumber, List.foldl_nil]
      omega
    next =>
      rw [ih (n / 16) (by omega)]
      omega

/-- The format `{:x}` writes a number. -/
theorem lowerHex_digits (value : UInt64) : Digits (lowerHex value.toNat) value where
  nonempty := lowerHex_ne_nil value.toNat
  digits := lowerHex_isHexDigit value.toNat
  denotes := hexNumber_lowerHex value.toNat

/-- A given text is checked digit by digit. -/
theorem digits_of_all {text : Bytes} {value : UInt64} (nonempty : text ≠ []) (all : text.all isHexDigit = true)
    (denotes : hexNumber text = value.toNat) : Digits text value where
  nonempty := nonempty
  digits := List.all_eq_true.mp all
  denotes := denotes

/-- Only the number zero starts with a zero. -/
theorem lowerHex_head (n : Nat) (positive : 0 < n) : ∀ b ∈ (lowerHex n).head?, b ≠ 48 := by
  induction n using Nat.strongRecOn with
  | ind n ih =>
    intro b first
    rw [lowerHex_step] at first
    split at first
    next small =>
      have digits : ∀ d < 16, 0 < d → UInt8.ofNat (Nat.digitChar d).toNat ≠ 48 := by decide
      simp only [Nat.mod_eq_of_lt small, List.nil_append, List.head?_cons, Option.mem_some_iff] at first
      rw [← first]
      exact digits n small positive
    next large =>
      -- the last digit is appended to those of the quotient, which is not zero
      rw [List.head?_append_of_ne_nil _ (lowerHex_ne_nil _)] at first
      exact ih (n / 16) (by omega) (by omega) b first

/-! ### Bytes -/

/-- Two digits that denote a byte. -/
def HexByte (text : Bytes) (b : UInt8) : Prop :=
  ∃ high low, text = [high, low] ∧ isHexDigit high = true ∧ isHexDigit low = true ∧
    16 * hexDigitValue high + hexDigitValue low = b.toNat

/-- Two digits for each byte. -/
def HexData (text data : Bytes) : Prop := ∃ pairs, text = pairs.flatten ∧ List.Forall₂ HexByte pairs data

theorem hexByte_text {text : Bytes} {b : UInt8} (two : HexByte text b) :
    TextOf hexByte (fun _ => True) text b where
  reads := by
    intro rest _
    obtain ⟨high, low, rfl, first, second, value⟩ := two
    simp only [hexByte, bind_apply, List.cons_append, List.nil_append, hexDigit_of_digit first, andThen_done,
      hexDigit_of_digit second, pure_apply, value, UInt8.ofNat_toNat]
  starts := fun _ => trivial

theorem hexData_collects {text data : Bytes} (written : HexData text data) (rest : Bytes) :
    Collects hexByte (text ++ rest) data rest := by
  obtain ⟨pairs, rfl, each⟩ := written
  exact collects_of_texts (each.imp fun _ _ two => hexByte_text two) trivial

theorem hexData_nil_iff {text data : Bytes} (written : HexData text data) : text = [] ↔ data = [] := by
  obtain ⟨pairs, rfl, each⟩ := written
  cases each with
  | nil => simp
  | cons two _ =>
    obtain ⟨high, low, rfl, _⟩ := two
    simp

/-- Bytes that end where no digit follows are read to their end. -/
theorem hexByteSequence_text {text data rest : Bytes} (written : HexData text data) (nonempty : data ≠ [])
    (stops : ∀ b ∈ rest.head?, isHexDigit b = false) : hexByteSequence (text ++ rest) = .done rest data := by
  refine many1_of_collects consumes_hexByte (hexData_collects written rest) nonempty ?_
  cases rest with
  | nil => exact Or.inl rfl
  | cons b rest =>
    right
    simp only [hexByte, bind_apply, hexDigit_of_not_digit (stops b rfl), andThen_error]

theorem hexByteSequence_at_end {text data : Bytes} (written : HexData text data) (nonempty : data ≠ []) :
    hexByteSequence text = .done [] data := by
  have read := @hexByteSequence_text text data [] written nonempty (by simp)
  rwa [List.append_nil] at read

theorem lowerHex2_hexByte (b : UInt8) : HexByte (lowerHex2 b.toNat) b := by
  have all : ∀ n < 256, lowerHex2 n =
      [UInt8.ofNat (Nat.digitChar (n / 16)).toNat, UInt8.ofNat (Nat.digitChar (n % 16)).toNat] := by
    decide +kernel
  have small := b.toNat_lt
  have high : b.toNat / 16 < 16 := by omega
  have low : b.toNat % 16 < 16 := by omega
  refine ⟨_, _, all b.toNat small, digitChar_isHexDigit _ high, digitChar_isHexDigit _ low, ?_⟩
  rw [hexDigitValue_digitChar _ high, hexDigitValue_digitChar _ low]
  omega

/-- `write_hex_data` writes two digits for each byte. -/
theorem writeHexData_hexData (data : Bytes) : HexData (writeHexData data).flatten data := by
  refine ⟨writeHexData data, rfl, ?_⟩
  induction data with
  | nil => exact .nil
  | cons b data ih => exact .cons (lowerHex2_hexByte b) ih

/-! ### Thread ids -/

/-- An id as the protocol has it: the number zero stands for any thread. -/
def Id.Proper (id : Id) : Prop := id ≠ .id 0

def ThreadId.Proper (thread : ThreadId) : Prop := thread.pid.Proper ∧ thread.tid.Proper

theorem parseThreadIdElement_any (rest : Bytes) :
    parseThreadIdElement (writeId .any ++ rest) = .done rest .any := by
  simp only [parseThreadIdElement, altComplete, map_apply, writeId, literal_append, andThen_done]

theorem parseThreadIdElement_all (rest : Bytes) :
    parseThreadIdElement (writeId .all ++ rest) = .done rest .all := by
  have zero : literal "0" (ascii "-1" ++ rest) = .error := rfl
  simp only [parseThreadIdElement, altComplete, map_apply, writeId, zero, andThen_error, literal_append,
    andThen_done]

theorem literal_error_of_head {s : String} {c : UInt8} (name : [c] <+: ascii s) {b : UInt8}
    (differs : b ≠ c) (rest : Bytes) : literal s (b :: rest) = .error := by
  obtain ⟨tail, name⟩ := name
  simp [literal, tag, ← name, List.isPrefixOf, differs, Ne.symm differs]

theorem parseThreadIdElement_id {num : UInt32} (nonzero : num ≠ 0) {rest : Bytes}
    (stops : ∀ b ∈ rest.head?, isHexDigit b = false) :
    parseThreadIdElement (writeId (.id num) ++ rest) = .done rest (.id num) := by
  have positive : 0 < num.toNat := by
    rw [Nat.pos_iff_ne_zero]
    exact fun zero => nonzero (UInt32.toNat_inj.mp zero)
  have number : Digits (lowerHex num.toNat) num.toUInt64 := lowerHex_digits num.toUInt64
  have read := hexValue_digits number stops
  simp only [writeId]
  -- the digits do not start like the two special ids
  cases text : lowerHex num.toNat with
  | nil => exact absurd text (lowerHex_ne_nil num.toNat)
  | cons b digits =>
    rw [text] at read
    have notZero : b ≠ 48 := lowerHex_head num.toNat positive b (by rw [text]; rfl)
    have digit : isHexDigit b = true := lowerHex_isHexDigit num.toNat b (by rw [text]; exact List.mem_cons_self)
    have notMinus : b ≠ 45 := by
      rintro rfl
      cases digit
    rw [List.cons_append] at read ⊢
    simp only [parseThreadIdElement, altComplete, map_apply,
      literal_error_of_head (s := "0") (by decide) notZero, andThen_error,
      literal_error_of_head (s := "-1") (by decide) notMinus, read, andThen_done, UInt32.toUInt32_toUInt64]

theorem parseThreadIdElement_text {id : Id} (proper : id.Proper) {rest : Bytes}
    (stops : ∀ b ∈ rest.head?, isHexDigit b = false) :
    parseThreadIdElement (writeId id ++ rest) = .done rest id := by
  cases id with
  | any => exact parseThreadIdElement_any rest
  | all => exact parseThreadIdElement_all rest
  | id num => exact parseThreadIdElement_id (fun zero => proper (by rw [zero])) stops

/-- A thread id as `write_thread_id` writes it is read to its end. -/
theorem parseThreadId_text {thread : ThreadId} (proper : thread.Proper) {rest : Bytes}
    (stops : ∀ b ∈ rest.head?, isHexDigit b = false) :
    parseThreadId ((writeThreadId thread).flatten ++ rest) = .done rest thread := by
  have whole : (writeThreadId thread).flatten ++ rest =
      112 :: (writeId thread.pid ++ (ascii "." ++ (writeId thread.tid ++ rest))) := by
    simp [writeThreadId, ascii]
  have dot : ∀ b ∈ (ascii "." ++ (writeId thread.tid ++ rest)).head?, isHexDigit b = false :=
    stops_at_mark rfl _
  -- the letter is neither a special id nor a digit
  have notElement : ∀ tail, parseThreadIdElement (112 :: tail) = .error := fun _ => rfl
  have letter : ∀ tail, literal "p" (112 :: tail) = .done tail (ascii "p") := literal_append "p"
  rw [whole]
  simp only [parseThreadId, altComplete, map_apply, notElement, andThen_error, preceded, separatedPair,
    bind_apply, letter, andThen_done, parseThreadIdElement_text proper.1 dot, literal_append,
    parseThreadIdElement_text proper.2 stops, pure_apply]

end GdbRemote
