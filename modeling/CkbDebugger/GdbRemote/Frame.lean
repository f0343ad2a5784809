import Mathlib.Data.List.TakeWhile
import CkbDebugger.Framing.Tokenizer
import CkbDebugger.Nom.Lemmas
import CkbDebugger.GdbRemote.Command

/-!
# Frames

The outer layer of the protocol: single-byte tokens, and frames that hold a
payload with a checksum. `run_parser` cuts the next token off a buffer, and
`packetTokenizer` shows that the cut depends on the token's own bytes alone.
-/
namespace GdbRemote

open Nom

/-- `u8::from_str_radix(s, 16)`, which allows a plus sign before the digits. -/
def u8FromStrRadix (s : String) : Option UInt8 :=
  let digits := match utf8 s with
    | 43 :: unsigned => unsigned
    | other => other
  if digits ≠ [] ∧ digits.all isHexDigit = true ∧ hexNumber digits < 256 then
    some (UInt8.ofNat (hexNumber digits))
  else none

def checksum : Parser UInt8 := mapRes (mapRes (take 2) fromUtf8) u8FromStrRadix

def packet : Parser (Bytes × UInt8) :=
  preceded (literal "$")
    (separatedPair ((fun data => data.getD []) <$> opt (isNot (ascii "#"))) (literal "#") checksum)

def packetOrResponse : Parser Packet :=
  alt [
    (fun (d, chk) => .data d chk) <$> packet,
    (fun _ => .ack) <$> literal "+",
    (fun _ => .nack) <$> literal "-",
    (fun _ => .interrupt) <$> literal "\x03"]

/-- `run_parser`: the number of bytes read, and the token read. -/
def runParser (buf : Bytes) : Option (Nat × Packet) :=
  -- a buffer that is too short and one that starts with no token are not told apart
  match packetOrResponse buf with
  | .done rest packet => some (buf.length - rest.length, packet)
  | _ => none

/-! ### The tokens -/

/-- The byte strings that make up one token. -/
inductive Token : Bytes → Packet → Prop where
  | ack : Token (ascii "+") .ack
  | nack : Token (ascii "-") .nack
  | interrupt : Token (ascii "\x03") .interrupt
  | frame (data : Bytes) (sum : Bytes) (chk : UInt8) (plain : (35 : UInt8) ∉ data)
      (twoBytes : sum.length = 2) (value : (fromUtf8 sum).bind u8FromStrRadix = some chk) :
      Token (ascii "$" ++ (data ++ (ascii "#" ++ sum))) (.data data chk)

theorem checksum_done_iff (input rest : Bytes) (chk : UInt8) :
    checksum input = .done rest chk ↔
      ∃ sum, input = sum ++ rest ∧ sum.length = 2 ∧ (fromUtf8 sum).bind u8FromStrRadix = some chk := by
  unfold checksum
  simp only [mapRes_done_iff, take]
  constructor
  · rintro ⟨text, ⟨sum, taken, isText⟩, value⟩
    split at taken
    next enough =>
      simp only [IResult.done.injEq] at taken
      obtain ⟨rfl, rfl⟩ := taken
      refine ⟨input.take 2, (List.take_append_drop 2 input).symm, ?_, ?_⟩
      · rw [List.length_take]
        omega
      · rw [isText, Option.bind_some, value]
    · cases taken
  · rintro ⟨sum, rfl, twoBytes, value⟩
    obtain ⟨text, isText, converted⟩ := Option.bind_eq_some_iff.mp value
    refine ⟨text, ⟨sum, ?_, isText⟩, converted⟩
    rw [if_pos (by simp only [List.length_append]; omega), ← twoBytes, List.drop_left, List.take_left]

/-- The payload runs up to the first `#`, or to the end of the input. -/
theorem payload_done (input : Bytes) :
    ((fun data => data.getD []) <$> opt (isNot (ascii "#")) : Parser Bytes) input =
      .done (input.dropWhile fun c => !(ascii "#").contains c)
        (input.takeWhile fun c => !(ascii "#").contains c) := by
  rw [map_apply]
  cases input with
  | nil => rfl
  | cons b tail =>
    -- `is_not` fails on an empty run, which `opt` turns into the empty payload
    by_cases hash : (ascii "#").contains b = true
    · simp only [opt, isNot, hash, if_true, andThen_done, Option.getD_none, List.takeWhile_cons,
        List.dropWhile_cons, Bool.not_true, Bool.false_eq_true, if_false]
    · simp only [opt, isNot, hash, Bool.false_eq_true, if_false, andThen_done, Option.getD_some]

theorem hash_mem_iff (c : UInt8) : (!(ascii "#").contains c) = true ↔ c ≠ 35 := by
  have hash : ascii "#" = [35] := rfl
  simp [hash]

/-- A payload followed by `#`, cut at the first `#`. -/
theorem payload_cut_iff (input data rest : Bytes) :
    (data = input.takeWhile (fun c => !(ascii "#").contains c) ∧
      ascii "#" ++ rest = input.dropWhile (fun c => !(ascii "#").contains c)) ↔
      input = data ++ (ascii "#" ++ rest) ∧ (35 : UInt8) ∉ data := by
  constructor
  · rintro ⟨rfl, after⟩
    refine ⟨?_, ?_⟩
    · rw [after, List.takeWhile_append_dropWhile]
    · intro member
      have kept : (!(ascii "#").contains 35) = true := List.mem_takeWhile_imp
        (p := fun c => !(ascii "#").contains c) member
      exact (hash_mem_iff 35).mp kept rfl
  · rintro ⟨rfl, plain⟩
    have payload : ∀ c ∈ data, (!(ascii "#").contains c) = true := by
      intro c member
      rw [hash_mem_iff]
      rintro rfl
      exact plain member
    have stop : ascii "#" ++ rest = 35 :: rest := rfl
    have hash : (!(ascii "#").contains 35) = false := rfl
    rw [List.takeWhile_append_of_pos payload, List.dropWhile_append_of_pos payload, stop,
      List.takeWhile_cons, List.dropWhile_cons, hash]
    simp

theorem packet_done_iff (input rest data : Bytes) (chk : UInt8) :
    packet input = .done rest (data, chk) ↔
      ∃ sum, input = ascii "$" ++ (data ++ (ascii "#" ++ sum)) ++ rest ∧ (35 : UInt8) ∉ data ∧
        sum.length = 2 ∧ (fromUtf8 sum).bind u8FromStrRadix = some chk := by
  unfold packet
  rw [preceded_literal_done_iff]
  simp only [separatedPair, bind_apply, pure_apply, payload_done, andThen_done, andThen_done_iff,
    literal_done_iff, checksum_done_iff, IResult.done.injEq, Prod.mk.injEq]
  constructor
  · rintro ⟨afterDollar, rfl, afterHash, _, ⟨cut, _⟩, _, _, ⟨sum, rfl, twoBytes, value⟩,
      rfl, rfl, rfl⟩
    obtain ⟨split, plain⟩ := (payload_cut_iff _ _ _).mp ⟨rfl, cut.symm⟩
    refine ⟨sum, ?_, plain, twoBytes, value⟩
    conv_lhs => rw [split]
    simp only [List.append_assoc]
  · rintro ⟨sum, rfl, plain, twoBytes, value⟩
    obtain ⟨payload, cut⟩ := (payload_cut_iff (data ++ (ascii "#" ++ (sum ++ rest))) data
      (sum ++ rest)).mpr ⟨rfl, plain⟩
    exact ⟨data ++ (ascii "#" ++ (sum ++ rest)), by simp only [List.append_assoc], sum ++ rest,
      ascii "#", ⟨cut.symm, rfl⟩, rest, chk, ⟨sum, rfl, twoBytes, value⟩, rfl, payload.symm, rfl⟩

/-- No token's first byte starts another kind of token. -/
theorem packet_error_of_single (single : Bytes) (rest : Bytes)
    (member : single ∈ [ascii "+", ascii "-", ascii "\x03"]) :
    packet (single ++ rest) = .error := by
  simp only [List.mem_cons, List.not_mem_nil, or_false] at member
  rcases member with rfl | rfl | rfl <;> rfl

theorem packetOrResponse_done_iff (input rest : Bytes) (pkt : Packet) :
    packetOrResponse input = .done rest pkt ↔ ∃ wire, input = wire ++ rest ∧ Token wire pkt := by
  constructor
  -- whichever alternative was taken tells which token was read
  · intro finished
    obtain ⟨p, member, done⟩ := alt_done_mem _ _ _ _ finished
    simp only [List.mem_cons, List.not_mem_nil, or_false] at member
    rcases member with rfl | rfl | rfl | rfl
    · obtain ⟨⟨data, chk⟩, framed, rfl⟩ := (map_done_iff _ _ _ _ _).mp done
      obtain ⟨sum, equal, plain, twoBytes, value⟩ := (packet_done_iff _ _ _ _).mp framed
      exact ⟨_, equal, .frame data sum chk plain twoBytes value⟩
    · obtain ⟨_, read, rfl⟩ := (map_done_iff _ _ _ _ _).mp done
      exact ⟨_, ((literal_done_iff _ _ _ _).mp read).1, .ack⟩
    · obtain ⟨_, read, rfl⟩ := (map_done_iff _ _ _ _ _).mp done
      exact ⟨_, ((literal_done_iff _ _ _ _).mp read).1, .nack⟩
    · obtain ⟨_, read, rfl⟩ := (map_done_iff _ _ _ _ _).mp done
      exact ⟨_, ((literal_done_iff _ _ _ _).mp read).1, .interrupt⟩
  -- the frame is tried first, so for the other tokens it has to fail, not to wait
  · rintro ⟨wire, rfl, token⟩
    cases token with
    | ack =>
      have other := packet_error_of_single (ascii "+") rest (by simp)
      simp only [packetOrResponse, alt, map_apply, other]
      rfl
    | nack =>
      have other := packet_error_of_single (ascii "-") rest (by simp)
      simp only [packetOrResponse, alt, map_apply, other]
      rfl
    | interrupt =>
      have other := packet_error_of_single (ascii "\x03") rest (by simp)
      simp only [packetOrResponse, alt, map_apply, other]
      rfl
    | frame data sum chk plain twoBytes value =>
      have framed := (packet_done_iff _ rest data chk).mpr ⟨sum, rfl, plain, twoBytes, value⟩
      simp only [packetOrResponse, alt, map_apply, framed, andThen_done]

theorem token_ne_nil {wire : Bytes} {pkt : Packet} (token : Token wire pkt) : wire ≠ [] := by
  cases token <;> simp [ascii]

/-- `run_parser` finds the token that the buffer starts with. -/
theorem runParser_eq_some_iff (buf : Bytes) (len : Nat) (pkt : Packet) :
    runParser buf = some (len, pkt) ↔ ∃ wire rest, buf = wire ++ rest ∧ wire.length = len ∧
      Token wire pkt := by
  unfold runParser
  constructor
  · intro found
    split at found
    next rest packet done =>
      obtain ⟨wire, rfl, token⟩ := (packetOrResponse_done_iff _ _ _).mp done
      simp only [List.length_append, Option.some.injEq, Prod.mk.injEq] at found
      obtain ⟨rfl, rfl⟩ := found
      exact ⟨wire, rest, rfl, by omega, token⟩
    · cases found
  · rintro ⟨wire, rest, rfl, rfl, token⟩
    rw [(packetOrResponse_done_iff _ rest pkt).mpr ⟨wire, rfl, token⟩]
    simp

/-- The tokens of the protocol, as the packet loop looks for them. -/
def packetTokenizer : Framing.Tokenizer UInt8 Packet where
  next := runParser
  bounds := by
    intro input len pkt found
    obtain ⟨wire, rest, rfl, rfl, token⟩ := (runParser_eq_some_iff _ _ _).mp found
    have occupied := List.length_pos_of_ne_nil (token_ne_nil token)
    simp only [List.length_append]
    omega
  extend := by
    intro input len pkt more found
    obtain ⟨wire, rest, rfl, short, token⟩ := (runParser_eq_some_iff _ _ _).mp found
    exact (runParser_eq_some_iff _ _ _).mpr ⟨wire, rest ++ more, List.append_assoc _ _ _, short, token⟩
  restrict := by
    intro input len pkt more found inside
    obtain ⟨wire, rest, equal, rfl, token⟩ := (runParser_eq_some_iff _ _ _).mp found
    -- two prefixes of one buffer: the token ends inside the shorter input
    have start : wire <+: input := List.prefix_of_prefix_length_le
      (equal ▸ List.prefix_append wire rest) (List.prefix_append input more) inside
    obtain ⟨tail, rfl⟩ := start
    exact (runParser_eq_some_iff _ _ _).mpr ⟨wire, tail, rfl, rfl, token⟩

end GdbRemote
