import CkbDebugger.Loop.Basic
import CkbDebugger.Nom.Texts
import CkbDebugger.GdbRemote.SelfDelimiting

/-!
# Binary data, written and read

`write_binary_data` looks for the next byte that has to be escaped and writes what is before it
in one piece; `binary_byte` reads one byte at a time. Both agree byte by byte.
-/
namespace GdbRemote

open Nom

/-! ### The loop of the writer -/

/-- A round of the loop of `write_binary_data`: the bytes that remain, and the pieces written. -/
def binaryRound (state : Bytes × List Bytes) : Loop.Round (Bytes × List Bytes) (List Bytes) :=
  let (remaining, written) := state
  let unescaped := min (remaining.findIdx fun b => b == 35 || b == 36 || b == 125)
    (remaining.findIdx fun b => b == 42)
  let written := written ++ [remaining.take unescaped]
  match remaining.drop unescaped with
  | [] => .leave written
  | byte :: rest => .again (rest, written ++ [[125, byte ^^^ 0x20]])

/-- Each round but the last takes a byte away, so one round more than there are bytes is enough. -/
theorem binaryRound_run (remaining : Bytes) (written : List Bytes) (rounds : Nat)
    (enough : remaining.length < rounds) :
    Loop.run binaryRound rounds (remaining, written) = some (written ++ writeBinaryData remaining) := by
  induction rounds generalizing remaining written with
  | zero => omega
  | succ rounds ih =>
    rw [writeBinaryData]
    simp only [Loop.run, binaryRound]
    generalize min (remaining.findIdx fun b => b == 35 || b == 36 || b == 125)
      (remaining.findIdx fun b => b == 42) = unescaped
    cases found : remaining.drop unescaped with
    | nil => rfl
    | cons byte rest =>
      -- the byte that is escaped is read in this round
      have shorter : rest.length < rounds := by
        have length := congrArg List.length found
        rw [List.length_drop, List.length_cons] at length
        omega
      simp only [ih rest _ shorter, List.append_assoc, List.cons_append, List.nil_append]

/-! ### One byte -/

/-- The byte is sent with an escape in front of it. -/
def isEscaped (b : UInt8) : Bool := b == 35 || b == 36 || b == 125 || b == 42

def escape (b : UInt8) : Bytes := if isEscaped b then [125, b ^^^ 0x20] else [b]

theorem escape_plain {plain : Bytes} (unescaped : ∀ b ∈ plain, isEscaped b = false) :
    plain.flatMap escape = plain := by
  induction plain with
  | nil => rfl
  | cons b plain ih =>
    have first := unescaped b List.mem_cons_self
    rw [List.flatMap_cons, ih fun c member => unescaped c (List.mem_cons_of_mem b member)]
    simp only [escape, first, Bool.false_eq_true, if_false, List.cons_append, List.nil_append]

theorem plain_of_mem_take {data : Bytes} {b : UInt8}
    (member : b ∈ data.take (min (data.findIdx fun b => b == 35 || b == 36 || b == 125)
      (data.findIdx fun b => b == 42))) : isEscaped b = false := by
  have marks := not_of_mem_take_findIdx (Nat.min_le_left _ _) member
  have star := not_of_mem_take_findIdx (Nat.min_le_right _ _) member
  rw [isEscaped, marks, star, Bool.or_self]

/-- The runs of plain bytes do not show in what is written. -/
theorem writeBinaryData_flatten (data : Bytes) : (writeBinaryData data).flatten = data.flatMap escape := by
  fun_induction writeBinaryData data with
  | case1 data unescaped ended =>
    rw [List.flatten_cons, List.flatten_nil, List.append_nil]
    have whole := List.take_append_drop unescaped data
    rw [ended, List.append_nil] at whole
    conv_rhs => rw [← whole]
    exact (escape_plain fun b member => plain_of_mem_take member).symm
  | case2 data unescaped byte rest found ih =>
    -- the search has stopped at this byte, so it is one of the marks
    have marked : isEscaped byte = true := by
      have either := escaped_of_drop found
      simpa only [isEscaped, Bool.or_eq_true] using either
    have whole := List.take_append_drop unescaped data
    rw [found] at whole
    conv_rhs => rw [← whole]
    rw [List.flatMap_append, List.flatMap_cons, escape_plain fun b member => plain_of_mem_take member]
    simp only [List.flatten_cons, ih, escape, marked, if_true]
    rfl

theorem binaryByte_escaped (c : UInt8) (rest : Bytes) :
    binaryByte (125 :: c :: rest) = .done rest (c ^^^ 0x20) := by
  have brace : literal "\x7d" (125 :: c :: rest) = .done (c :: rest) (ascii "\x7d") :=
    literal_append "\x7d" (c :: rest)
  have next : take 1 (c :: rest) = .done rest [c] := by simp [take]
  simp only [binaryByte, altComplete, preceded, map_apply, bind_apply, brace, andThen_done, next]
  rfl

theorem binaryByte_plain {b : UInt8} (plain : b ≠ 125) (rest : Bytes) :
    binaryByte (b :: rest) = .done rest b := by
  have brace : literal "\x7d" (b :: rest) = .error := by
    have first : ascii "\x7d" = [125] := rfl
    simp [literal, tag, first, List.isPrefixOf, plain, Ne.symm plain]
  have next : take 1 (b :: rest) = .done rest [b] := by simp [take]
  simp only [binaryByte, altComplete, preceded, map_apply, bind_apply, brace, andThen_error, andThen_done,
    next]
  rfl

/-- `binary_byte` undoes the escape, whatever comes after it. -/
theorem escape_text (b : UInt8) : TextOf binaryByte (fun _ => True) (escape b) b where
  reads := by
    intro rest _
    unfold escape
    split
    · have twice : b ^^^ 0x20 ^^^ 0x20 = b := by rw [UInt8.xor_assoc, UInt8.xor_self, UInt8.xor_zero]
      rw [List.cons_append, List.cons_append, List.nil_append, binaryByte_escaped, twice]
    next unmarked =>
      have plain : b ≠ 125 := by
        rintro rfl
        exact unmarked rfl
      exact binaryByte_plain plain rest
  starts := fun _ => trivial

theorem consumes_binaryByte : Consumes binaryByte := by
  intro input rest b done
  match input with
  | [] => cases done
  | [c] =>
    -- the escape alone is read as a plain byte
    by_cases brace : c = 125
    · subst brace
      cases done
      decide
    · rw [binaryByte_plain brace] at done
      cases done
      exact Nat.zero_lt_one
  | c :: d :: input =>
    by_cases brace : c = 125
    · subst brace
      rw [binaryByte_escaped] at done
      cases done
      simp only [List.length_cons]
      omega
    · rw [binaryByte_plain brace] at done
      cases done
      simp only [List.length_cons]
      omega

/-! ### Whole data -/

/-- What is written is read as the bytes one after another, up to the end. -/
theorem binaryData_collects (data : Bytes) :
    Collects binaryByte (writeBinaryData data).flatten data [] := by
  have texts : List.Forall₂ (TextOf binaryByte fun _ => True) (data.map escape) data := by
    induction data with
    | nil => exact .nil
    | cons b data ih => exact .cons (escape_text b) ih
  rw [writeBinaryData_flatten, List.flatMap_def]
  exact collects_at_end texts trivial

theorem binaryByteSequence_written {data : Bytes} (nonempty : data ≠ []) :
    binaryByteSequence (writeBinaryData data).flatten = .done [] data :=
  many1_of_collects consumes_binaryByte (binaryData_collects data) nonempty (Or.inl rfl)

/-- The loop of `write_binary_data` ends for all data, what it writes holds none of `#`, `$` and `*`,
and `binary_byte_sequence` gets the data back from it. -/
theorem binary_data_round_trip (data : Bytes) :
    ∃ written, (∀ rounds, data.length < rounds → Loop.run binaryRound rounds (data, []) = some written) ∧
      written = writeBinaryData data ∧
      (∀ b ∈ written.flatten, b ≠ 35 ∧ b ≠ 36 ∧ b ≠ 42) ∧
      (data ≠ [] → binaryByteSequence written.flatten = .done [] data) := by
  refine ⟨writeBinaryData data, ?_, rfl, ?_, binaryByteSequence_written⟩
  · intro rounds enough
    rw [binaryRound_run data [] rounds enough, List.nil_append]
  · intro b member
    have clean := writeBinaryData_clean data b member
    simpa only [reserved, Bool.or_eq_false_iff, beq_eq_false_iff_ne, and_assoc] using clean

/-- Data of nothing but bytes that have to be escaped. -/
theorem marks_round_trip :
    binaryByteSequence (writeBinaryData [125, 35, 36, 42, 125]).flatten = .done [] [125, 35, 36, 42, 125] := by
  obtain ⟨_, _, rfl, _, reads⟩ := binary_data_round_trip [125, 35, 36, 42, 125]
  exact reads (by decide)

end GdbRemote
