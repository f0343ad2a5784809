import CkbDebugger.Nom.Leftover
import CkbDebugger.GdbRemote.Escaping
import CkbDebugger.GdbRemote.QueryPacket
import CkbDebugger.GdbRemote.Totality

/-!
# The grammars of the arguments

What the parsers of numbers, bytes, thread ids and lists read from the front of an input, and what they
leave of it.
-/
namespace GdbRemote

open Nom

/-! ### Lists of numbers -/

/-- Numbers, each after a semicolon, up to the end or to where something else follows. A last semicolon
alone is not such an end. -/
def SyscallList : Grammar := (Number.after ";").many fun rest => NoNumberAfter ";" rest ∧ rest ≠ ascii ";"

/-- Numbers with semicolons between them, up to where no further one follows. -/
def SignalList : Grammar := Number.separatedBy ";" NoDigit

theorem consumes_semicolon_hexValue : Consumes (preceded (literal ";") hexValue) :=
  consumes_bind consumes_semicolon fun _ => consumes_hexValue.shrinks

theorem semicolon_hexValue_stops_iff (rest : Bytes) :
    rest = [] ∨ preceded (literal ";") hexValue rest = .error ↔ NoNumberAfter ";" rest ∧ rest ≠ ascii ";" := by
  rw [← preceded_hexValue_fails_iff]
  constructor
  · rintro (rfl | rejected)
    · exact ⟨Or.inr rfl, by decide⟩
    · refine ⟨Or.inl rejected, ?_⟩
      rintro rfl
      cases rejected
  · rintro ⟨rejected | cut, notMark⟩
    · exact Or.inr rejected
    · left
      -- only an input that is too short can be incomplete
      cases rest with
      | nil => rfl
      | cons b rest =>
        by_cases mark : ascii ";" <+: b :: rest
        · obtain ⟨number, equal⟩ := mark
          rw [← equal, preceded_literal_append, hexValue_incomplete_iff] at cut
          rw [← equal, cut, List.append_nil] at notMark
          exact absurd rfl notMark
        · have differs : b ≠ 59 := by
            rintro rfl
            exact mark ⟨rest, rfl⟩
          have rejected : literal ";" (b :: rest) = .error := literal_error_of_head (by decide) differs rest
          simp [preceded, rejected] at cut

theorem parses_syscalls : Parses (many0 (preceded (literal ";") hexValue)) SyscallList :=
  (parses_hexValue.preceded ";").many0 consumes_semicolon_hexValue semicolon_hexValue_stops_iff

theorem parses_programSignals : Parses (separatedNonemptyListComplete (literal ";") hexValue) SignalList :=
  parses_hexValue.separatedNonemptyListComplete consumes_hexValue hexValue_fails_iff ";" (by decide)

theorem parses_passSignals : Parses (separatedListComplete (literal ";") hexValue) (SignalList.optional NoDigit) :=
  parses_hexValue.separatedListComplete consumes_hexValue hexValue_fails_iff ";" (by decide)

/-! ### Features -/

/-- A text in UTF-8 up to one of the given bytes. -/
def Utf8 (stop : Bytes) : Grammar := fun input rest => ∃ text, UpTo stop input text rest ∧ (fromUtf8 text).isSome

theorem parses_utf8 (stop : Bytes) : Parses (mapRes (isNot stop) fromUtf8) (Utf8 stop) := by
  intro input rest
  simp only [mapRes_done_iff, isNot_done_iff, Utf8, Option.isSome_iff_exists]
  constructor
  · rintro ⟨s, text, taken, valid⟩
    exact ⟨text, taken, s, valid⟩
  · rintro ⟨text, taken, s, valid⟩
    exact ⟨s, text, taken, valid⟩

/-- A name with its mark in the last byte, or else a name with a value. -/
def IsFeature (text : Bytes) : Prop :=
  ∃ last ∈ text.getLast?, ∃ rest,
    if last = 43 ∨ last = 45 then Utf8 (ascii ";=") text.dropLast rest
    else (Utf8 (ascii ";=")).followedBy "=" (Utf8 (ascii ";")) text rest

/-- What is left of a feature itself is dropped. -/
theorem gdbfeatureWithSupport_done_iff (text : Bytes) :
    (∃ rest a, gdbfeatureWithSupport text = .done rest a) ↔ IsFeature text := by
  have name : Parses gdbfeature (Utf8 (ascii ";=")) := (parses_utf8 _).map _
  have valued := name.separatedPair "=" (parses_utf8 (ascii ";"))
  unfold gdbfeatureWithSupport IsFeature
  split
  next empty => simp [empty]
  next yes =>
    simp only [yes, Option.mem_some_iff, exists_eq_left', true_or, if_true]
    exact exists_congr (name.map _ _)
  next no =>
    simp only [no, Option.mem_some_iff, exists_eq_left', or_true, if_true]
    exact exists_congr (name.map _ _)
  next last notYes notNo other =>
    have unmarked : ¬(last = 43 ∨ last = 45) := not_or.mpr ⟨notYes, notNo⟩
    simp only [other, Option.mem_some_iff, exists_eq_left', unmarked, if_false]
    exact exists_congr (valued.map _ _)

/-- A feature up to a semicolon. -/
def Feature : Grammar := fun input rest => ∃ text, UpTo (ascii ";") input text rest ∧ IsFeature text

theorem parses_gdbfeaturesupported : Parses gdbfeaturesupported Feature := by
  intro input rest
  simp only [gdbfeaturesupported, flatMap, andThen_done_iff, isNot_done_iff, IResult.done.injEq, Feature,
    ← gdbfeatureWithSupport_done_iff]
  constructor
  · rintro ⟨_, _, text, taken, unread, a, done, rfl, _⟩
    exact ⟨text, taken, unread, a, done⟩
  · rintro ⟨text, taken, unread, a, done⟩
    exact ⟨a, rest, text, taken, unread, a, done, rfl, rfl⟩

theorem consumes_gdbfeaturesupported : Consumes gdbfeaturesupported := by
  intro input rest feature done
  obtain ⟨text, ⟨rfl, _⟩, isFeature⟩ := (parses_gdbfeaturesupported input rest).mp ⟨feature, done⟩
  have nonempty : text ≠ [] := by
    rintro rfl
    simp [IsFeature] at isFeature
  have positive := List.length_pos_iff.mpr nonempty
  rw [List.length_append]
  omega

def NoFeature (input : Bytes) : Prop := ∀ rest, ¬Feature input rest

theorem gdbfeaturesupported_fails_iff (input : Bytes) : Fails (gdbfeaturesupported input) ↔ NoFeature input := by
  rw [parses_gdbfeaturesupported.fails_iff (fun input => iff_false_intro (gdbfeaturesupported_quiet input))]
  simp only [not_false_eq_true, true_and, NoFeature]

/-- Features with semicolons between them, up to where no further one follows. -/
def FeatureList : Grammar := (Feature.separatedBy ";" NoFeature).optional NoFeature

theorem parses_features : Parses (separatedListComplete (literal ";") gdbfeaturesupported) FeatureList :=
  parses_gdbfeaturesupported.separatedListComplete consumes_gdbfeaturesupported gdbfeaturesupported_fails_iff ";"
    (by decide)

/-! ### Lists of bytecodes -/

/-- The lists after the kind of a breakpoint. -/
def Lists : Grammar := Conditions.seq CommandList

theorem parses_lists : Parses (unwrapDone parseCondAndCommandList) Lists := by
  intro input rest
  have unwrapped : ∀ lists, unwrapDone parseCondAndCommandList input = .done rest lists ↔
      parseCondAndCommandList input = .done rest lists := by
    intro lists
    cases h : parseCondAndCommandList input <;> simp [unwrapDone, h]
  simp only [unwrapped]
  refine parses_maybeConditionList.bind ?_ input rest
  exact fun condList => parses_maybeCommandList.bind_pure fun cmdList => (condList, cmdList)

/-- What follows the numbers of a `z` or `Z` packet. -/
def zRest : ZAction → ZType → Grammar
  | .insert, .softwareBreakpoint => Lists
  | .insert, .hardwareBreakpoint => Lists
  | _, _ => Eq

theorem parses_zTail (action : ZAction) (type : ZType) :
    Parses (zTail action type) (Number.followedBy "," (Number.seq (zRest action type))) := by
  apply parses_hexValue.followedBy
  intro addr _
  apply parses_hexValue.bind
  intro kind
  cases action with
  | remove => cases type <;> exact parses_pure _
  | insert =>
    cases type with
    | softwareBreakpoint => exact parses_lists.map _
    | hardwareBreakpoint => exact parses_lists.map _
    | writeWatchpoint => exact parses_pure _
    | readWatchpoint => exact parses_pure _
    | accessWatchpoint => exact parses_pure _

/-! ### Binary data -/

theorem binaryByte_ne_error (b : UInt8) (rest : Bytes) : binaryByte (b :: rest) ≠ .error := by
  by_cases brace : b = 125
  · subst brace
    cases rest with
    | nil => decide
    | cons c rest => simp [binaryByte_escaped]
  · simp [binaryByte_plain brace]

/-- Binary data go to the end. -/
theorem binaryByteSequence_whole {input rest data : Bytes} (done : binaryByteSequence input = .done rest data) :
    rest = [] := by
  obtain ⟨_, _, _, _, stops⟩ := (many1_done_iff _ consumes_binaryByte input rest).mp ⟨data, done⟩
  cases rest with
  | nil => rfl
  | cons b rest =>
    rcases stops with stops | stops
    · exact stops
    · exact absurd stops (binaryByte_ne_error b rest)

end GdbRemote
