import CkbDebugger.GdbRemote.VContPacket

/-!
# Queries with fields of any length

The texts of the queries that carry bytes, names or lists, and what `query` makes of them. All are
read back but one: the parser of `qSymbol` expects the packet to end where the name of the symbol
should stand.
-/
namespace GdbRemote

open Nom

/-! ### The texts -/

/-- UTF-8 without a colon. -/
structure FieldText (text : Bytes) (value : String) : Prop where
  free : 58 ∉ text
  valid : fromUtf8 text = some value

/-- Numbers with semicolons between them. -/
def joined : List Bytes → Bytes
  | [] => []
  | first :: others => first ++ others.flatMap (ascii ";" ++ ·)

inductive QueryText : Bytes → Query → Prop where
  | invoke {digits bytes : Bytes} (written : HexData digits bytes) (nonempty : bytes ≠ []) :
      QueryText (ascii "qRcmd," ++ digits) (.invoke bytes)
  | symbol {value name : Bytes} {symValue symName : String} (valueText : FieldText value symValue)
      (nameText : FieldText name symName) :
      QueryText (ascii "qSymbol:" ++ (value ++ (ascii ":" ++ name))) (.symbol symValue symName)
  | readBytes {object annex start count : Bytes} {objectName annexName : String} {offset length : UInt64}
      (objectText : FieldText object objectName) (annexText : FieldText annex annexName)
      (offsetNumber : Digits start offset) (lengthNumber : Digits count length) :
      QueryText (ascii "qXfer:" ++ (object ++ (ascii ":read:" ++ (annex ++ (ascii ":" ++
        (start ++ (ascii "," ++ count))))))) (.readBytes objectName annexName offset length)
  | passSignals {texts : List Bytes} {signals : List UInt64} (numbers : List.Forall₂ Digits texts signals) :
      QueryText (ascii "QPassSignals:" ++ joined texts) (.passSignals signals)
  | programSignals {texts : List Bytes} {signals : List UInt64} (numbers : List.Forall₂ Digits texts signals)
      (nonempty : signals ≠ []) :
      QueryText (ascii "QProgramSignals:" ++ joined texts) (.programSignals signals)
  | catchSyscalls {texts : List Bytes} {syscalls : List UInt64} (numbers : List.Forall₂ Digits texts syscalls) :
      QueryText (ascii "QCatchSyscalls:1" ++ texts.flatMap (ascii ";" ++ ·)) (.catchSyscalls (some syscalls))
  | threadInfo {thread : ThreadId} (proper : thread.Proper) :
      QueryText (ascii "qThreadExtraInfo," ++ (writeThreadId thread).flatten) (.threadInfo thread)

/-! ### Fields -/

theorem field_read {text : Bytes} {value : String} (field : FieldText text value) (rest : Bytes) :
    mapRes (takeUntil 58) fromUtf8 (text ++ (58 :: rest)) = .done (58 :: rest) value := by
  simp only [mapRes, takeUntil_free field.free, andThen_done, field.valid]

theorem FieldText.eq_nil_iff {text : Bytes} {value : String} (field : FieldText text value) :
    text = [] ↔ value = "" := by
  have valid := field.valid
  unfold fromUtf8 String.fromUTF8? at valid
  split at valid
  next decodes =>
    cases valid
    rw [← String.toByteArray_inj]
    constructor
    · rintro rfl
      rfl
    · intro same
      exact congrArg (fun array : ByteArray => array.data.toList) same
  · cases valid

/-! ### Lists of numbers -/

theorem semicolon_text {text : Bytes} {value : UInt64} (number : Digits text value) :
    TextOf (preceded (literal ";") hexValue) NextEntry (ascii ";" ++ text) value where
  reads := by
    intro rest next
    simp only [preceded, bind_apply, List.append_assoc, literal_append, andThen_done,
      hexValue_digits number next.stops]
  starts := by
    rintro rest b ⟨⟩
    rfl

theorem semicolons_collect {texts : List Bytes} {values : List UInt64} (numbers : List.Forall₂ Digits texts values) :
    Collects (preceded (literal ";") hexValue) (texts.flatMap (ascii ";" ++ ·)) values [] := by
  have each : List.Forall₂ (TextOf (preceded (literal ";") hexValue) NextEntry)
      (texts.map (ascii ";" ++ ·)) values := by
    rw [List.forall₂_map_left_iff]
    exact numbers.imp fun _ _ number => semicolon_text number
  rw [List.flatMap_def]
  exact collects_at_end each (by rintro b ⟨⟩)

theorem joined_first {first : Bytes} {others : List Bytes} {value : UInt64} (number : Digits first value) :
    hexValue (joined (first :: others)) = .done (others.flatMap (ascii ";" ++ ·)) value := by
  refine hexValue_digits number ?_
  cases others with
  | nil => simp
  | cons second others =>
    rintro b ⟨⟩
    rfl

theorem semicolon_ends : Fails (literal ";" []) := Or.inr rfl

theorem passSignals_read {texts : List Bytes} {signals : List UInt64}
    (numbers : List.Forall₂ Digits texts signals) :
    separatedListComplete (literal ";") hexValue (joined texts) = .done [] signals := by
  cases numbers with
  | nil => rfl
  | cons number others =>
    exact separatedListComplete_of_collects consumes_semicolon consumes_hexValue (joined_first number)
      (semicolons_collect others) semicolon_ends

theorem programSignals_read {texts : List Bytes} {signals : List UInt64}
    (numbers : List.Forall₂ Digits texts signals) (nonempty : signals ≠ []) :
    separatedNonemptyListComplete (literal ";") hexValue (joined texts) = .done [] signals := by
  cases numbers with
  | nil => exact absurd rfl nonempty
  | cons number others =>
    exact separatedNonemptyListComplete_of_collects consumes_semicolon consumes_hexValue (joined_first number)
      (semicolons_collect others) semicolon_ends

theorem catchSyscalls_read {texts : List Bytes} {syscalls : List UInt64}
    (numbers : List.Forall₂ Digits texts syscalls) :
    many0 (preceded (literal ";") hexValue) (texts.flatMap (ascii ";" ++ ·)) = .done [] syscalls :=
  many0_of_collects (consumes_bind consumes_semicolon fun _ => consumes_hexValue.shrinks)
    (semicolons_collect numbers) (Or.inl rfl)

/-! ### Symbols -/

/-- The name has to be empty: where it should stand, the parser only accepts the end. -/
theorem qSymbol_text {value name : Bytes} {symValue symName : String} (valueText : FieldText value symValue)
    (nameText : FieldText name symName) :
    qSymbol (ascii "qSymbol:" ++ (value ++ (ascii ":" ++ name))) =
      if symName = "" then .done [] (symValue, symName) else .error := by
  have valueRead : mapRes (takeUntil 58) fromUtf8 (value ++ (ascii ":" ++ name)) =
      .done (ascii ":" ++ name) symValue := field_read valueText name
  simp only [qSymbol, preceded, bind_apply, literal_append, andThen_done, valueRead]
  split
  next empty =>
    have nil : name = [] := nameText.eq_nil_iff.mpr empty
    have valid := nameText.valid
    rw [nil] at valid
    simp only [mapRes, eof, nil, if_true, andThen_done, valid, pure_apply]
  next named =>
    have some : name ≠ [] := fun nil => named (nameText.eq_nil_iff.mp nil)
    simp only [mapRes, eof, some, if_false, andThen_error]

theorem qXfer_text {object annex start count : Bytes} {objectName annexName : String} {offset length : UInt64}
    (objectText : FieldText object objectName) (annexText : FieldText annex annexName)
    (offsetNumber : Digits start offset) (lengthNumber : Digits count length) :
    qXfer (ascii "qXfer:" ++ (object ++ (ascii ":read:" ++ (annex ++ (ascii ":" ++
      (start ++ (ascii "," ++ count))))))) = .done [] (objectName, annexName, offset, length) := by
  have objectRead : ∀ rest, mapRes (takeUntil 58) fromUtf8 (object ++ (ascii ":read:" ++ rest)) =
      .done (ascii ":read:" ++ rest) objectName := fun rest => field_read objectText (ascii "read:" ++ rest)
  have annexRead : ∀ rest, mapRes (takeUntil 58) fromUtf8 (annex ++ (ascii ":" ++ rest)) =
      .done (ascii ":" ++ rest) annexName := fun rest => field_read annexText rest
  have comma : ∀ b ∈ (ascii "," ++ count).head?, isHexDigit b = false :=
    stops_at_mark rfl _
  simp only [qXfer, preceded, bind_apply, literal_append, andThen_done, objectRead, annexRead,
    hexValue_digits offsetNumber comma, hexValue_at_end lengthNumber, pure_apply]

/-! ### Queries -/

/-- The query tells the name of a symbol. -/
def Query.NamesSymbol : Query → Prop
  | .symbol _ name => name ≠ ""
  | _ => False

/-- `query` reads a text back, with nothing left, unless it tells the name of a symbol. -/
theorem query_decodes_iff {text : Bytes} {q : Query} (written : QueryText text q) :
    query text = .done [] q ↔ ¬q.NamesSymbol := by
  cases written with
  | invoke written nonempty =>
    simp only [Query.NamesSymbol, not_false_eq_true, iff_true, query]
    -- the alternatives before it have other names
    iterate 2 rw [altComplete_cons_of_fails (Or.inl rfl)]
    apply altComplete_cons_of_done
    simp only [map_apply, preceded_literal_append, andThen_done, hexByteSequence_at_end written nonempty]
  | symbol valueText nameText =>
    simp only [Query.NamesSymbol, ne_eq, not_not, query]
    iterate 16 rw [altComplete_cons_of_fails (Or.inl rfl)]
    have read := qSymbol_text valueText nameText
    split at read
    next empty =>
      simp only [empty, iff_true]
      rw [empty] at read
      apply altComplete_cons_of_done
      simp only [map_apply, read, andThen_done]
    next named =>
      -- `qXfer` is no way out
      rw [altComplete_cons_of_fails (Or.inl (by rw [map_apply, read, andThen_error])),
        altComplete_cons_of_fails (Or.inl rfl)]
      simp only [altComplete_singleton, lldbQuery, reduceCtorEq, named]
  | readBytes objectText annexText offsetNumber lengthNumber =>
    simp only [Query.NamesSymbol, not_false_eq_true, iff_true, query]
    iterate 17 rw [altComplete_cons_of_fails (Or.inl rfl)]
    apply altComplete_cons_of_done
    simp only [map_apply, qXfer_text objectText annexText offsetNumber lengthNumber, andThen_done]
  | passSignals numbers =>
    simp only [Query.NamesSymbol, not_false_eq_true, iff_true, query]
    iterate 13 rw [altComplete_cons_of_fails (Or.inl rfl)]
    apply altComplete_cons_of_done
    simp only [map_apply, preceded_literal_append, andThen_done, passSignals_read numbers]
  | programSignals numbers nonempty =>
    simp only [Query.NamesSymbol, not_false_eq_true, iff_true, query]
    iterate 14 rw [altComplete_cons_of_fails (Or.inl rfl)]
    apply altComplete_cons_of_done
    simp only [map_apply, preceded_literal_append, andThen_done, programSignals_read numbers nonempty]
  | catchSyscalls numbers =>
    simp only [Query.NamesSymbol, not_false_eq_true, iff_true, query]
    iterate 12 rw [altComplete_cons_of_fails (Or.inl rfl)]
    apply altComplete_cons_of_done
    simp only [map_apply, preceded_literal_append, andThen_done, catchSyscalls_read numbers]
  | threadInfo proper =>
    have read := @parseThreadId_text _ proper [] (by simp)
    rw [List.append_nil] at read
    simp only [Query.NamesSymbol, not_false_eq_true, iff_true, query]
    iterate 15 rw [altComplete_cons_of_fails (Or.inl rfl)]
    apply altComplete_cons_of_done
    simp only [map_apply, preceded_literal_append, andThen_done, read]

/-- The list of system calls to catch. -/
theorem syscalls_decoded :
    query (ascii "QCatchSyscalls:1;1f;0A") = .done [] (.catchSyscalls (some [0x1f, 10])) := by
  have first : Digits (ascii "1f") 0x1f := digits_of_all (by decide) rfl rfl
  have second : Digits (ascii "0A") 10 := digits_of_all (by decide) rfl rfl
  exact (query_decodes_iff (.catchSyscalls (.cons first (.cons second .nil)))).mpr (by simp [Query.NamesSymbol])

/-- The name of a symbol, as a server gets it that has asked for the address of `main`. -/
theorem symbol_name_rejected :
    QueryText (ascii "qSymbol:10:6d61696e") (.symbol "10" "6d61696e") ∧
      query (ascii "qSymbol:10:6d61696e") ≠ .done [] (.symbol "10" "6d61696e") := by
  have value : FieldText (ascii "10") "10" := ⟨by decide, by decide⟩
  have name : FieldText (ascii "6d61696e") "6d61696e" := ⟨by decide, by decide⟩
  exact ⟨.symbol value name, by decide⟩

end GdbRemote
