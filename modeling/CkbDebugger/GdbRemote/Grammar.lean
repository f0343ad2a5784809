import CkbDebugger.Nom.CrashTable
import CkbDebugger.Nom.Grammar
import CkbDebugger.GdbRemote.Command

/-!
# The grammars of numbers, bytes, names, thread ids and actions

What the parsers of the arguments read from the front of an input and what they leave of it, and the inputs on
which they panic: `hexValue` does on a run of hexadecimal digits that denotes a number of more than 64 bits.
-/
namespace GdbRemote

open Nom

/-! ### Numbers -/

/-- The number that the input starts with does not fit in 64 bits. -/
def Oversized (input : Bytes) : Prop := 2 ^ 64 ≤ hexNumber (input.takeWhile isHexDigit)

/-- The input starts with a number, and `rest` follows it. -/
def Field (input rest : Bytes) : Prop :=
  input.takeWhile isHexDigit ≠ [] ∧ rest = input.dropWhile isHexDigit

/-- In a sequence of numbers with the given separators, one that is reached
does not fit in 64 bits. -/
def FieldOverflow : List String → Bytes → Prop
  | [], input => Oversized input
  | sep :: seps, input =>
    Oversized input ∨ ∃ rest, Field input (ascii sep ++ rest) ∧ FieldOverflow seps rest

theorem takeWhile_ne_nil_of_oversized {input : Bytes} (oversized : Oversized input) :
    input.takeWhile isHexDigit ≠ [] := by
  intro nil
  unfold Oversized at oversized
  rw [nil] at oversized
  revert oversized
  decide

theorem hexValue_panic_iff (input : Bytes) : hexValue input = .panic ↔ Oversized input := by
  cases input with
  | nil =>
    simp [hexValue, takeWhile1, Oversized, hexNumber]
  | cons b rest =>
    by_cases digit : isHexDigit b = true
    · simp only [hexValue, takeWhile1, digit, if_true, andThen_done, Oversized]
      split
      next fits => simp only [reduceCtorEq, false_iff]; omega
      next large => simp only [true_iff]; omega
    · simp [hexValue, takeWhile1, digit, Oversized, hexNumber]

theorem hexValue_done_iff (input rest : Bytes) :
    (∃ v, hexValue input = .done rest v) ↔ Field input rest ∧ ¬Oversized input := by
  cases input with
  | nil => simp [hexValue, takeWhile1, Field]
  | cons b tail =>
    by_cases digit : isHexDigit b = true
    · simp only [hexValue, takeWhile1, digit, if_true, andThen_done, Oversized, Field]
      split
      next fits =>
        simp only [IResult.done.injEq, exists_and_left, exists_eq', and_true]
        simp only [List.takeWhile_cons, digit, if_true] at fits ⊢
        constructor
        · intro same
          exact ⟨⟨by simp, same.symm⟩, by omega⟩
        · rintro ⟨⟨_, same⟩, _⟩
          exact same.symm
      next large =>
        simp only [reduceCtorEq, exists_false, false_iff, not_and, not_not]
        intro _
        omega
    · simp [hexValue, takeWhile1, digit, Field]

/-- A number of at most 64 bits. -/
def Number : Grammar := fun input rest => Field input rest ∧ ¬Oversized input

theorem parses_hexValue : Parses hexValue Number := hexValue_done_iff

/-- A number has the value of its digits. -/
theorem hexValue_denotes {input rest : Bytes} {v : UInt64} (read : hexValue input = .done rest v) :
    v.toNat = hexNumber (input.takeWhile isHexDigit) := by
  cases input with
  | nil => cases read
  | cons b input =>
    by_cases digit : isHexDigit b = true
    · simp only [hexValue, takeWhile1, digit, if_true, andThen_done] at read
      split at read
      next fits =>
        cases read
        exact UInt64.toNat_ofNat_of_lt' fits
      · cases read
    · simp [hexValue, takeWhile1, digit] at read

/-- The input does not start with a digit. -/
def NoDigit (input : Bytes) : Prop := input.takeWhile isHexDigit = []

theorem hexValue_fails_iff (input : Bytes) : Fails (hexValue input) ↔ NoDigit input := by
  rw [fails_iff, Ne, hexValue_panic_iff]
  constructor
  · rintro ⟨fits, unread⟩
    by_contra digits
    obtain ⟨v, done⟩ := (hexValue_done_iff input _).mpr ⟨⟨digits, rfl⟩, fits⟩
    exact unread _ v done
  · intro none
    refine ⟨fun oversized => takeWhile_ne_nil_of_oversized oversized none, ?_⟩
    intro rest v done
    exact ((hexValue_done_iff input rest).mp ⟨v, done⟩).1.1 none

theorem hexValue_incomplete_iff (input : Bytes) : hexValue input = .incomplete ↔ input = [] := by
  cases input with
  | nil => simp [hexValue, takeWhile1]
  | cons b rest =>
    simp only [hexValue, takeWhile1, reduceCtorEq, iff_false]
    split
    · simp only [andThen_done]
      split <;> simp
    · simp

theorem hexValue_error_iff (input : Bytes) : hexValue input = .error ↔ input ≠ [] ∧ NoDigit input := by
  rw [← hexValue_fails_iff, Ne, ← hexValue_incomplete_iff]
  cases hexValue input <;> simp [Fails]

theorem field_consumes {input rest : Bytes} (field : Field input rest) :
    rest.length < input.length := by
  obtain ⟨nonempty, rfl⟩ := field
  have whole := congrArg List.length (List.takeWhile_append_dropWhile (p := isHexDigit) (l := input))
  rw [List.length_append] at whole
  have positive := List.length_pos_iff.mpr nonempty
  omega

theorem consumes_hexValue : Consumes hexValue := by
  intro input rest v done
  exact field_consumes ((hexValue_done_iff input rest).mp ⟨v, done⟩).1

/-- A number panics itself, or it is read and what follows it panics. -/
theorem hexValue_bind_panic_iff {β : Type} (f : UInt64 → Parser β) (bad : Bytes → Prop)
    (tail : ∀ v rest, f v rest = .panic ↔ bad rest) (input : Bytes) :
    (hexValue >>= f) input = .panic ↔ Oversized input ∨ ∃ rest, Field input rest ∧ bad rest := by
  simp only [bind_apply, andThen_panic_iff, hexValue_panic_iff, tail]
  constructor
  · rintro (oversized | ⟨rest, v, done, isBad⟩)
    · exact Or.inl oversized
    · exact Or.inr ⟨rest, ((hexValue_done_iff input rest).mp ⟨v, done⟩).1, isBad⟩
  · rintro (oversized | ⟨rest, field, isBad⟩)
    · exact Or.inl oversized
    · by_cases oversized : Oversized input
      · exact Or.inl oversized
      · obtain ⟨v, done⟩ := (hexValue_done_iff input rest).mpr ⟨field, oversized⟩
        exact Or.inr ⟨rest, v, done, isBad⟩

theorem lastField_panic_iff {β : Type} (f : UInt64 → Parser β) (quiet : ∀ v, Quiet (f v))
    (input : Bytes) : (hexValue >>= f) input = .panic ↔ FieldOverflow [] input := by
  rw [hexValue_bind_panic_iff f (fun _ => False) (fun v rest => iff_false_intro (quiet v rest))]
  simp [FieldOverflow]

theorem nextField_panic_iff {β : Type} (sep : String) (seps : List String)
    (f : UInt64 → Bytes → Parser β)
    (tail : ∀ v t rest, f v t rest = .panic ↔ FieldOverflow seps rest) (input : Bytes) :
    (hexValue >>= fun v => literal sep >>= f v) input = .panic ↔
      FieldOverflow (sep :: seps) input := by
  rw [hexValue_bind_panic_iff _
    (fun rest => ∃ next, rest = ascii sep ++ next ∧ FieldOverflow seps next)]
  · constructor
    · rintro (oversized | ⟨_, field, next, rfl, later⟩)
      · exact Or.inl oversized
      · exact Or.inr ⟨next, field, later⟩
    · rintro (oversized | ⟨next, field, later⟩)
      · exact Or.inl oversized
      · exact Or.inr ⟨_, field, next, rfl, later⟩
  · intro v rest
    simp only [literal_bind_panic_iff, tail]

theorem fields2_panic_iff {β : Type} (sep : String) (f : UInt64 → UInt64 → Parser β)
    (quiet : ∀ v w, Quiet (f v w)) (input : Bytes) :
    (hexValue >>= fun v => literal sep >>= fun _ => hexValue >>= f v) input = .panic ↔
      FieldOverflow [sep] input := by
  apply nextField_panic_iff sep [] (fun v _ => hexValue >>= f v)
  intro v _ rest
  exact lastField_panic_iff (f v) (quiet v) rest

/-- No number follows the mark, or there is no mark. -/
def NoNumberAfter (mark : String) : Bytes → Prop := UnreadAfter mark NoDigit

theorem preceded_hexValue_fails_iff (mark : String) (input : Bytes) :
    Fails (preceded (literal mark) hexValue input) ↔ NoNumberAfter mark input :=
  preceded_fails_iff hexValue_fails_iff mark input

/-! ### Bytes -/

theorem hexDigits_contains (c : UInt8) : (ascii "0123456789abcdefABCDEF").contains c = isHexDigit c := by
  have all : ∀ n < 256, (ascii "0123456789abcdefABCDEF").contains (UInt8.ofNat n) =
      isHexDigit (UInt8.ofNat n) := by decide +kernel
  have this := all c.toNat c.toNat_lt
  rwa [UInt8.ofNat_toNat] at this

theorem hexDigit_of_digit {c : UInt8} (digit : isHexDigit c = true) (rest : Bytes) :
    hexDigit (c :: rest) = .done rest c := by
  simp only [hexDigit, oneOf, hexDigits_contains, digit, if_true]

theorem hexDigit_of_not_digit {c : UInt8} (other : isHexDigit c = false) (rest : Bytes) :
    hexDigit (c :: rest) = .error := by
  simp only [hexDigit, oneOf, hexDigits_contains, other, Bool.false_eq_true, if_false]

theorem quiet_hexByte : Quiet hexByte :=
  quiet_bind (quiet_oneOf _) fun _ => quiet_bind (quiet_oneOf _) fun _ => quiet_pure _

theorem quiet_hexByteSequence : Quiet hexByteSequence := quiet_many1 quiet_hexByte

theorem consumes_hexByte : Consumes hexByte := by
  have digit : Consumes hexDigit := by
    intro input rest c done
    cases input with
    | nil => cases done
    | cons b input =>
      simp only [hexDigit, oneOf] at done
      split at done
      · cases done
        simp
      · cases done
  exact consumes_bind digit fun _ => shrinks_bind digit.shrinks fun _ => shrinks_pure _

/-- Among the first two bytes there is one that is no digit. -/
def NoPair (input : Bytes) : Prop := ∃ b ∈ input.take 2, isHexDigit b = false

/-- Two digits. -/
def Pair : Grammar := fun input rest => ∃ d e, input = d :: e :: rest ∧ isHexDigit d = true ∧ isHexDigit e = true

/-- One or more bytes in hexadecimal, up to the end or to where a byte is no digit. -/
def HexRun : Grammar := Pair.some fun rest => rest = [] ∨ NoPair rest

theorem hexDigit_done_iff (input rest : Bytes) (d : UInt8) :
    hexDigit input = .done rest d ↔ input = d :: rest ∧ isHexDigit d = true := by
  cases input with
  | nil => simp [hexDigit, oneOf]
  | cons b input =>
    cases digit : isHexDigit b with
    | false =>
      simp only [hexDigit_of_not_digit digit, reduceCtorEq, List.cons.injEq, false_iff]
      rintro ⟨⟨rfl, _⟩, second⟩
      simp [digit] at second
    | true =>
      simp only [hexDigit_of_digit digit, IResult.done.injEq, List.cons.injEq]
      constructor
      · rintro ⟨rfl, rfl⟩
        exact ⟨⟨rfl, rfl⟩, digit⟩
      · rintro ⟨⟨rfl, rfl⟩, _⟩
        exact ⟨rfl, rfl⟩

theorem parses_hexByte : Parses hexByte Pair := by
  intro input rest
  simp only [hexByte, Pair, bind_apply, andThen_done_iff, hexDigit_done_iff, pure_apply, IResult.done.injEq]
  constructor
  · rintro ⟨_, _, d, ⟨rfl, first⟩, _, e, ⟨rfl, second⟩, rfl, _⟩
    exact ⟨d, e, rfl, first, second⟩
  · rintro ⟨d, e, rfl, first, second⟩
    exact ⟨_, _, d, ⟨rfl, first⟩, _, e, ⟨rfl, second⟩, rfl, rfl⟩

theorem hexByte_error_iff (input : Bytes) : hexByte input = .error ↔ NoPair input := by
  have end_ : hexDigit [] = .incomplete := rfl
  unfold NoPair
  match input with
  | [] => simp [hexByte, end_]
  | [d] =>
    cases digit : isHexDigit d with
    | false => simp [hexByte, hexDigit_of_not_digit digit, digit]
    | true => simp [hexByte, hexDigit_of_digit digit, digit, end_]
  | d :: e :: rest =>
    cases digit : isHexDigit d with
    | false => simp [hexByte, hexDigit_of_not_digit digit, digit]
    | true =>
      cases second : isHexDigit e with
      | false => simp [hexByte, hexDigit_of_digit digit, hexDigit_of_not_digit second, second]
      | true => simp [hexByte, hexDigit_of_digit digit, hexDigit_of_digit second, digit, second]

theorem parses_hexByteSequence : Parses hexByteSequence HexRun :=
  parses_hexByte.many1 consumes_hexByte fun rest => by rw [hexByte_error_iff]

/-! ### Names -/

theorem takeUntil_free {text : Bytes} (free : 58 ∉ text) (rest : Bytes) :
    takeUntil 58 (text ++ (58 :: rest)) = .done (58 :: rest) text := by
  have plain : ∀ b ∈ text, (b != 58) = true := by
    intro b member
    rw [bne_iff_ne]
    rintro rfl
    exact free member
  have nonempty : text ++ 58 :: rest ≠ [] := by simp
  have found : (text ++ 58 :: rest).contains 58 = true := by simp
  have before : (text ++ 58 :: rest).takeWhile (· != 58) = text := by
    rw [List.takeWhile_append_of_pos plain]
    simp
  have after : (text ++ 58 :: rest).dropWhile (· != 58) = 58 :: rest := by
    rw [List.dropWhile_append_of_pos plain]
    simp
  simp only [takeUntil, nonempty, found, before, after, if_false, if_true]

/-- A name in UTF-8 before a colon. -/
def Name : Grammar := fun input rest =>
  ∃ name, input = name ++ rest ∧ 58 ∉ name ∧ (fromUtf8 name).isSome ∧ ascii ":" <+: rest

theorem parses_name : Parses (mapRes (takeUntil 58) fromUtf8) Name := by
  intro input rest
  simp only [mapRes_done_iff]
  constructor
  · rintro ⟨value, name, taken, valid⟩
    by_cases colon : 58 ∈ input
    · obtain ⟨before, after, rfl, free⟩ := List.eq_append_cons_of_mem colon
      rw [takeUntil_free free] at taken
      cases taken
      exact ⟨name, rfl, free, by rw [valid]; rfl, ⟨after, rfl⟩⟩
    · simp only [takeUntil, List.contains_iff_mem, colon, if_false] at taken
      split at taken <;> cases taken
  · rintro ⟨name, rfl, free, valid, after, rfl⟩
    obtain ⟨value, valid⟩ := Option.isSome_iff_exists.mp valid
    exact ⟨value, name, takeUntil_free free after, valid⟩

/-! ### Thread ids -/

/-- A single id other than `0` does not fit in 64 bits. -/
def ThreadElementOverflow (input : Bytes) : Prop := ¬ascii "0" <+: input ∧ Oversized input

theorem parseThreadIdElement_panic_iff (input : Bytes) :
    parseThreadIdElement input = .panic ↔ ThreadElementOverflow input := by
  constructor
  · intro panicked
    refine ⟨?_, ?_⟩
    · rintro ⟨rest, rfl⟩
      simp [parseThreadIdElement, altComplete, literal_append] at panicked
    · obtain ⟨p, member, found⟩ := altComplete_panic_mem _ _ panicked
      simp only [List.mem_cons, List.not_mem_nil, or_false] at member
      rcases member with rfl | rfl | rfl
      · exact absurd found (quiet_map _ (quiet_literal _) input)
      · exact absurd found (quiet_map _ (quiet_literal _) input)
      · exact (hexValue_panic_iff input).mp ((map_panic_iff _ _ _).mp found)
  · rintro ⟨notZero, oversized⟩
    -- the number is the last alternative, and is tried when neither text is there
    have notAll : ¬ascii "-1" <+: input := by
      rintro ⟨rest, rfl⟩
      exact takeWhile_ne_nil_of_oversized oversized rfl
    apply altComplete_panic_of [_, _] []
    · intro q member
      simp only [List.mem_cons, List.not_mem_nil, or_false] at member
      rcases member with rfl | rfl
      · rcases literal_fails "0" input notZero with h | h <;> simp [Fails, h]
      · rcases literal_fails "-1" input notAll with h | h <;> simp [Fails, h]
    · exact (map_panic_iff _ _ _).mpr ((hexValue_panic_iff input).mpr oversized)

/-- A single id: zero, minus one, or a number that does not start with a zero. -/
def ThreadElement : Grammar :=
  (Grammar.text "0").orElse (fun input => ¬ascii "0" <+: input) ((Grammar.text "-1").or Number)

theorem parses_parseThreadIdElement : Parses parseThreadIdElement ThreadElement := by
  refine ((parses_literal "0").map _).orElse (map_fails_iff (literal_fails_iff "0") _) ?_
  refine ((parses_literal "-1").map _).or (parses_hexValue.map _).last ?_
  intro input rest number
  refine Fails.andThen (literal_fails "-1" input ?_) _
  rintro ⟨more, rfl⟩
  exact number.1.1 rfl

/-- A thread id, or one of the two ids of the `p` form, does not fit in 64 bits. -/
def ThreadOverflow (input : Bytes) : Prop :=
  ThreadElementOverflow input ∨ ∃ rest, input = ascii "p" ++ rest ∧
    (ThreadElementOverflow rest ∨ ∃ next, ThreadElement rest (ascii "." ++ next) ∧ ThreadElementOverflow next)

theorem threadPair_panic_iff (input : Bytes) :
    separatedPair parseThreadIdElement (literal ".") parseThreadIdElement input = .panic ↔
      ThreadElementOverflow input ∨
        ∃ next, ThreadElement input (ascii "." ++ next) ∧ ThreadElementOverflow next := by
  simp only [separatedPair, bind_apply, andThen_panic_iff, parseThreadIdElement_panic_iff, literal_ne_panic,
    literal_done_iff, pure_apply, reduceCtorEq, and_false, exists_false, or_false, false_or,
    ← parses_parseThreadIdElement _ _]
  refine or_congr_right ⟨?_, ?_⟩
  · rintro ⟨_, id, done, next, _, ⟨rfl, _⟩, bad⟩
    exact ⟨next, ⟨id, done⟩, bad⟩
  · rintro ⟨next, ⟨id, done⟩, bad⟩
    exact ⟨_, id, done, next, _, ⟨rfl, rfl⟩, bad⟩

theorem parseThreadId_panic_iff (input : Bytes) :
    parseThreadId input = .panic ↔ ThreadOverflow input := by
  constructor
  · intro panicked
    obtain ⟨p, member, found⟩ := altComplete_panic_mem _ _ panicked
    simp only [List.mem_cons, List.not_mem_nil, or_false] at member
    rcases member with rfl | rfl | rfl
    · exact Or.inl ((parseThreadIdElement_panic_iff input).mp ((map_panic_iff _ _ _).mp found))
    · rw [map_panic_iff, preceded_literal_panic_iff] at found
      obtain ⟨rest, rfl, bad⟩ := found
      exact Or.inr ⟨rest, rfl, (threadPair_panic_iff rest).mp bad⟩
    · rw [map_panic_iff, preceded_literal_panic_iff] at found
      obtain ⟨rest, rfl, bad⟩ := found
      exact Or.inr ⟨rest, rfl, Or.inl ((parseThreadIdElement_panic_iff rest).mp bad)⟩
  · rintro (bad | ⟨rest, rfl, bad⟩)
    · apply altComplete_panic_of [] [_, _]
      · simp
      · exact (map_panic_iff _ _ _).mpr ((parseThreadIdElement_panic_iff input).mpr bad)
    -- the letter is no digit, so the single id has failed without a panic
    · apply altComplete_panic_of [_] [_]
      · intro q member
        simp only [List.mem_cons, List.not_mem_nil, or_false] at member
        subst member
        left
        rfl
      · rw [map_panic_iff, preceded_literal_panic_iff]
        exact ⟨rest, rfl, (threadPair_panic_iff rest).mpr bad⟩

/-- Something else than a single id, and no number that is too large for one. -/
def NoThreadElement (input : Bytes) : Prop := ¬ThreadElementOverflow input ∧ ∀ rest, ¬ThreadElement input rest

/-- Two ids, or a single one that no point with a second one follows. -/
def ThreadPair : Grammar := (ThreadElement.followedBy "." ThreadElement).or fun input rest =>
  ThreadElement input rest ∧ UnreadAfter "." NoThreadElement rest

/-- A single id, or after the letter `p` one or two ids. -/
def Thread : Grammar := ThreadElement.or (ThreadPair.after "p")

theorem parseThreadIdElement_fails_iff (input : Bytes) : Fails (parseThreadIdElement input) ↔ NoThreadElement input :=
  parses_parseThreadIdElement.fails_iff parseThreadIdElement_panic_iff input

/-- After a first id there are no two ids exactly if no point with a second one follows. -/
theorem threadPair_fails_iff {ids rest : Bytes} {id : Id} (first : parseThreadIdElement ids = .done rest id) :
    Fails (separatedPair parseThreadIdElement (literal ".") parseThreadIdElement ids) ↔
      UnreadAfter "." NoThreadElement rest := by
  have next : separatedPair parseThreadIdElement (literal ".") parseThreadIdElement ids =
      (preceded (literal ".") parseThreadIdElement rest).andThen fun more second => .done more (id, second) := by
    simp only [separatedPair, preceded, bind_apply, first, andThen_done, andThen_assoc, pure_apply]
  rw [next, fails_andThen_done_iff]
  exact preceded_fails_iff parseThreadIdElement_fails_iff "." rest

theorem parses_threadPair (f : Id × Id → ThreadId) (g : Id → ThreadId) : Parses
    (altComplete [f <$> preceded (literal "p") (separatedPair parseThreadIdElement (literal ".") parseThreadIdElement),
      g <$> preceded (literal "p") parseThreadIdElement]) (ThreadPair.after "p") := by
  have pair := ((parses_parseThreadIdElement.separatedPair "." parses_parseThreadIdElement).preceded "p").map f
  have single := ((parses_parseThreadIdElement.preceded "p").map g).last
  -- what comes after the first id decides between the two alternatives
  have alone {ids rest : Bytes} (read : ThreadElement ids rest) :
      Fails ((f <$> preceded (literal "p") (separatedPair parseThreadIdElement (literal ".") parseThreadIdElement))
        (ascii "p" ++ ids)) ↔ UnreadAfter "." NoThreadElement rest := by
    obtain ⟨id, first⟩ := (parses_parseThreadIdElement ids rest).mpr read
    rw [map_apply, fails_andThen_done_iff, preceded_literal_append, threadPair_fails_iff first]
  intro input rest
  refine (pair.orElse (fun _ => Iff.rfl) single input rest).trans ?_
  constructor
  · rintro (⟨ids, rfl, read⟩ | ⟨failed, ids, rfl, read⟩)
    · exact ⟨ids, rfl, Or.inl read⟩
    · exact ⟨ids, rfl, Or.inr ⟨read, (alone read).mp failed⟩⟩
  · rintro ⟨ids, rfl, read | ⟨read, none⟩⟩
    · exact Or.inl ⟨ids, rfl, read⟩
    · exact Or.inr ⟨(alone read).mpr none, ids, rfl, read⟩

/-- The letter `p` is no single id. -/
theorem parses_parseThreadId : Parses parseThreadId Thread := by
  refine (parses_parseThreadIdElement.map _).or (parses_threadPair _ _) ?_
  exact .after (fun _ => Or.inl rfl) _

/-- Something else than a thread id, and no number that is too large for one. -/
def NoThread (input : Bytes) : Prop := ¬ThreadOverflow input ∧ ∀ rest, ¬Thread input rest

theorem parseThreadId_fails_iff (input : Bytes) : Fails (parseThreadId input) ↔ NoThread input :=
  parses_parseThreadId.fails_iff parseThreadId_panic_iff input

/-! ### Actions -/

/-- What a thread is to do. -/
def Action : Grammar :=
  (Grammar.text "c").or <| (Pair.after "C").or <| (Grammar.text "s").or <| (Pair.after "S").or <|
    (Grammar.text "t").or ((Number.followedBy "," Number).after "r")

theorem parses_vContAction : Parses vContAction Action := by
  have range : Parses
      (do
        let _ ← literal "r"
        let start ← hexValue
        let _ ← literal ","
        let stop ← hexValue
        return VCont.rangeStep start stop)
      ((Number.followedBy "," Number).after "r") := by
    refine Parses.preceded (parses_hexValue.followedBy "," fun start _ => ?_) "r"
    exact parses_hexValue.bind_pure fun stop => VCont.rangeStep start stop
  refine ((parses_literal "c").map _).or (((parses_hexByte.preceded "C").map _).or (((parses_literal "s").map _).or
    (((parses_hexByte.preceded "S").map _).or (((parses_literal "t").map _).or range.last ?_) ?_) ?_) ?_) ?_
  all_goals
    repeat' first | exact .text fun _ => Or.inl rfl | exact .after (fun _ => Or.inl rfl) _ | apply FailsOn.or

/-- An action after a semicolon, and after a colon the thread that it is for. -/
def Entry : Grammar := (Action.seq ((Thread.after ":").optional (UnreadAfter ":" NoThread))).after ";"

theorem parses_vContEntry : Parses vContEntry Entry := by
  have thread := (parses_parseThreadId.preceded ":").optComplete (preceded_fails_iff parseThreadId_fails_iff ":")
  refine Parses.preceded (parses_vContAction.bind fun action => ?_) ";"
  exact thread.bind_pure fun thread => (action, thread)

theorem vContAction_panicsOn : PanicsOn vContAction [("r", FieldOverflow [","])] := by
  refine PanicsOn.altComplete
    (.cons (quiet_map _ (quiet_literal "c")).panicsOn <|
    .cons (quiet_map _ (quiet_preceded (quiet_literal "C") quiet_hexByte)).panicsOn <|
    .cons (quiet_map _ (quiet_literal "s")).panicsOn <|
    .cons (quiet_map _ (quiet_preceded (quiet_literal "S") quiet_hexByte)).panicsOn <|
    .cons (quiet_map _ (quiet_literal "t")).panicsOn <|
    .cons (.literal_bind "r" fun _ => fields2_panic_iff "," _ fun _ _ => quiet_pure _) .nil) ?_
  repeat' first | exact .nil | exact .nil _ | apply Apart.cons | apply ErrorsOn.cons fun _ => rfl

/-- The bounds of a range step, or the thread after an action, do not fit in 64 bits. -/
def EntryOverflow (input : Bytes) : Prop :=
  ∃ rest, input = ascii ";" ++ rest ∧
    ((∃ range, rest = ascii "r" ++ range ∧ FieldOverflow [","] range) ∨
      ∃ thread, Action rest (ascii ":" ++ thread) ∧ ThreadOverflow thread)

theorem vContEntry_panic_iff (input : Bytes) :
    vContEntry input = .panic ↔ EntryOverflow input := by
  rw [vContEntry, literal_bind_panic_iff]
  simp only [bind_apply, andThen_panic_iff, vContAction_panicsOn _, listed_singleton, opt_panic_iff,
    complete_panic_iff, preceded_literal_panic_iff, parseThreadId_panic_iff, pure_apply,
    reduceCtorEq, and_false, exists_false, or_false, EntryOverflow, ← parses_vContAction _ _]
  constructor
  · rintro ⟨rest, rfl, range | ⟨_, action, done, thread, rfl, bad⟩⟩
    · exact ⟨rest, rfl, Or.inl range⟩
    · exact ⟨rest, rfl, Or.inr ⟨thread, ⟨action, done⟩, bad⟩⟩
  · rintro ⟨rest, rfl, range | ⟨thread, ⟨action, done⟩, bad⟩⟩
    · exact ⟨rest, rfl, Or.inl range⟩
    · exact ⟨rest, rfl, Or.inr ⟨_, action, done, thread, rfl, bad⟩⟩

theorem shrinks_hexByte : Shrinks hexByte :=
  consumes_hexByte.shrinks

theorem shrinks_parseThreadIdElement : Shrinks parseThreadIdElement := by
  apply shrinks_altComplete
  intro p member
  simp only [List.mem_cons, List.not_mem_nil, or_false] at member
  rcases member with rfl | rfl | rfl
  · exact shrinks_map _ (shrinks_literal _)
  · exact shrinks_map _ (shrinks_literal _)
  · exact shrinks_map _ consumes_hexValue.shrinks

theorem shrinks_parseThreadId : Shrinks parseThreadId := by
  apply shrinks_altComplete
  intro p member
  simp only [List.mem_cons, List.not_mem_nil, or_false] at member
  rcases member with rfl | rfl | rfl
  · exact shrinks_map _ shrinks_parseThreadIdElement
  · exact shrinks_map _ (shrinks_preceded (shrinks_literal _) (shrinks_separatedPair
      shrinks_parseThreadIdElement (shrinks_literal _) shrinks_parseThreadIdElement))
  · exact shrinks_map _ (shrinks_preceded (shrinks_literal _) shrinks_parseThreadIdElement)

theorem shrinks_vContAction : Shrinks vContAction := by
  apply shrinks_altComplete
  intro p member
  simp only [List.mem_cons, List.not_mem_nil, or_false] at member
  rcases member with rfl | rfl | rfl | rfl | rfl | rfl
  · exact shrinks_map _ (shrinks_literal _)
  · exact shrinks_map _ (shrinks_preceded (shrinks_literal _) shrinks_hexByte)
  · exact shrinks_map _ (shrinks_literal _)
  · exact shrinks_map _ (shrinks_preceded (shrinks_literal _) shrinks_hexByte)
  · exact shrinks_map _ (shrinks_literal _)
  · exact shrinks_bind (shrinks_literal _) fun _ => shrinks_bind consumes_hexValue.shrinks fun _ =>
      shrinks_bind (shrinks_literal _) fun _ => shrinks_bind consumes_hexValue.shrinks fun _ =>
        shrinks_pure _

theorem consumes_semicolon : Consumes (literal ";") := consumes_literal ";" (by decide)

theorem consumes_vContEntry : Consumes vContEntry :=
  consumes_bind consumes_semicolon fun _ => shrinks_bind shrinks_vContAction fun _ =>
    shrinks_bind (shrinks_opt (shrinks_complete (shrinks_preceded (shrinks_literal _)
      shrinks_parseThreadId))) fun _ => shrinks_pure _

/-- The input ends in the bounds of a range step. -/
def CutRange (input : Bytes) : Prop := input = [] ∨ ∃ rest, Number input rest ∧ (rest = [] ∨ rest = ascii ",")

/-- The input ends in an action, after its semicolon. -/
def CutEntry (input : Bytes) : Prop :=
  ∃ rest, input = ascii ";" ++ rest ∧ (rest = [] ∨ ∃ range, rest = ascii "r" ++ range ∧ CutRange range)

/-- Only the last alternative, the range step, can be incomplete. -/
theorem vContAction_incomplete_iff (input : Bytes) : vContAction input = .incomplete ↔
    input = [] ∨ ∃ range, input = ascii "r" ++ range ∧ CutRange range := by
  refine (altComplete_incomplete_iff [_, _, _, _, _] _ input).trans ?_
  simp only [bind_apply, andThen_incomplete_iff, @literal_byte_incomplete_iff "r" 114 rfl,
    @literal_byte_incomplete_iff "," 44 rfl, hexValue_incomplete_iff, literal_done_iff, pure_apply, reduceCtorEq,
    and_false, exists_false, or_false, CutRange, ← parses_hexValue _ _, List.forall_mem_cons]
  constructor
  · rintro ⟨_, rfl | ⟨range, _, ⟨rfl, _⟩, rfl | ⟨rest, start, read, rfl | ⟨_, _, ⟨rfl, _⟩, rfl⟩⟩⟩⟩
    · exact Or.inl rfl
    · exact Or.inr ⟨[], rfl, Or.inl rfl⟩
    · exact Or.inr ⟨range, rfl, Or.inr ⟨[], ⟨start, read⟩, Or.inl rfl⟩⟩
    · exact Or.inr ⟨range, rfl, Or.inr ⟨_, ⟨start, read⟩, Or.inr rfl⟩⟩
  · rintro (rfl | ⟨range, rfl, short⟩)
    · exact ⟨⟨Or.inr rfl, Or.inr rfl, Or.inr rfl, Or.inr rfl, Or.inr rfl, by simp⟩, Or.inl rfl⟩
    -- after the letter of a range step no other action is read
    · refine ⟨⟨Or.inl rfl, Or.inl rfl, Or.inl rfl, Or.inl rfl, Or.inl rfl, by simp⟩,
        Or.inr ⟨range, _, ⟨rfl, rfl⟩, ?_⟩⟩
      rcases short with nil | ⟨rest, ⟨start, read⟩, rfl | rfl⟩
      · exact Or.inl nil
      · exact Or.inr ⟨[], start, read, Or.inl rfl⟩
      · exact Or.inr ⟨_, start, read, Or.inr ⟨[], _, ⟨rfl, rfl⟩, rfl⟩⟩

theorem vContEntry_incomplete_iff (input : Bytes) : vContEntry input = .incomplete ↔ input = [] ∨ CutEntry input := by
  simp only [vContEntry, bind_apply, andThen_incomplete_iff, @literal_byte_incomplete_iff ";" 59 rfl,
    vContAction_incomplete_iff, opt_incomplete_iff, complete_ne_incomplete, literal_done_iff, pure_apply, reduceCtorEq,
    and_false, exists_false, or_false, CutEntry]
  constructor
  · rintro (rfl | ⟨rest, _, ⟨rfl, _⟩, cut⟩)
    · exact Or.inl rfl
    · exact Or.inr ⟨rest, rfl, cut⟩
  · rintro (rfl | ⟨rest, rfl, cut⟩)
    · exact Or.inl rfl
    · exact Or.inr ⟨rest, _, ⟨rfl, rfl⟩, cut⟩

/-- Something else than an action, neither cut off nor with a number in it that does not fit. -/
def NoEntry (input : Bytes) : Prop := ¬EntryOverflow input ∧ ¬CutEntry input ∧ ∀ rest, ¬Entry input rest

theorem vContEntry_ends_iff (input : Bytes) : input = [] ∨ vContEntry input = .error ↔ NoEntry input := by
  have cut := vContEntry_incomplete_iff input
  have fails := parses_vContEntry.fails_iff vContEntry_panic_iff input
  have start : ¬CutEntry [] := by
    rintro ⟨rest, same, _⟩
    cases same
  rw [NoEntry, and_left_comm, ← fails]
  -- `many0` ends at the empty input before it calls its element, which would be incomplete there
  constructor
  · rintro (rfl | rejected)
    · exact ⟨start, Or.inr (cut.mpr (Or.inl rfl))⟩
    · refine ⟨fun short => ?_, Or.inl rejected⟩
      rw [cut.mpr (Or.inr short)] at rejected
      cases rejected
  · rintro ⟨whole, rejected | short⟩
    · exact Or.inr rejected
    · exact Or.inl ((cut.mp short).resolve_right whole)

/-- The actions of a `vCont` packet, up to where no further one follows. -/
def ActionList : Grammar := Entry.many NoEntry

theorem parses_actions : Parses (many0 vContEntry) ActionList :=
  parses_vContEntry.many0 consumes_vContEntry vContEntry_ends_iff

/-- One of the actions of a `vCont` packet holds a number that does not fit in 64 bits. -/
def VContOverflow (input : Bytes) : Prop := ∃ rest, Relation.ReflTransGen Entry input rest ∧ EntryOverflow rest

theorem vContEntries_panic_iff (input : Bytes) :
    many0 vContEntry input = .panic ↔ VContOverflow input := by
  rw [many0_panic_iff vContEntry consumes_vContEntry (by decide)]
  simp only [vContEntry_panic_iff, parses_vContEntry.reads_iff, VContOverflow]

end GdbRemote
