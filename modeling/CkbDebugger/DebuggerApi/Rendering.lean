import CkbDebugger.DebuggerApi.Template
import Mathlib.Data.List.Chain

/-!
# The passes render templates

A pass fills the placeholders of its kind and leaves the others for later passes. What it puts in their
place begins no placeholder, so the passes together do what one reading of the template does.
-/
namespace DebuggerApi

open Regex (Cut Found Piece texts through shortest)

/-! ### Templates between the passes -/

/-- A place of a template: its placeholder, or the text that a pass has put there. -/
inductive Slot where
  | place (p : Placeholder)
  | filled (text : List Char)

namespace Slot

def text : Slot → List Char
  | .place p => p.source
  | .filled text => text

/-- The name of a placeholder of a kind. -/
def named (kind : Kind) : Slot → Option (List Char)
  | .place p => if p.kind = kind then some p.name else none
  | .filled _ => none

def piece (kind : Kind) (slot : Slot) : Piece Char :=
  match slot.named kind with
  | some name => .hit slot.text name
  | none => .plain slot.text

def fill (kind : Kind) (value : List Char → List Char) (slot : Slot) : Slot :=
  match slot.named kind with
  | some name => .filled (value name)
  | none => slot

def Plain : Slot → Prop
  | .place _ => True
  | .filled text => DebuggerApi.Plain text

end Slot

/-- Places with the texts after them. -/
abbrev Slots : Type := List (Slot × List Char)

namespace Slots

def text (slots : Slots) : List Char := slots.flatMap fun (slot, l) => slot.text ++ l

def names (kind : Kind) (slots : Slots) : List (List Char) := slots.filterMap (·.1.named kind)

def fill (kind : Kind) (value : List Char → List Char) (slots : Slots) : Slots :=
  slots.map fun (slot, l) => (slot.fill kind value, l)

/-- No placeholder begins but in a place that is not filled. -/
def Plain (slots : Slots) : Prop := ∀ place ∈ slots, place.1.Plain ∧ DebuggerApi.Plain place.2

def pieces (kind : Kind) (slots : Slots) : List (Piece Char) :=
  slots.flatMap fun (slot, l) => [slot.piece kind, .plain l]

end Slots

theorem Slot.text_piece (kind : Kind) (slot : Slot) : (slot.piece kind).text = slot.text := by
  unfold Slot.piece
  split <;> rfl

theorem Slot.name_piece (kind : Kind) (slot : Slot) : (slot.piece kind).name = slot.named kind := by
  unfold Slot.piece
  split
  next name named => exact named.symm
  next unnamed => exact unnamed.symm

theorem Slot.replaced_piece (kind : Kind) (value : List Char → List Char) (slot : Slot) :
    (slot.piece kind).replaced value = (slot.fill kind value).text := by
  unfold Slot.piece Slot.fill
  cases slot.named kind <;> rfl

theorem Slots.pieces_cons (kind : Kind) (place : Slot × List Char) (slots : Slots) :
    Slots.pieces kind (place :: slots) = place.1.piece kind :: .plain place.2 :: slots.pieces kind := rfl

theorem texts_cons (piece : Piece Char) (pieces : List (Piece Char)) :
    texts (piece :: pieces) = piece.text ++ texts pieces := rfl

theorem Slots.text_pieces (kind : Kind) (slots : Slots) : texts (slots.pieces kind) = slots.text := by
  induction slots with
  | nil => rfl
  | cons place slots ih =>
    rw [Slots.pieces_cons, texts_cons, texts_cons, ih, Slot.text_piece, ← List.append_assoc]
    rfl

theorem Slots.name_pieces (kind : Kind) (slots : Slots) :
    (slots.pieces kind).filterMap Piece.name = slots.names kind := by
  induction slots with
  | nil => rfl
  | cons place slots ih =>
    rw [Slots.pieces_cons, List.filterMap_cons, List.filterMap_cons, ih, Slots.names, Slots.names, List.filterMap_cons,
      Slot.name_piece]
    rfl

theorem Slots.replaced_pieces (kind : Kind) (value : List Char → List Char) (slots : Slots) :
    (slots.pieces kind).flatMap (Piece.replaced value) = (slots.fill kind value).text := by
  induction slots with
  | nil => rfl
  | cons place slots ih =>
    rw [Slots.pieces_cons, List.flatMap_cons, List.flatMap_cons, ih, Slot.replaced_piece, ← List.append_assoc]
    rfl

theorem Slot.eq_place_of_named {kind : Kind} {slot : Slot} {name : List Char} (named : slot.named kind = some name) :
    ∃ p, slot = .place p ∧ p.kind = kind ∧ p.name = name := by
  cases slot with
  | place p =>
    change (if p.kind = kind then some p.name else none) = some name at named
    by_cases same : p.kind = kind
    · rw [if_pos same] at named
      exact ⟨p, rfl, same, Option.some.inj named⟩
    · rw [if_neg same] at named
      cases named
  | filled text => cases named

theorem Slot.named_fill (kind other : Kind) (value : List Char → List Char) (slot : Slot) (different : other ≠ kind) :
    (slot.fill kind value).named other = slot.named other := by
  unfold Slot.fill
  split
  next name named =>
    obtain ⟨p, rfl, rfl, rfl⟩ := Slot.eq_place_of_named named
    exact (if_neg different.symm).symm
  next => rfl

theorem Slots.names_fill (kind other : Kind) (value : List Char → List Char) (slots : Slots)
    (different : other ≠ kind) : (slots.fill kind value).names other = slots.names other := by
  rw [Slots.names, Slots.fill, List.filterMap_map]
  exact List.filterMap_congr fun place _ => Slot.named_fill kind other value place.1 different

theorem Slot.Plain.fill {kind : Kind} {value : List Char → List Char} {slot : Slot} (plain : slot.Plain)
    (values : ∀ name, DebuggerApi.Plain (value name)) : (slot.fill kind value).Plain := by
  unfold Slot.fill
  split
  next name _ => exact values name
  next => exact plain

/-! ### A pass over placeholders of one kind -/

theorem source_ne_nil (p : Placeholder) : p.source ≠ [] := by simp [Placeholder.source, opening]

/-- The pieces of a text for the pass of a kind. -/
theorem cut_slots (kind : Kind) (slots : Slots) (plain : slots.Plain) :
    Cut (placeholder kind.key).find (slots.pieces kind) := by
  induction slots with
  | nil => exact .nil
  | cons place slots ih =>
    obtain ⟨slot, l⟩ := place
    obtain ⟨slotPlain, textPlain⟩ := plain (slot, l) List.mem_cons_self
    have rest : Cut (placeholder kind.key).find (.plain l :: Slots.pieces kind slots) :=
      .plain (ih fun place member => plain place (List.mem_cons_of_mem _ member)) fun _ _ _ split =>
        front_none _ (not_opens_plain textPlain split)
    rw [Slots.pieces_cons]
    cases slot with
    | filled text => exact .plain rest fun _ _ _ split => front_none _ (not_opens_plain slotPlain split)
    | place p =>
      by_cases same : p.kind = kind
      · rw [Slot.piece, Slot.named, if_pos same]
        refine .hit rest (source_ne_nil p) ?_
        have found := @core_found p [] (texts (.plain l :: Slots.pieces kind slots)) 0 rfl
        rw [List.append_nil, same] at found
        exact found
      · rw [Slot.piece, Slot.named, if_neg same]
        exact .plain rest fun _ _ _ split => front_none _ (not_opens_source p split fun _ => same)

theorem replace_slots {kind : Kind} {replacer : List Char → Option (List Char)} {value : List Char → List Char}
    (agree : ∀ name new, replacer name = some new → new = value name) {start : List Char} {slots : Slots}
    (startPlain : Plain start) (plain : slots.Plain) (out : List Char) :
    Regex.replaceAll (placeholder kind.key).find replacer (start ++ slots.text) = some out ↔
      (∀ name ∈ slots.names kind, (replacer name).isSome) ∧ out = start ++ (slots.fill kind value).text := by
  have cut : Cut (placeholder kind.key).find (.plain start :: slots.pieces kind) :=
    .plain (cut_slots kind slots plain) fun _ _ _ split => front_none _ (not_opens_plain startPlain split)
  have replaced := Regex.replaceAll_cut _ replacer agree cut out
  rw [List.filterMap_cons, List.flatMap_cons, Slots.replaced_pieces, texts_cons, Slots.text_pieces] at replaced
  simp only [Piece.name, Slots.name_pieces] at replaced
  exact replaced

theorem names_slots (kind : Kind) {start : List Char} {slots : Slots} (startPlain : Plain start)
    (plain : slots.Plain) :
    Regex.names (placeholder kind.key).find (start ++ slots.text) = slots.names kind := by
  have cut : Cut (placeholder kind.key).find (.plain start :: slots.pieces kind) :=
    .plain (cut_slots kind slots plain) fun _ _ _ split => front_none _ (not_opens_plain startPlain split)
  have found := Regex.names_cut _ cut
  rw [List.filterMap_cons, texts_cons, Slots.text_pieces] at found
  simp only [Piece.name, Slots.name_pieces] at found
  exact found

/-! ### Quotes -/

def quote (present : Bool) : List Char := if present then ['"'] else []

def endsQuoted (text : List Char) : Bool := text.getLast? = some '"'

def startsQuoted (text : List Char) : Bool := text.head? = some '"'

theorem beforeQuote_append (text : List Char) : beforeQuote text ++ quote (endsQuoted text) = text := by
  by_cases quoted : text.getLast? = some '"'
  · obtain ⟨rest, rfl⟩ := List.getLast?_eq_some_iff.mp quoted
    simp [beforeQuote, quote, endsQuoted]
  · simp [beforeQuote, quote, endsQuoted, quoted]

theorem quote_append_afterQuote (text : List Char) : quote (startsQuoted text) ++ afterQuote text = text := by
  by_cases quoted : text.head? = some '"'
  · obtain ⟨rest, rfl⟩ := List.head?_eq_some_iff.mp quoted
    simp [afterQuote, quote, startsQuoted]
  · simp [afterQuote, quote, startsQuoted, quoted]

/-- A text that is plain with the quotes that new type ids may take from it, and without them. -/
structure Soft (text : List Char) : Prop where
  plain : Plain text
  unquoted : Plain (beforeQuote text)

theorem Soft.afterQuote {text : List Char} (soft : Soft text) : Soft (afterQuote text) :=
  ⟨soft.plain.afterQuote, plain_beforeQuote_afterQuote soft.unquoted⟩

theorem quoted_none {key text : List Char} (here : ¬Opens key text)
    (later : ∀ rest, text = '"' :: rest → ¬Opens key rest) : (quotedPlaceholder key).find text = none :=
  Regex.through_optional_none (fun rest split => front_none _ (later rest split)) (front_none _ here)

/-- A text in which no placeholder begins, nor after a quote at its end. -/
theorem quoted_missing {key text rest : List Char}
    (shut : ∀ before later c, text = before ++ c :: later → ¬Opens key (c :: later ++ rest))
    (last : text.getLast? = some '"' → ¬Opens key rest) (before later : List Char) (c : Char)
    (split : text = before ++ c :: later) : (quotedPlaceholder key).find (c :: later ++ rest) = none := by
  apply quoted_none (shut before later c split)
  intro others same
  obtain ⟨rfl, rfl⟩ := List.cons.inj same
  cases later with
  | nil => exact last (by rw [split, List.getLast?_append]; rfl)
  | cons d later => exact shut (before ++ ['"']) later d (by rw [split, List.append_assoc]; rfl)

theorem quoted_found (p : Placeholder) (before after : Bool) (rest : List Char)
    (bare : after = false → rest.head? ≠ some '"') :
    (quotedPlaceholder p.kind.key).find (quote before ++ (p.source ++ (quote after ++ rest))) =
      some ⟨p.name, (quote before ++ (p.source ++ quote after)).length⟩ := by
  have closes : through [.optional '"'] atEnd (quote after ++ rest) = some ⟨[], (quote after).length⟩ := by
    cases after with
    | true =>
      have nothing : through [] atEnd rest = some ⟨[], 0⟩ := rfl
      exact Regex.through_optional_some nothing
    | false => exact Regex.through_optional_absent _ _ (bare rfl)
  have core := core_found p closes
  cases before with
  | true =>
    refine (Regex.through_optional_some core).trans ?_
    simp only [Found.after, quote, if_true, List.length_append, List.length_cons, List.length_nil]
  | false =>
    refine (Regex.through_optional_absent _ _ (by simp [quote, Placeholder.source, opening])).trans (core.trans ?_)
    simp only [quote, Bool.false_eq_true, if_false, List.nil_append, List.length_append]

/-! ### The pass over new type ids -/

namespace Slots

/-- A new type id and another place have text between them. -/
def Apart (slots : Slots) : Prop :=
  slots.IsChain fun a b => (a.1.named .defType).isSome ∨ (b.1.named .defType).isSome → a.2 ≠ []

/-- The text after some start, cut for `replace_def_type`: a new type id takes the quotes around it. -/
def defPieces : List Char → Slots → List (Piece Char)
  | start, [] => [.plain start]
  | start, (slot, l) :: slots =>
    match slot.named .defType with
    | some name =>
      .plain (beforeQuote start) ::
        .hit (quote (endsQuoted start) ++ (slot.text ++ quote (startsQuoted l))) name :: defPieces (afterQuote l) slots
    | none => .plain start :: .plain slot.text :: defPieces l slots

/-- What the pass makes of the start and the places. -/
def define (value : List Char → List Char) : List Char → Slots → List Char × Slots
  | start, [] => (start, [])
  | start, (slot, l) :: slots =>
    match slot.named .defType with
    | some name =>
      let rest := define value (afterQuote l) slots
      (beforeQuote start, (.filled (value name), rest.1) :: rest.2)
    | none =>
      let rest := define value l slots
      (start, (slot, rest.1) :: rest.2)

theorem text_cons (slot : Slot) (l : List Char) (slots : Slots) :
    Slots.text ((slot, l) :: slots) = slot.text ++ (l ++ slots.text) := by
  rw [← List.append_assoc]
  rfl

theorem text_defPieces (start : List Char) (slots : Slots) : texts (defPieces start slots) = start ++ slots.text := by
  fun_induction defPieces start slots with
  | case1 start => rfl
  | case2 start slot l slots name _ ih =>
    have l' := quote_append_afterQuote l
    have start' := beforeQuote_append start
    rw [texts_cons, texts_cons, ih, text_cons]
    calc beforeQuote start ++
          (quote (endsQuoted start) ++ (slot.text ++ quote (startsQuoted l)) ++ (afterQuote l ++ Slots.text slots))
        = (beforeQuote start ++ quote (endsQuoted start)) ++
          (slot.text ++ ((quote (startsQuoted l) ++ afterQuote l) ++ Slots.text slots)) := by
            simp only [List.append_assoc]
      _ = start ++ (slot.text ++ (l ++ Slots.text slots)) := by rw [start', l']
  | case3 start slot l slots _ ih =>
    rw [texts_cons, texts_cons, ih, text_cons]
    rfl

theorem replaced_defPieces (value : List Char → List Char) (start : List Char) (slots : Slots) :
    (defPieces start slots).flatMap (Piece.replaced value) =
      (define value start slots).1 ++ Slots.text (define value start slots).2 := by
  fun_induction defPieces start slots with
  | case1 start => rfl
  | case2 start slot l slots name named ih =>
    rw [List.flatMap_cons, List.flatMap_cons, ih, define, named, text_cons]
    rfl
  | case3 start slot l slots named ih =>
    rw [List.flatMap_cons, List.flatMap_cons, ih, define, named, text_cons]
    rfl

end Slots

theorem not_opens_nil (key : List Char) : ¬Opens key [] := fun opens => by simpa [opening] using opens.opening

theorem head_unnamed {place : Slot × List Char} {slots : Slots} (apart : Slots.Apart (place :: slots))
    (empty : place.2 = []) : ∀ next ∈ slots.head?, next.1.named .defType = none := by
  intro next member
  obtain ⟨rest, rfl⟩ := List.head?_eq_some_iff.mp member
  by_contra named
  exact (List.isChain_cons_cons.mp apart).1 (.inr (Option.isSome_iff_ne_none.mpr named)) empty

/-- Where the next place is not a new type id, none begins. -/
theorem not_opens_slots {slots : Slots} (plain : slots.Plain) (apart : slots.Apart)
    (other : ∀ place ∈ slots.head?, place.1.named .defType = none) : ¬Opens defTypeKey slots.text := by
  induction slots with
  | nil => exact not_opens_nil defTypeKey
  | cons place slots ih =>
    obtain ⟨slot, l⟩ := place
    obtain ⟨slotPlain, textPlain⟩ := plain (slot, l) List.mem_cons_self
    have unnamed : slot.named .defType = none := other (slot, l) rfl
    rw [Slots.text_cons]
    cases slot with
    | place p =>
      refine @not_opens_source p .defType [] ('\x7b' :: p.inner) _ '\x7b' rfl fun _ same => ?_
      rw [Slot.named, if_pos same] at unnamed
      cases unnamed
    | filled text =>
      by_cases blank : text = [] ∧ l = []
      · obtain ⟨rfl, rfl⟩ := blank
        -- nothing stands here, so the place after it is no new type id either
        exact ih (fun place member => plain place (List.mem_cons_of_mem _ member)) (List.IsChain.of_cons apart)
          (head_unnamed apart rfl)
      · by_cases empty : text = []
        · rw [empty, Slot.text, List.nil_append]
          exact fun opens => textPlain.not_opening (fun none => blank ⟨empty, none⟩) opens.opening
        · exact fun opens => slotPlain.not_opening empty opens.opening

/-- Nor after a text that is plain. -/
theorem not_opens_after {place : Slot × List Char} {slots : Slots} (textPlain : Plain place.2) (plain : slots.Plain)
    (apart : Slots.Apart (place :: slots)) : ¬Opens defTypeKey (place.2 ++ Slots.text slots) := by
  by_cases empty : place.2 = []
  · rw [empty, List.nil_append]
    exact not_opens_slots plain (List.IsChain.of_cons apart) (head_unnamed apart empty)
  · exact fun opens => textPlain.not_opening empty opens.opening

/-- Texts between places that stay plain when quotes are taken. -/
def Slots.Soft (slots : Slots) : Prop := ∀ place ∈ slots, place.1.Plain ∧ DebuggerApi.Soft place.2

theorem Slots.Soft.plain {slots : Slots} (soft : slots.Soft) : slots.Plain :=
  fun place member => ⟨(soft place member).1, (soft place member).2.plain⟩

theorem quoted_missing_place (p : Placeholder) (other : p.kind ≠ .defType) (rest before later : List Char) (c : Char)
    (split : p.source = before ++ c :: later) : (quotedPlaceholder defTypeKey).find (c :: later ++ rest) = none := by
  refine quoted_missing (fun _ _ _ split => not_opens_source p split fun _ => other) ?_ before later c split
  intro last
  simp [Placeholder.source, Placeholder.inner, closing, List.getLast?_append] at last

theorem cut_defs (start : List Char) (slots : Slots) (startSoft : Soft start) (soft : slots.Soft)
    (apart : slots.Apart) : Cut (quotedPlaceholder defTypeKey).find (Slots.defPieces start slots) := by
  fun_induction Slots.defPieces start slots with
  | case1 start =>
    exact .plain .nil (quoted_missing (fun _ _ _ split => not_opens_plain startSoft.plain split)
      fun _ => not_opens_nil defTypeKey)
  | case2 start slot l slots name named ih =>
    obtain ⟨p, rfl, kind, rfl⟩ := Slot.eq_place_of_named named
    have textSoft := (soft _ List.mem_cons_self).2
    have rest := ih textSoft.afterQuote (fun place member => soft place (List.mem_cons_of_mem _ member))
      (List.IsChain.of_cons apart)
    refine .plain (.hit rest (by simp [Slot.text, source_ne_nil]) ?_) ?_
    · -- a quote that is not taken is not there
      have bare : startsQuoted l = false → (afterQuote l ++ Slots.text slots).head? ≠ some '"' := by
        intro unquoted
        have head : l.head? ≠ some '"' := by simpa [startsQuoted] using unquoted
        rw [afterQuote, if_neg head]
        cases l with
        | cons c l => exact head
        | nil =>
          cases slots with
          | nil => exact fun quote => by cases quote
          | cons next slots =>
            exact absurd rfl ((List.isChain_cons_cons.mp apart).1 (.inl (by rw [named]; rfl)))
      have found := quoted_found p (endsQuoted start) (startsQuoted l) _ bare
      rw [kind, Kind.key] at found
      rw [Slots.text_defPieces, Slot.text]
      simpa only [List.append_assoc] using found
    · refine quoted_missing (fun _ _ _ split => not_opens_plain startSoft.unquoted split) fun last => ?_
      -- two quotes: the second one stands before the placeholder
      have quoted : endsQuoted start = true := by
        by_contra unquoted
        have bare : start.getLast? ≠ some '"' := by simpa [endsQuoted] using unquoted
        rw [beforeQuote, if_neg bare] at last
        exact bare last
      intro opens
      have braces := opens.opening
      rw [texts_cons, Piece.text, quoted] at braces
      simp [quote, opening] at braces
  | case3 start slot l slots unnamed ih =>
    obtain ⟨slotPlain, textSoft⟩ := soft (slot, l) List.mem_cons_self
    have restSoft : Slots.Soft slots := fun place member => soft place (List.mem_cons_of_mem _ member)
    have rest := ih textSoft restSoft (List.IsChain.of_cons apart)
    have after := not_opens_after textSoft.plain restSoft.plain apart
    refine .plain (.plain rest ?_) ?_
    · rw [Slots.text_defPieces]
      cases slot with
      | place p =>
        refine quoted_missing_place p (fun same => ?_) _
        rw [Slot.named, if_pos same] at unnamed
        cases unnamed
      | filled text => exact quoted_missing (fun _ _ _ split => not_opens_plain slotPlain split) fun _ => after
    · refine quoted_missing (fun _ _ _ split => not_opens_plain startSoft.plain split) fun _ => ?_
      rw [texts_cons, Slots.text_defPieces]
      have here := not_opens_slots soft.plain apart (by intro place first; cases first; exact unnamed)
      rwa [Slots.text_cons] at here

theorem define_plain (value : List Char → List Char) (values : ∀ name, Plain (value name)) (start : List Char)
    (slots : Slots) (startSoft : Soft start) (soft : slots.Soft) :
    Plain (Slots.define value start slots).1 ∧ Slots.Plain (Slots.define value start slots).2 := by
  fun_induction Slots.define value start slots with
  | case1 start => exact ⟨startSoft.plain, fun place member => by cases member⟩
  | case2 start slot l slots name named rest ih =>
    have textSoft := (soft _ List.mem_cons_self).2
    obtain ⟨first, others⟩ := ih textSoft.afterQuote fun place member => soft place (List.mem_cons_of_mem _ member)
    exact ⟨startSoft.unquoted, List.forall_mem_cons.mpr ⟨⟨values name, first⟩, others⟩⟩
  | case3 start slot l slots unnamed rest ih =>
    obtain ⟨slotPlain, textSoft⟩ := soft _ List.mem_cons_self
    obtain ⟨first, others⟩ := ih textSoft fun place member => soft place (List.mem_cons_of_mem _ member)
    exact ⟨startSoft.plain, List.forall_mem_cons.mpr ⟨⟨slotPlain, first⟩, others⟩⟩

theorem names_define (value : List Char → List Char) (start : List Char) (slots : Slots) {kind : Kind}
    (other : kind ≠ .defType) : Slots.names kind (Slots.define value start slots).2 = Slots.names kind slots := by
  fun_induction Slots.define value start slots with
  | case1 start => rfl
  | case2 start slot l slots name named rest ih =>
    obtain ⟨p, rfl, same, rfl⟩ := Slot.eq_place_of_named named
    rw [Slots.names, Slots.names, List.filterMap_cons, List.filterMap_cons, ← Slots.names, ih, Slot.named, Slot.named,
      if_neg fun found => other (found.symm.trans same)]
    rfl
  | case3 start slot l slots unnamed rest ih =>
    rw [Slots.names, Slots.names, List.filterMap_cons, List.filterMap_cons, ← Slots.names, ih]
    rfl

/-! ### Texts that passes put in -/

theorem brace_not_mem_hexEncode (data : List UInt8) : '\x7b' ∉ hexEncode data := by
  have digits : ∀ d < 16, '\x7b' ≠ Nat.digitChar d := by decide
  intro member
  obtain ⟨b, _, member⟩ := List.mem_flatMap.mp member
  have small := b.toNat_lt
  simp only [byteText, List.mem_cons, List.not_mem_nil, or_false] at member
  rcases member with same | same
  · exact digits _ (by omega) same
  · exact digits _ (Nat.mod_lt _ (by decide)) same

theorem brace_not_mem_hashText (hash : MockTx.Byte32) : '\x7b' ∉ hashText hash :=
  brace_not_mem_hexEncode _

theorem plain_typeIdScriptJson (env : Surroundings) (name : List Char) : Plain (typeIdScriptJson env name) := by
  -- one brace opens the object, a new line is next, and there is no other brace
  have rest : Plain (typeIdScriptJson env name).tail := by
    apply plain_of_not_mem
    simp [typeIdScriptJson, brace_not_mem_hashText, brace_not_mem_hexEncode]
  intro inside
  rcases List.infix_cons_iff.mp inside with first | later
  · simp [opening] at first
  · exact rest later

theorem Slots.Soft.fill {slots : Slots} (soft : slots.Soft) (kind : Kind) {value : List Char → List Char}
    (values : ∀ name, DebuggerApi.Plain (value name)) : (slots.fill kind value).Soft := by
  intro place member
  obtain ⟨before, original, rfl⟩ := List.mem_map.mp member
  exact ⟨(soft before original).1.fill values, (soft before original).2⟩

theorem Slots.Apart.fill {slots : Slots} (apart : slots.Apart) (kind : Kind) (value : List Char → List Char)
    (other : .defType ≠ kind) : (slots.fill kind value).Apart := by
  rw [Slots.Apart, Slots.fill, List.isChain_map]
  simp only [Slot.named_fill kind .defType value _ other]
  exact apart

/-! ### The passes of a template -/

namespace Template

variable (env : Surroundings) (t : Template)

def slots : Slots := t.places.map fun (p, l) => (.place p, l.text)

theorem source_eq : t.source = t.start.text ++ Slots.text t.slots := by
  rw [source, slots, Slots.text, List.flatMap_map]
  rfl

theorem names_slots (kind : Kind) : Slots.names kind t.slots = t.names kind := by
  rw [names, slots, Slots.names]
  induction t.places with
  | nil => rfl
  | cons place places ih =>
    rw [List.map_cons, List.filterMap_cons, ih, List.filter_cons]
    by_cases same : place.1.kind = kind <;> simp [Slot.named, same]

theorem soft_slots : t.slots.Soft := by
  intro place member
  obtain ⟨before, _, rfl⟩ := List.mem_map.mp member
  exact ⟨trivial, before.2.plain, before.2.unquoted⟩

theorem apart_slots : t.slots.Apart := by
  rw [Slots.Apart, slots, List.isChain_map]
  refine t.apart.imp fun a b apart named => apart (named.imp ?_ ?_)
  all_goals
    intro named
    by_contra other
    simp [Slot.named, other] at named

end Template

section Passes

variable (env : Surroundings)

def dataValue (name : List Char) : List Char := hexEncode (env.bytes name)

def hashValue (name : List Char) : List Char := hashText (env.blake2b256 (env.bytes name))

def typeIdValue (name : List Char) : List Char := hashText (env.typeIdScriptHash (utf8 name))

/-- The places after the passes over files. -/
def filesFilled (slots : Slots) : Slots :=
  Slots.fill .hash (hashValue env) (Slots.fill .data (dataValue env) slots)

variable {start : List Char} {slots : Slots} {dict : List Char → Option (List Char)} {e : Embed}

theorem replace_place_iff {kind : Kind} {replacer : List Char → Option (List Char)} {value : List Char → List Char}
    (agree : ∀ name new, replacer name = some new → new = value name) (startPlain : Plain start)
    (plain : slots.Plain) :
    Embed.replace ⟨start ++ slots.text, dict⟩ (placeholder kind.key) replacer = some e ↔
      (∀ name ∈ slots.names kind, (replacer name).isSome) ∧ e = ⟨start ++ (slots.fill kind value).text, dict⟩ := by
  rw [Embed.replace, Option.map_eq_some_iff]
  simp only [replace_slots agree startPlain plain]
  constructor
  · rintro ⟨_, ⟨all, rfl⟩, rfl⟩
    exact ⟨all, rfl⟩
  · rintro ⟨all, rfl⟩
    exact ⟨_, ⟨all, rfl⟩, rfl⟩

theorem replaceData_iff (startPlain : Plain start) (plain : slots.Plain) :
    replaceData env ⟨start ++ slots.text, dict⟩ = some e ↔
      (∀ name ∈ slots.names .data, (env.read name).isSome) ∧
        e = ⟨start ++ (slots.fill .data (dataValue env)).text, dict⟩ := by
  have agree (name new : List Char) (found : (env.read name).map hexEncode = some new) :
      new = dataValue env name := by
    obtain ⟨data, read, rfl⟩ := Option.map_eq_some_iff.mp found
    rw [dataValue, Surroundings.bytes, read, Option.getD_some]
  have pass := @replace_place_iff start slots dict e .data _ _ agree startPlain plain
  simp only [Option.isSome_map] at pass
  exact pass

theorem replaceHash_iff (startPlain : Plain start) (plain : slots.Plain) :
    replaceHash env ⟨start ++ slots.text, dict⟩ = some e ↔
      (∀ name ∈ slots.names .hash, (env.read name).isSome) ∧
        e = ⟨start ++ (slots.fill .hash (hashValue env)).text, dict⟩ := by
  have agree (name new : List Char)
      (found : ((env.read name).map fun data => hashText (env.blake2b256 data)) = some new) :
      new = hashValue env name := by
    obtain ⟨data, read, rfl⟩ := Option.map_eq_some_iff.mp found
    rw [hashValue, Surroundings.bytes, read, Option.getD_some]
  have pass := @replace_place_iff start slots dict e .hash _ _ agree startPlain plain
  simp only [Option.isSome_map] at pass
  exact pass

/-- The dictionary of some names. -/
def dictOf (names : List (List Char)) : List Char → Option (List Char) :=
  fun name => if name ∈ names then some (typeIdValue env name) else none

theorem preludeTypeId_iff (startPlain : Plain start) (plain : slots.Plain) :
    preludeTypeId env ⟨start ++ slots.text, fun _ => none⟩ = some e ↔
      (slots.names .defType).Nodup ∧ e = ⟨start ++ slots.text, dictOf env (slots.names .defType)⟩ := by
  have found := DebuggerApi.names_slots .defType startPlain plain
  have dict : Table.fill (fun _ => none)
      ((slots.names .defType).map fun name => (name, hashText (env.typeIdScriptHash (utf8 name)))) =
        dictOf env (slots.names .defType) := funext (fill_names (typeIdValue env) (slots.names .defType))
  rw [Kind.key] at found
  rw [preludeTypeId, Option.map_eq_some_iff]
  simp only [found, foldlM_defineTypeId, dict]
  constructor
  · rintro ⟨_, ⟨⟨distinct, _⟩, rfl⟩, rfl⟩
    exact ⟨distinct, rfl⟩
  · rintro ⟨distinct, rfl⟩
    exact ⟨_, ⟨⟨distinct, fun _ _ => trivial⟩, rfl⟩, rfl⟩

theorem replaceDefType_eq (startSoft : Soft start) (soft : slots.Soft) (apart : slots.Apart) :
    replaceDefType env ⟨start ++ slots.text, dict⟩ =
      some ⟨(Slots.define (typeIdScriptJson env) start slots).1 ++
        Slots.text (Slots.define (typeIdScriptJson env) start slots).2, dict⟩ := by
  have cut := cut_defs start slots startSoft soft apart
  have agree (name new : List Char) (found : some (typeIdScriptJson env name) = some new) :
      new = typeIdScriptJson env name := (Option.some.inj found).symm
  have replaced := Regex.replaceAll_cut _ (fun name => some (typeIdScriptJson env name)) agree cut
  rw [Slots.text_defPieces, Slots.replaced_defPieces] at replaced
  rw [replaceDefType, Embed.replace, (replaced _).mpr ⟨fun _ _ => rfl, rfl⟩]
  rfl

theorem replaceRefType_iff {names : List (List Char)} (startPlain : Plain start) (plain : slots.Plain) :
    replaceRefType ⟨start ++ slots.text, dictOf env names⟩ = some e ↔
      (∀ name ∈ slots.names .refType, name ∈ names) ∧
        e = ⟨start ++ (slots.fill .refType (typeIdValue env)).text, dictOf env names⟩ := by
  have agree (name new : List Char) (found : dictOf env names name = some new) : new = typeIdValue env name := by
    unfold dictOf at found
    split at found
    · exact (Option.some.inj found).symm
    · cases found
  have defined (name : List Char) : (dictOf env names name).isSome ↔ name ∈ names := by
    unfold dictOf
    split <;> simp_all
  have pass := @replace_place_iff start slots (dictOf env names) e .refType _ _ agree startPlain plain
  simp only [defined] at pass
  exact pass

/-! ### What the passes make together -/

/-- The passes over files and type ids put the same text after a start as one reading of the places does. -/
theorem text_define (start : List Char) (places : List (Placeholder × Literal)) :
    (Slots.define (typeIdScriptJson env) start (filesFilled env (places.map fun (p, l) => (.place p, l.text)))).1 ++
        Slots.text (Slots.fill .refType (typeIdValue env)
          (Slots.define (typeIdScriptJson env) start
            (filesFilled env (places.map fun (p, l) => (.place p, l.text)))).2) =
      renderFrom env start places := by
  induction places generalizing start with
  | nil => simp [filesFilled, Slots.fill, Slots.define, Slots.text, renderFrom]
  | cons place places ih =>
    obtain ⟨p, l⟩ := place
    have step (first : Slot × List Char) (slots : Slots) : filesFilled env (first :: slots) =
      (((first.1.fill .data (dataValue env)).fill .hash (hashValue env)), first.2) :: filesFilled env slots := rfl
    have fillRef (slot : Slot) (text : List Char) (slots : Slots) :
        Slots.text (Slots.fill .refType (typeIdValue env) ((slot, text) :: slots)) =
          (slot.fill .refType (typeIdValue env)).text ++
            (text ++ Slots.text (Slots.fill .refType (typeIdValue env) slots)) := by
      rw [← Slots.text_cons]
      rfl
    rw [List.map_cons, step]
    cases kind : p.kind <;>
      simp [Slot.fill, Slot.named, kind, Slots.define, fillRef, Slot.text, renderFrom, Placeholder.value, ih, dataValue,
        hashValue, typeIdValue]

/-- The five passes over the text of a template are one reading of it: they panic exactly if a file is
missing, a type id is new twice or a type id is not defined, and else leave what the template means. -/
theorem replaceAll_source_iff (t : Template) (out : List Char) :
    replaceAll env t.source = some out ↔ t.Ready env ∧ out = t.render env := by
  have startSoft : Soft t.start.text := ⟨t.start.plain, t.start.unquoted⟩
  -- the places stay soft and apart while files are filled in, and plain after that
  have soft := t.soft_slots
  have dataSoft : (Slots.fill .data (dataValue env) t.slots).Soft :=
    soft.fill .data fun name => plain_of_not_mem (brace_not_mem_hexEncode (env.bytes name))
  have filesSoft : (filesFilled env t.slots).Soft :=
    dataSoft.fill .hash fun name => plain_of_not_mem (brace_not_mem_hashText (env.blake2b256 (env.bytes name)))
  have filesApart : (filesFilled env t.slots).Apart :=
    (t.apart_slots.fill .data (dataValue env) (by decide)).fill .hash (hashValue env) (by decide)
  have defined := define_plain (typeIdScriptJson env) (plain_typeIdScriptJson env) _ _ startSoft filesSoft
  -- no pass changes the names that a later one looks for
  have hashNames : Slots.names .hash (Slots.fill .data (dataValue env) t.slots) = t.names .hash := by
    rw [Slots.names_fill _ _ _ _ (by decide), t.names_slots]
  have defNames : Slots.names .defType (filesFilled env t.slots) = t.names .defType := by
    rw [filesFilled, Slots.names_fill _ _ _ _ (by decide), Slots.names_fill _ _ _ _ (by decide), t.names_slots]
  have refNames : Slots.names .refType
      (Slots.define (typeIdScriptJson env) t.start.text (filesFilled env t.slots)).2 = t.names .refType := by
    rw [names_define _ _ _ (by decide), filesFilled, Slots.names_fill _ _ _ _ (by decide),
      Slots.names_fill _ _ _ _ (by decide), t.names_slots]
  have rendered := text_define env t.start.text t.places
  simp only [replaceAll, Option.bind_eq_bind, Option.bind_eq_some_iff, Option.pure_def, Option.some.injEq]
  rw [t.source_eq, Embed.new]
  constructor
  · rintro ⟨_, data, _, hash, _, prelude, _, defType, _, refType, rfl⟩
    obtain ⟨dataFiles, rfl⟩ := (replaceData_iff env startSoft.plain soft.plain).mp data
    obtain ⟨hashFiles, rfl⟩ := (replaceHash_iff env startSoft.plain dataSoft.plain).mp hash
    obtain ⟨distinct, rfl⟩ := (preludeTypeId_iff env startSoft.plain filesSoft.plain).mp prelude
    rw [replaceDefType_eq env startSoft filesSoft filesApart] at defType
    cases defType
    obtain ⟨known, rfl⟩ := (replaceRefType_iff env defined.1 defined.2).mp refType
    exact ⟨⟨t.names_slots .data ▸ dataFiles, hashNames ▸ hashFiles, defNames ▸ distinct,
      fun name member => defNames ▸ known name (refNames ▸ member)⟩, rendered⟩
  · rintro ⟨ready, rfl⟩
    refine ⟨_, (replaceData_iff env startSoft.plain soft.plain).mpr ⟨t.names_slots .data ▸ ready.dataFiles, rfl⟩,
      _, (replaceHash_iff env startSoft.plain dataSoft.plain).mpr ⟨hashNames ▸ ready.hashFiles, rfl⟩,
      _, (preludeTypeId_iff env startSoft.plain filesSoft.plain).mpr ⟨defNames.symm ▸ ready.distinct, rfl⟩,
      _, replaceDefType_eq env startSoft filesSoft filesApart,
      _, (replaceRefType_iff env defined.1 defined.2).mpr ⟨fun name member => ?_, rfl⟩, rendered⟩
    have known := ready.defined name (refNames ▸ member)
    rwa [← defNames] at known

end Passes

/-- A new type id in quotes, and the hash of it. -/
def typeIdTemplate : Template where
  start := ⟨"[\x7b\"type\": \"".toList, by decide, by decide⟩
  places := [
    (⟨.defType, ['a'], true, true, by decide, by simp, by decide⟩,
      ⟨"\", \"code_hash\": \"0x".toList, by decide, by decide⟩),
    (⟨.refType, ['a'], false, true, by decide, by simp, by decide⟩, ⟨"\"\x7d]".toList, by decide, by decide⟩)]
  apart := by simp

def noFiles : Surroundings where
  files := fun _ => none
  parent := none
  blake2b256 := fun _ => 0
  typeIdScriptHash := fun _ => 0xab
  typeIdCodeHash := 0x54595045

/-- The quotes around the new type id are gone, and those around its hash are left. -/
theorem typeIdTemplate_replaced :
    typeIdTemplate.source =
      "[\x7b\"type\": \"\x7b\x7b def_type a \x7d\x7d\", \"code_hash\": \"0x\x7b\x7bref_type a \x7d\x7d\"\x7d]".toList ∧
    replaceAll noFiles typeIdTemplate.source = some ("[\x7b\"type\": ".toList ++ (typeIdScriptJson noFiles ['a'] ++
      (", \"code_hash\": \"0x".toList ++ (hashText 0xab ++ "\"\x7d]".toList)))) := by
  refine ⟨by decide, (replaceAll_source_iff noFiles typeIdTemplate _).mpr ⟨⟨?_, ?_, ?_, ?_⟩, rfl⟩⟩
  · decide
  · decide
  · decide
  · decide

end DebuggerApi
