import CkbDebugger.GdbRemote.HexText

/-!
# The packet that resumes threads

`vCont` is followed by any number of actions, each with the thread it is for or with none. The
parser reads the list back exactly.
-/
namespace GdbRemote

open Nom

/-! ### The texts -/

/-- An action: its letter, and its signal in two digits or the bounds of its range. -/
inductive ActionText : Bytes → VCont → Prop where
  | continue : ActionText (ascii "c") .continue
  | continueWithSignal {two : Bytes} {signal : UInt8} (number : HexByte two signal) :
      ActionText (ascii "C" ++ two) (.continueWithSignal signal)
  | step : ActionText (ascii "s") .step
  | stepWithSignal {two : Bytes} {signal : UInt8} (number : HexByte two signal) :
      ActionText (ascii "S" ++ two) (.stepWithSignal signal)
  | stop : ActionText (ascii "t") .stop
  | rangeStep {low high : Bytes} {start stop : UInt64} (first : Digits low start) (last : Digits high stop) :
      ActionText (ascii "r" ++ (low ++ (ascii "," ++ high))) (.rangeStep start stop)

def threadText : Option ThreadId → Bytes
  | none => []
  | some thread => ascii ":" ++ (writeThreadId thread).flatten

/-- A semicolon, an action and its thread. -/
def EntryText (text : Bytes) (entry : VCont × Option ThreadId) : Prop :=
  (∀ thread ∈ entry.2, thread.Proper) ∧
    ∃ action, ActionText action entry.1 ∧ text = ascii ";" ++ (action ++ threadText entry.2)

/-! ### Parsing -/

/-- What may stand after an action or a thread: the end, or the next entry. -/
def NextEntry (rest : Bytes) : Prop := ∀ b ∈ rest.head?, b = 59

theorem NextEntry.stops {rest : Bytes} (next : NextEntry rest) : ∀ b ∈ rest.head?, isHexDigit b = false := by
  intro b first
  rw [next b first]
  rfl

/-- An action ends where no digit follows. -/
theorem vContAction_text {text : Bytes} {action : VCont} (written : ActionText text action) {rest : Bytes}
    (stops : ∀ b ∈ rest.head?, isHexDigit b = false) : vContAction (text ++ rest) = .done rest action := by
  cases written with
  | «continue» => rfl
  | step => rfl
  | stop => rfl
  | continueWithSignal number =>
    rw [vContAction, List.append_assoc, altComplete_cons_of_fails (Or.inl rfl)]
    apply altComplete_cons_of_done
    simp only [map_apply, preceded, bind_apply, literal_append, andThen_done,
      (hexByte_text number).reads rest trivial]
  | stepWithSignal number =>
    rw [vContAction, List.append_assoc]
    iterate 3 rw [altComplete_cons_of_fails (Or.inl rfl)]
    apply altComplete_cons_of_done
    simp only [map_apply, preceded, bind_apply, literal_append, andThen_done,
      (hexByte_text number).reads rest trivial]
  | @rangeStep low high start stop first last =>
    have comma : ∀ b ∈ (ascii "," ++ (high ++ rest)).head?, isHexDigit b = false :=
      stops_at_mark rfl _
    rw [vContAction, List.append_assoc, List.append_assoc, List.append_assoc]
    iterate 5 rw [altComplete_cons_of_fails (Or.inl rfl)]
    apply altComplete_cons_of_done
    simp only [bind_apply, literal_append, andThen_done, hexValue_digits first comma,
      hexValue_digits last stops, pure_apply]

theorem thread_text {thread : Option ThreadId} (proper : ∀ id ∈ thread, id.Proper) {rest : Bytes}
    (next : NextEntry rest) :
    opt (complete (preceded (literal ":") parseThreadId)) (threadText thread ++ rest) = .done rest thread := by
  cases thread with
  | none =>
    -- without a colon there is no thread, also at the end of the input
    cases rest with
    | nil => rfl
    | cons b rest =>
      cases next b rfl
      rfl
  | some id =>
    simp only [threadText, List.append_assoc, opt, complete, preceded, bind_apply, literal_append, andThen_done,
      parseThreadId_text (proper id rfl) next.stops]

theorem threadText_stops (thread : Option ThreadId) {rest : Bytes} (next : NextEntry rest) :
    ∀ b ∈ (threadText thread ++ rest).head?, isHexDigit b = false := by
  cases thread with
  | none => exact next.stops
  | some id =>
    rintro b ⟨⟩
    rfl

theorem vContEntry_text {text : Bytes} {entry : VCont × Option ThreadId} (written : EntryText text entry) :
    TextOf vContEntry NextEntry text entry := by
  obtain ⟨proper, action, actionText, rfl⟩ := written
  constructor
  · intro rest next
    have actionRead := vContAction_text actionText (threadText_stops entry.2 next)
    simp only [vContEntry, bind_apply, List.append_assoc, literal_append, andThen_done, actionRead,
      thread_text proper next, pure_apply]
  · rintro rest b ⟨⟩
    rfl

theorem command_v (rest : Bytes) : command (ascii "v" ++ rest) = vCommand (ascii "v" ++ rest) := by
  change command (_ :: rest) = vCommand (_ :: rest)
  unfold command
  iterate 15 rw [alt_cons_of_error (by rfl)]
  exact alt_cons_of_others_error _ rfl

theorem vCommand_vCont {rest : Bytes} {entries : List (VCont × Option ThreadId)}
    (noQuestion : Fails (literal "?" rest)) (read : many0 vContEntry rest = .done [] entries) :
    vCommand (ascii "vCont" ++ rest) = .done [] (.vCont entries) := by
  rw [vCommand, altComplete_cons_of_fails (Or.inl rfl)]
  apply altComplete_cons_of_done
  simp only [preceded, bind_apply, literal_append, andThen_done]
  -- the list is the second alternative, after the question
  rw [altComplete_cons_of_fails]
  · apply altComplete_cons_of_done
    simp only [map_apply, read, andThen_done]
  · exact noQuestion.andThen _

/-- Every list of actions, the empty one too, is read back from its text, with nothing left. -/
theorem vcont_round_trip {texts : List Bytes} {entries : List (VCont × Option ThreadId)}
    (written : List.Forall₂ EntryText texts entries) :
    command (ascii "vCont" ++ texts.flatten) = .done [] (.vCont entries) := by
  have each : List.Forall₂ (TextOf vContEntry NextEntry) texts entries :=
    written.imp fun _ _ entry => vContEntry_text entry
  have collects := collects_at_end each (by rintro b ⟨⟩)
  have read := many0_of_collects consumes_vContEntry collects (Or.inl rfl)
  -- every action has a semicolon in front of it
  have noQuestion : Fails (literal "?" texts.flatten) := by
    cases written with
    | nil => exact Or.inr rfl
    | cons first _ =>
      obtain ⟨_, action, _, rfl⟩ := first
      exact Or.inl rfl
  have split : ascii "vCont" ++ texts.flatten = ascii "v" ++ (ascii "Cont" ++ texts.flatten) := rfl
  rw [split, command_v, ← split]
  exact vCommand_vCont noQuestion read

/-- A range for one thread of any process, a signal for all threads, and a step. -/
theorem three_actions :
    command (ascii "vCont;r10,1F:p0.2a;C05:p-1.-1;s") = .done [] (.vCont
      [(.rangeStep 0x10 0x1f, some ⟨.any, .id 0x2a⟩), (.continueWithSignal 5, some ⟨.all, .all⟩),
        (.step, none)]) := by
  have range : EntryText (ascii ";r10,1F:p0.2a") (.rangeStep 0x10 0x1f, some ⟨.any, .id 0x2a⟩) :=
    ⟨by rintro _ ⟨⟩; exact ⟨by simp [Id.Proper], by simp [Id.Proper]⟩, _,
      @ActionText.rangeStep (ascii "10") (ascii "1F") _ _ (digits_of_all (by decide) rfl rfl)
        (digits_of_all (by decide) rfl rfl), rfl⟩
  have signal : EntryText (ascii ";C05:p-1.-1") (.continueWithSignal 5, some ⟨.all, .all⟩) :=
    ⟨by rintro _ ⟨⟩; exact ⟨by simp [Id.Proper], by simp [Id.Proper]⟩, _,
      .continueWithSignal ⟨48, 53, rfl, rfl, rfl, rfl⟩, rfl⟩
  have step : EntryText (ascii ";s") (.step, none) := ⟨by rintro _ ⟨⟩, _, .step, rfl⟩
  exact vcont_round_trip (.cons range (.cons signal (.cons step .nil)))

end GdbRemote
