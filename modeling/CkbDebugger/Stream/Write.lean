import Mathlib.Data.List.Basic

/-!
# Writers that take a part of what they are given

`std::io::Write` without errors: a call of `write` accepts some bytes from the front of a
buffer, and `write_all` calls it until the buffer is empty.
-/
namespace Stream

/-- A call of `write`: how many bytes it accepts, and the state after it. -/
abbrev Write (β σ : Type) := List β → σ → Nat × σ

variable {β σ : Type}

/-- `write_all`. `none` is the error for a call that accepts nothing. -/
def writeAll (write : Write β σ) (buf : List β) (state : σ) : Option σ :=
  if buf = [] then some state
  else
    match write buf state with
    | (0, _) => none
    | (accepted + 1, state) => writeAll write (buf.drop (accepted + 1)) state
  termination_by buf.length
  decreasing_by
    have positive : 0 < buf.length := List.length_pos_iff.mpr ‹_›
    rw [List.length_drop]
    omega

/-- `write_all` of one buffer after the other. -/
def writeEach (write : Write β σ) : List (List β) → σ → Option σ
  | [], state => some state
  | buf :: bufs, state => (writeAll write buf state).bind (writeEach write bufs)

/-- What `written` says of the bytes written so far is kept by every call, and a call
accepts something. -/
structure Tracks (write : Write β σ) (written : List β → σ → Prop) : Prop where
  positive : ∀ buf state, buf ≠ [] → 0 < (write buf state).1
  keeps : ∀ done buf state, written done state →
    written (done ++ buf.take (write buf state).1) (write buf state).2

variable {write : Write β σ} {written : List β → σ → Prop}

/-- However the calls split a buffer, in the end all of it is written. -/
theorem writeAll_tracks (tracks : Tracks write written) (buf done : List β) (state : σ)
    (sofar : written done state) :
    ∃ after, writeAll write buf state = some after ∧ written (done ++ buf) after := by
  by_cases empty : buf = []
  · subst empty
    refine ⟨state, by rw [writeAll, if_pos rfl], ?_⟩
    rwa [List.append_nil]
  · -- a call takes a part from the front, and the induction goes on with the rest
    have positive := tracks.positive buf state empty
    have kept := tracks.keeps done buf state sofar
    rcases called : write buf state with ⟨count, next⟩
    rw [called] at positive kept
    obtain ⟨accepted, rfl⟩ : ∃ accepted, count = accepted + 1 := ⟨count - 1, by omega⟩
    obtain ⟨after, ran, final⟩ :=
      writeAll_tracks tracks (buf.drop (accepted + 1)) (done ++ buf.take (accepted + 1)) next kept
    refine ⟨after, ?_, ?_⟩
    · rw [writeAll, if_neg empty, called]
      exact ran
    · rwa [List.append_assoc, List.take_append_drop] at final
  termination_by buf.length
  decreasing_by
    have positive : 0 < buf.length := List.length_pos_iff.mpr empty
    rw [List.length_drop]
    omega

theorem writeEach_tracks (tracks : Tracks write written) (bufs : List (List β)) (done : List β)
    (state : σ) (sofar : written done state) :
    ∃ after, writeEach write bufs state = some after ∧ written (done ++ bufs.flatten) after := by
  induction bufs generalizing done state with
  | nil => exact ⟨state, rfl, by rwa [List.flatten_nil, List.append_nil]⟩
  | cons buf bufs ih =>
    obtain ⟨middle, first, sofar⟩ := writeAll_tracks tracks buf done state sofar
    obtain ⟨after, rest, final⟩ := ih (done ++ buf) middle sofar
    refine ⟨after, ?_, ?_⟩
    · rw [writeEach, first]
      exact rest
    · rwa [List.flatten_cons, ← List.append_assoc]

end Stream
