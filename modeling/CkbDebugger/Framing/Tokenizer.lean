import Mathlib.Data.List.Infix

/-!
# Tokenizers over a growing input

A tokenizer looks at the start of an input and finds at most one token there.
When what it finds depends on the token's own symbols alone, an input that
arrives in pieces is cut into the same tokens as the whole input, provided the
buffer that holds the pieces has room for every token.
-/
namespace Framing

structure Tokenizer (α τ : Type) where
  next : List α → Option (Nat × τ)
  bounds : ∀ {input len token}, next input = some (len, token) → 0 < len ∧ len ≤ input.length
  /-- A token is not taken back when more input arrives. -/
  extend : ∀ {input len token} (more : List α),
    next input = some (len, token) → next (input ++ more) = some (len, token)
  /-- Symbols after a token are not needed to find it. -/
  restrict : ∀ {input len token} (more : List α),
    next (input ++ more) = some (len, token) → len ≤ input.length →
      next input = some (len, token)

namespace Tokenizer

variable {α τ : Type} (T : Tokenizer α τ) {limit : Nat}

/-- The tokens of an input from its start up to the first place without a token,
or with a token of more than `limit` symbols. -/
def tokens (limit : Nat) (input : List α) : List τ :=
  match _found : T.next input with
  | some (len, token) =>
    if len ≤ limit then token :: tokens limit (input.drop len) else []
  | none => []
  termination_by input.length
  decreasing_by
    have inside := T.bounds _found
    simp only [List.length_drop]
    omega

theorem tokens_of_next {input : List α} {len : Nat} {token : τ}
    (found : T.next input = some (len, token)) (fits : len ≤ limit) :
    T.tokens limit input = token :: T.tokens limit (input.drop len) := by
  rw [tokens]
  split
  next len' token' found' =>
    obtain ⟨rfl, rfl⟩ := Prod.mk.inj (Option.some.inj (found.symm.trans found'))
    rw [if_pos fits]
  next missing => rw [found] at missing; cases missing

theorem tokens_of_no_next {input : List α}
    (missing : ∀ len token, T.next input = some (len, token) → limit < len) :
    T.tokens limit input = [] := by
  rw [tokens]
  split
  next len token found =>
    rw [if_neg (Nat.not_le.mpr (missing len token found))]
  next => rfl

/-- A token found in a buffer that is no larger than the limit is the next token
of the whole input. -/
theorem tokens_of_buffered {buffered : List α} {len : Nat} {token : τ} (arriving : List α)
    (fits : buffered.length ≤ limit) (found : T.next buffered = some (len, token)) :
    T.tokens limit (buffered ++ arriving) =
      token :: T.tokens limit (buffered.drop len ++ arriving) := by
  have inside := T.bounds found
  rw [T.tokens_of_next (T.extend arriving found) (by omega),
    List.drop_append_of_le_length inside.2]

/-- A full buffer without a token ends the tokens of the whole input. -/
theorem tokens_of_full {buffered : List α} (arriving : List α) (full : limit ≤ buffered.length)
    (missing : T.next buffered = none) : T.tokens limit (buffered ++ arriving) = [] := by
  apply T.tokens_of_no_next
  intro len token found
  -- a token that fits the limit would have been found in the full buffer already
  by_contra short
  rw [T.restrict arriving found (by omega)] at missing
  cases missing

theorem tokens_of_end {buffered : List α} (missing : T.next buffered = none) :
    T.tokens limit buffered = [] := by
  apply T.tokens_of_no_next
  intro len token found
  rw [missing] at found
  cases found

/-- The first of the tokens is found at the start of the input. -/
theorem next_of_tokens {input : List α} {token : τ} {others : List τ} (cut : T.tokens limit input = token :: others) :
    ∃ len, T.next input = some (len, token) := by
  rw [tokens] at cut
  split at cut
  next len first found =>
    split at cut
    · cases cut
      exact ⟨len, found⟩
    · cases cut
  next => cases cut

end Tokenizer

end Framing
