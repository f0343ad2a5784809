import Mathlib.Data.List.Basic
import Mathlib.Tactic.Ring

/-!
# Variable-length numbers

The base-128 numbers of the protocol buffers wire format: seven bits to a byte, the low
ones first, and the high bit of every byte but the last is set. A number of 64 bits takes
at most ten bytes.
-/
namespace Protobuf

abbrev Bytes := List UInt8

/-- The bytes of a number, as long as there are groups left for it. -/
def encodeGroups : Nat → Nat → Bytes
  | 0, _ => []
  | groups + 1, n =>
    if n < 128 then [UInt8.ofNat n] else UInt8.ofNat (n % 128 + 128) :: encodeGroups groups (n / 128)

/-- `write_raw_varint64`. -/
def encodeVarint (n : UInt64) : Bytes := encodeGroups 10 n.toNat

/-- The number at the front of some bytes, and what follows it. -/
def decodeGroups : Nat → Bytes → Option (Nat × Bytes)
  | 0, _ => none
  | _ + 1, [] => none
  | groups + 1, b :: bytes =>
    if b.toNat < 128 then some (b.toNat, bytes)
    else (decodeGroups groups bytes).map fun (n, rest) => (b.toNat - 128 + 128 * n, rest)

/-- `read_raw_varint64`. The bits of a tenth byte that do not fit are dropped. -/
def decodeVarint (bytes : Bytes) : Option (UInt64 × Bytes) :=
  (decodeGroups 10 bytes).map fun (n, rest) => (UInt64.ofNat n, rest)

/-- `compute_raw_varint64_size`, which compares the number with each power in turn. -/
def varintSize (n : UInt64) : Nat := ((List.range' 1 9).find? fun i => n.toNat < 2 ^ (7 * i)).getD 10

/-! ### Reading back -/

theorem decodeGroups_encodeGroups {groups n : Nat} (fits : n < 128 ^ (groups + 1)) (rest : Bytes) :
    decodeGroups (groups + 1) (encodeGroups (groups + 1) n ++ rest) = some (n, rest) := by
  induction groups generalizing n with
  | zero =>
    have small : n < 128 := by simpa using fits
    have byte : (UInt8.ofNat n).toNat = n := UInt8.toNat_ofNat_of_lt' (show n < 256 by omega)
    rw [encodeGroups, if_pos small, List.singleton_append, decodeGroups, byte, if_pos small]
  | succ groups ih =>
    rw [encodeGroups]
    split
    next small =>
      have byte : (UInt8.ofNat n).toNat = n := UInt8.toNat_ofNat_of_lt' (show n < 256 by omega)
      rw [List.singleton_append, decodeGroups, byte, if_pos small]
    next large =>
      have byte : (UInt8.ofNat (n % 128 + 128)).toNat = n % 128 + 128 :=
        UInt8.toNat_ofNat_of_lt' (show n % 128 + 128 < 256 by omega)
      have high : n / 128 < 128 ^ (groups + 1) := by
        rw [Nat.div_lt_iff_lt_mul (by decide), ← Nat.pow_succ]
        exact fits
      rw [List.cons_append, decodeGroups, byte, if_neg (by omega), ih high, Option.map_some]
      simp only [Option.some.injEq, Prod.mk.injEq, and_true]
      omega

/-- A number is read back from its bytes, whatever follows them. -/
theorem decodeVarint_encodeVarint (n : UInt64) (rest : Bytes) :
    decodeVarint (encodeVarint n ++ rest) = some (n, rest) := by
  have fits : n.toNat < 128 ^ (9 + 1) := Nat.lt_of_lt_of_le n.toNat_lt (by decide)
  simp only [decodeVarint, encodeVarint, decodeGroups_encodeGroups fits, Option.map_some, UInt64.ofNat_toNat]

theorem encodeVarint_ne_nil (n : UInt64) : encodeVarint n ≠ [] := by
  rw [encodeVarint, encodeGroups]
  split <;> simp

/-! ### Sizes -/

/-- How many bytes a number takes, by the powers that it stays below. -/
theorem length_encodeGroups {groups n : Nat} {size : Nat} (enough : size ≤ groups) (positive : 0 < size)
    (fits : n < 128 ^ size) (least : size = 1 ∨ 128 ^ (size - 1) ≤ n) :
    (encodeGroups groups n).length = size := by
  induction size generalizing groups n with
  | zero => omega
  | succ size ih =>
    obtain ⟨groups, rfl⟩ : ∃ g, groups = g + 1 := ⟨groups - 1, by omega⟩
    rw [encodeGroups]
    split
    next small =>
      -- with more than one byte the number would not be below 128
      rcases least with one | large
      · rw [one, List.length_singleton]
      · rcases Nat.eq_zero_or_pos size with rfl | more
        · rfl
        · have : 128 ^ 1 ≤ 128 ^ size := Nat.pow_le_pow_right (by decide) more
          simp only [Nat.add_sub_cancel] at large
          omega
    next large =>
      have more : 0 < size := by
        rcases Nat.eq_zero_or_pos size with rfl | more
        · simp only [Nat.zero_add, Nat.pow_one] at fits
          omega
        · exact more
      have power : 128 ^ size = 128 ^ (size - 1) * 128 := (Nat.pow_pred_mul more).symm
      have high : n / 128 < 128 ^ size := by
        rw [Nat.div_lt_iff_lt_mul (by decide), ← Nat.pow_succ]
        exact fits
      rw [List.length_cons, ih (by omega) more high]
      rcases Nat.eq_or_lt_of_le more with one | several
      · exact .inl one.symm
      · refine .inr ((Nat.le_div_iff_mul_le (by decide)).mpr ?_)
        rcases least with one | large
        · omega
        · simpa [power] using large

/-- The computed size is the number of bytes that are written. -/
theorem length_encodeVarint (n : UInt64) : (encodeVarint n).length = varintSize n := by
  have power (i : Nat) : 2 ^ (7 * i) = 128 ^ i := by rw [Nat.pow_mul]
  have bound := n.toNat_lt
  rw [encodeVarint, varintSize]
  -- the first power above the number, or none of the nine
  cases found : (List.range' 1 9).find? fun i => decide (n.toNat < 2 ^ (7 * i)) with
  | some size =>
    obtain ⟨below, before, after, split, smaller⟩ := List.find?_eq_some_iff_append.mp found
    have below : n.toNat < 128 ^ size := by simpa [power] using below
    have member : size ∈ List.range' 1 9 := by simp [split]
    obtain ⟨positive, small⟩ := List.mem_range'_1.mp member
    rw [Option.getD_some]
    refine length_encodeGroups (by omega) positive below ?_
    rcases Nat.eq_or_lt_of_le positive with one | several
    · exact .inl one.symm
    · refine .inr ?_
      have earlier : size - 1 ∈ before := by
        have all : size - 1 ∈ List.range' 1 9 := List.mem_range'_1.mpr (by omega)
        have sorted : (before ++ size :: after).Pairwise (· < ·) := split ▸ List.pairwise_lt_range'
        rw [split] at all
        rcases List.mem_append.mp all with earlier | later
        · exact earlier
        · rcases List.mem_cons.mp later with same | later
          · omega
          · have := List.rel_of_pairwise_cons (List.pairwise_append.mp sorted).2.1 later
            omega
      have above := smaller _ earlier
      simpa [power] using above
  | none =>
    have above := List.find?_eq_none.mp found 9 (by decide)
    refine length_encodeGroups (Nat.le_refl 10) (by decide) ?_ (.inr ?_)
    · exact Nat.lt_of_lt_of_le bound (by decide)
    · simpa [power] using above

end Protobuf
