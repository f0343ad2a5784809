import Mathlib.Data.List.Infix
import Mathlib.Tactic.Ring

/-!
# Little-endian fields of byte strings

Numbers stored in a fixed number of bytes, least significant byte first, the
parts of a byte string, and the replacement of a part in place.
-/
namespace Bytes

/-! ### Numbers -/

/-- The `width` low bytes of a number, as `put_u64_le` and its kin write them. -/
def leBytes : Nat → Nat → List UInt8
  | 0, _ => []
  | width + 1, n => UInt8.ofNat n :: leBytes width (n / 256)

def leValue : List UInt8 → Nat
  | [] => 0
  | b :: bytes => b.toNat + 256 * leValue bytes

@[simp] theorem length_leBytes (width n : Nat) : (leBytes width n).length = width := by
  induction width generalizing n with
  | zero => rfl
  | succ width ih => simp only [leBytes, List.length_cons, ih]

theorem leValue_leBytes (width n : Nat) : leValue (leBytes width n) = n % 256 ^ width := by
  induction width generalizing n with
  | zero => simp only [leBytes, leValue, Nat.pow_zero, Nat.mod_one]
  | succ width ih =>
    have low : (UInt8.ofNat n).toNat = n % 256 := UInt8.toNat_ofNat'
    rw [leBytes, leValue, ih, low, Nat.pow_succ', Nat.mod_mul]

theorem leValue_leBytes_of_lt (width : Nat) {n : Nat} (fits : n < 256 ^ width) :
    leValue (leBytes width n) = n := by
  rw [leValue_leBytes, Nat.mod_eq_of_lt fits]

theorem leBytes_leValue (bytes : List UInt8) : leBytes bytes.length (leValue bytes) = bytes := by
  induction bytes with
  | nil => rfl
  | cons b bytes ih =>
    have low : UInt8.ofNat (b.toNat + 256 * leValue bytes) = b := by
      apply UInt8.toNat_inj.mp
      have small := b.toNat_lt
      simp only [UInt8.toNat_ofNat']
      omega
    have high : (b.toNat + 256 * leValue bytes) / 256 = leValue bytes := by
      have small := b.toNat_lt
      omega
    simp only [List.length_cons, leValue, leBytes, low, high, ih]

theorem leValue_eq_zero_iff (bytes : List UInt8) : leValue bytes = 0 ↔ ∀ b ∈ bytes, b = 0 := by
  induction bytes with
  | nil => simp [leValue]
  | cons b bytes ih =>
    have zero : b = 0 ↔ b.toNat = 0 := UInt8.toNat_inj.symm
    simp only [leValue, List.mem_cons, forall_eq_or_imp, ← ih, zero]
    omega

theorem leValue_lt (bytes : List UInt8) : leValue bytes < 256 ^ bytes.length := by
  induction bytes with
  | nil => decide
  | cons b bytes ih =>
    have small := b.toNat_lt
    rw [leValue, List.length_cons, Nat.pow_succ]
    omega

/-- High bytes of zero add nothing. -/
theorem leValue_append_zeros (bytes : List UInt8) (count : Nat) :
    leValue (bytes ++ List.replicate count 0) = leValue bytes := by
  induction bytes with
  | nil => exact (leValue_eq_zero_iff _).mpr fun b member => List.eq_of_mem_replicate member
  | cons b bytes ih => rw [List.cons_append, leValue, ih, leValue]

theorem leBytes_leValue_padded {bytes : List UInt8} {width : Nat} (short : bytes.length ≤ width) :
    leBytes width (leValue bytes) = bytes ++ List.replicate (width - bytes.length) 0 := by
  have padded := leBytes_leValue (bytes ++ List.replicate (width - bytes.length) 0)
  rw [List.length_append, List.length_replicate, Nat.add_sub_cancel' short, leValue_append_zeros] at padded
  exact padded

/-! ### Parts -/

/-- The `len` bytes from `offset` on, fewer at the end of the string. -/
def slice (offset len : Nat) (bytes : List UInt8) : List UInt8 := (bytes.drop offset).take len

/-- The number in the `width` bytes from `offset` on. -/
def field (offset width : Nat) (bytes : List UInt8) : Nat := leValue (slice offset width bytes)

/-- The bytes with those from `offset` on replaced. -/
def patch (offset : Nat) (part bytes : List UInt8) : List UInt8 :=
  bytes.take offset ++ part ++ bytes.drop (offset + part.length)

theorem slice_add (offset a b : Nat) (bytes : List UInt8) :
    slice offset (a + b) bytes = slice offset a bytes ++ slice (offset + a) b bytes := by
  simp only [slice, List.take_add, List.drop_drop]

theorem slice_succ {offset : Nat} {b : UInt8} {bytes : List UInt8} (here : bytes[offset]? = some b) (len : Nat) :
    slice offset (len + 1) bytes = b :: slice (offset + 1) len bytes := by
  obtain ⟨inside, equal⟩ := List.getElem?_eq_some_iff.mp here
  rw [slice, List.drop_eq_getElem_cons inside, equal, List.take_succ_cons, slice]

theorem length_slice {offset len : Nat} {bytes : List UInt8} (inside : offset + len ≤ bytes.length) :
    (slice offset len bytes).length = len := by
  rw [slice, List.length_take, List.length_drop]
  omega

theorem slice_append_right (front bytes : List UInt8) (offset len : Nat) :
    slice (front.length + offset) len (front ++ bytes) = slice offset len bytes := by
  rw [slice, List.drop_append, List.drop_eq_nil_of_le (by omega)]
  simp only [Nat.add_sub_cancel_left, List.nil_append, slice]

theorem slice_append_left {bytes : List UInt8} {offset len : Nat} (more : List UInt8)
    (inside : offset + len ≤ bytes.length) : slice offset len (bytes ++ more) = slice offset len bytes := by
  have enough : len ≤ (bytes.drop offset).length := by
    rw [List.length_drop]
    omega
  rw [slice, List.drop_append_of_le_length (by omega), List.take_append_of_le_length enough, slice]

theorem slice_middle (front part back : List UInt8) :
    slice front.length part.length (front ++ (part ++ back)) = part := by
  simp only [slice, List.drop_left, List.take_left]

@[simp] theorem length_patch {offset : Nat} {part bytes : List UInt8}
    (inside : offset + part.length ≤ bytes.length) : (patch offset part bytes).length = bytes.length := by
  simp only [patch, List.length_append, List.length_take, List.length_drop]
  omega

theorem patch_append {offset : Nat} {part bytes : List UInt8} (more : List UInt8)
    (inside : offset + part.length ≤ bytes.length) :
    patch offset part (bytes ++ more) = patch offset part bytes ++ more := by
  simp only [patch, List.take_append_of_le_length (show offset ≤ bytes.length by omega),
    List.drop_append_of_le_length inside, List.append_assoc]

theorem slice_patch_self (offset : Nat) (part bytes : List UInt8) (inside : offset ≤ bytes.length) :
    slice offset part.length (patch offset part bytes) = part := by
  have front : (bytes.take offset).length = offset := by
    rw [List.length_take]
    omega
  have middle := slice_middle (bytes.take offset) part (bytes.drop (offset + part.length))
  rwa [front, ← List.append_assoc] at middle

theorem slice_patch_before {place offset len : Nat} {part bytes : List UInt8}
    (inside : place ≤ bytes.length) (before : offset + len ≤ place) :
    slice offset len (patch place part bytes) = slice offset len bytes := by
  have front : offset + len ≤ (bytes.take place).length := by
    rw [List.length_take]
    omega
  rw [patch, List.append_assoc, slice_append_left _ front]
  conv_rhs => rw [← List.take_append_drop place bytes]
  rw [slice_append_left _ front]

theorem slice_patch_after {place offset len : Nat} {part bytes : List UInt8}
    (inside : place + part.length ≤ bytes.length) (after : place + part.length ≤ offset) :
    slice offset len (patch place part bytes) = slice offset len bytes := by
  obtain ⟨distance, rfl⟩ := Nat.exists_eq_add_of_le after
  have front : (bytes.take place ++ part).length = place + part.length := by
    simp only [List.length_append, List.length_take]
    omega
  have back := slice_append_right (bytes.take place ++ part) (bytes.drop (place + part.length)) distance len
  rw [front] at back
  rw [patch, back]
  simp only [slice, List.drop_drop]

theorem slice_flatten {width : Nat} (table : List (List UInt8))
    (uniform : ∀ row ∈ table, row.length = width) (i : Nat) (row : List UInt8)
    (here : table[i]? = some row) : slice (width * i) width table.flatten = row := by
  induction table generalizing i with
  | nil => simp at here
  | cons first table ih =>
    have length := uniform first List.mem_cons_self
    cases i with
    | zero =>
      obtain rfl : first = row := by simpa using here
      have front := slice_middle [] first table.flatten
      rwa [length] at front
    | succ i =>
      have rest := ih (fun r member => uniform r (List.mem_cons_of_mem first member)) i
        (by simpa using here)
      rw [List.flatten_cons, show width * (i + 1) = first.length + width * i by rw [length]; ring,
        slice_append_right, rest]

end Bytes
