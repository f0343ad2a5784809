import CkbDebugger.Cli.FileOperation

/-!
# Strings of the debugged script

A string is read in words of eight bytes, counted from its first byte wherever that is. The
word with its zero byte is read whole, although the string may end with the memory.
-/
namespace Cli

open Bytes (slice field leBytes leValue slice_add slice_succ length_slice leBytes_leValue)
open CkbVm (Error)

/-- The machine has a memory: `load64` reads eight bytes at any address, the least significant
one first, and fails when they are not all in the memory. -/
structure HasMemory {M : Type} (guest : Guest M) (m : M) (memory : List UInt8) : Prop where
  small : memory.length < 2 ^ 64
  inside : ∀ addr : UInt64, addr.toNat + 8 ≤ memory.length →
    guest.load64 m addr = .ok (UInt64.ofNat (field addr.toNat 8 memory))
  outside : ∀ addr : UInt64, memory.length < addr.toNat + 8 → ∃ e, guest.load64 m addr = .error e

section Fetch

variable {M : Type} {guest : Guest M} {m : M} {memory : List UInt8}

theorem fetchBytes_outside (has : HasMemory guest m memory) {addr : UInt64}
    (beyond : memory.length < addr.toNat + 8) (left : Nat) :
    ∃ e, fetchBytes guest m left addr = some (.error e) := by
  obtain ⟨e, failed⟩ := has.outside addr beyond
  unfold fetchBytes
  exact ⟨e, by rw [failed]⟩

/-- A word that lies in the memory is taken up to its zero byte, or whole. -/
theorem fetchBytes_inside (has : HasMemory guest m memory) {addr : UInt64}
    (within : addr.toNat + 8 ≤ memory.length) (left : Nat) :
    fetchBytes guest m (left + 1) addr =
      if 0 ∈ slice addr.toNat 8 memory then
        some (.ok ((slice addr.toNat 8 memory).takeWhile (· != 0) ++ [0]))
      else (fetchBytes guest m left (addr + 8)).map fun rest => rest.map (slice addr.toNat 8 memory ++ ·) := by
  have word : leBytes 8 (UInt64.ofNat (field addr.toNat 8 memory)).toNat = slice addr.toNat 8 memory := by
    have whole := leBytes_leValue (slice addr.toNat 8 memory)
    have bound := Bytes.leValue_lt (slice addr.toNat 8 memory)
    rw [length_slice within] at whole bound
    rw [show (256 : Nat) ^ 8 = 2 ^ 64 by rfl] at bound
    rw [UInt64.toNat_ofNat', field, Nat.mod_eq_of_lt bound, whole]
  rw [fetchBytes, has.inside addr within]
  simp only [word, List.contains_iff_mem]

/-- A string that begins at an address is read if the word with its zero byte lies in the memory,
and fails otherwise. The words before that one lie in the memory anyway. -/
theorem fetchBytes_spec (has : HasMemory guest m memory) (left : Nat) {addr : UInt64} {n : Nat}
    (enough : n / 8 < left) (first : 0 ∉ slice addr.toNat n memory) (last : memory[addr.toNat + n]? = some 0) :
    (addr.toNat + 8 * (n / 8) + 8 ≤ memory.length →
      fetchBytes guest m left addr = some (.ok (slice addr.toNat (n + 1) memory))) ∧
    (memory.length < addr.toNat + 8 * (n / 8) + 8 → ∃ e, fetchBytes guest m left addr = some (.error e)) := by
  have inside := (List.getElem?_eq_some_iff.mp last).1
  have small := has.small
  induction left generalizing addr n with
  | zero => omega
  | succ left ih =>
    by_cases short : n < 8
    · have word : 8 * (n / 8) = 0 := by omega
      rw [word, Nat.add_zero]
      refine ⟨fun within => ?_, fun beyond => fetchBytes_outside has beyond _⟩
      -- the zero byte is in this word, behind the rest of the string
      have parts : slice addr.toNat 8 memory =
          slice addr.toNat n memory ++ 0 :: slice (addr.toNat + n + 1) (7 - n) memory := by
        rw [← slice_succ last, ← slice_add]
        congr 1
        omega
      have front : (slice addr.toNat 8 memory).takeWhile (· != 0) = slice addr.toNat n memory := by
        rw [parts, List.takeWhile_append_of_pos, List.takeWhile_cons_of_neg (by simp), List.append_nil]
        intro b member
        exact bne_iff_ne.mpr fun zero => first (zero ▸ member)
      have found : (0 : UInt8) ∈ slice addr.toNat 8 memory := by
        rw [parts]
        exact List.mem_append_right _ List.mem_cons_self
      have ended : slice addr.toNat (n + 1) memory = slice addr.toNat n memory ++ [0] := by
        rw [slice_add, slice_succ last, slice, slice, List.take_zero]
      rw [fetchBytes_inside has within, if_pos found, front, ended]
    · have within : addr.toNat + 8 ≤ memory.length := by omega
      have next : (addr + 8).toNat = addr.toNat + 8 := by
        rw [UInt64.toNat_add]
        simp only [UInt64.reduceToNat]
        omega
      have parts : slice addr.toNat n memory = slice addr.toNat 8 memory ++ slice (addr + 8).toNat (n - 8) memory := by
        rw [next, ← slice_add]
        congr 1
        omega
      rw [parts, List.mem_append, not_or] at first
      have place : (addr + 8).toNat + (n - 8) = addr.toNat + n := by omega
      have words : (n - 8) / 8 + 1 = n / 8 := by omega
      have rest := ih (show (n - 8) / 8 < left by omega) first.2 (place ▸ last) (place ▸ inside)
      have bounds : (addr + 8).toNat + 8 * ((n - 8) / 8) + 8 = addr.toNat + 8 * (n / 8) + 8 := by omega
      rw [bounds] at rest
      rw [fetchBytes_inside has within, if_neg first.1]
      refine ⟨fun whole => ?_, fun beyond => ?_⟩
      · rw [rest.1 whole, Option.map_some, Except.map, next, ← slice_add]
        congr 3
        omega
      · obtain ⟨e, failed⟩ := rest.2 beyond
        exact ⟨e, by rw [failed, Option.map_some, Except.map]⟩

/-- A string of less than 8192 bytes in front of its zero byte is fetched exactly if the word with the
zero byte, counted from the beginning of the string, lies in the memory as a whole. -/
theorem fetchString_iff (guest : Guest M) (m : M) (memory : List UInt8) (has : HasMemory guest m memory)
    (addr : UInt64) (n : Nat) (short : n < 8192) (first : 0 ∉ slice addr.toNat n memory)
    (last : memory[addr.toNat + n]? = some 0)
    (valid : (String.fromUTF8? ⟨(slice addr.toNat (n + 1) memory).toArray⟩).isSome) :
    fetchString guest m addr = some (.ok (slice addr.toNat (n + 1) memory)) ↔
      addr.toNat + 8 * (n / 8) + 8 ≤ memory.length := by
  obtain ⟨fetched, failed⟩ := fetchBytes_spec has 1024 (show n / 8 < 1024 by omega) first last
  constructor
  · intro read
    by_contra beyond
    obtain ⟨e, error⟩ := failed (Nat.not_le.mp beyond)
    rw [fetchString, error] at read
    cases read
  · intro within
    rw [fetchString, fetched within]
    exact if_pos valid

end Fetch

/-- A machine that is nothing but its memory. -/
def memoryOnly : Guest (List UInt8) where
  registers _ _ := 0
  setRegister _ _ m := m
  load64 m addr :=
    if addr.toNat + 8 ≤ m.length then .ok (UInt64.ofNat (field addr.toNat 8 m)) else .error (.vm 0)
  storeBytes _ _ m := (.ok (), m)

theorem hasMemory_memoryOnly {memory : List UInt8} (small : memory.length < 2 ^ 64) :
    HasMemory memoryOnly memory memory where
  small := small
  inside := fun _ within => if_pos within
  outside := fun _ beyond => ⟨_, if_neg (Nat.not_le.mpr beyond)⟩

/-- The mode `rb` at an odd address, with room behind it. -/
theorem mode_fetched : fetchString memoryOnly [1, 114, 98, 0, 2, 3, 4, 5, 6] 1 = some (.ok [114, 98, 0]) :=
  (fetchString_iff memoryOnly _ [1, 114, 98, 0, 2, 3, 4, 5, 6] (hasMemory_memoryOnly (by decide)) 1 2
    (by decide) (by decide) rfl (by decide)).mpr (by decide)

/-- The same mode in the last bytes of the memory. -/
theorem mode_at_end_fails :
    HasMemory memoryOnly [1, 2, 3, 4, 5, 6, 7, 114, 98, 0] [1, 2, 3, 4, 5, 6, 7, 114, 98, 0] ∧
    slice 7 3 [1, 2, 3, 4, 5, 6, 7, 114, 98, 0] = [114, 98, 0] ∧
    (String.fromUTF8? ⟨#[114, 98, 0]⟩).isSome ∧
    fetchString memoryOnly [1, 2, 3, 4, 5, 6, 7, 114, 98, 0] 7 = some (.error (.vm 0)) :=
  ⟨hasMemory_memoryOnly (by decide), by decide, by decide, by decide⟩

end Cli
