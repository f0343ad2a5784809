import CkbDebugger.GdbServer.Panics
import CkbDebugger.GdbServer.Watchpoint

/-!
# Reading memory

The packet that reads memory gives an address and a length, and `read_memory` adds them up. A
region that goes to the end of the address space, or beyond it, makes the sum overflow: with
overflow checks this panics, without them the loop runs over no address at all.
-/
namespace GdbServer

open CkbVm (Vm)
open GdbRemote (HandlerError MemoryRegion)

variable {M : Type}

/-! ### The bytes of a region -/

theorem readBytes_complete (vm : Vm M) {m : M} {count : Nat} {address : UInt64} {v : List UInt8}
    (read : readBytes vm m count address = .ok v) :
    v.length = count ∧ ∀ i (inside : i < v.length), vm.load8 m (address + .ofNat i) = .ok v[i] := by
  induction count generalizing address v with
  | zero =>
    cases read
    exact ⟨rfl, by simp⟩
  | succ count ih =>
    -- the other bytes are those of the region that starts one address later
    obtain ⟨value, rest, rfl, first, others⟩ := readBytes_succ_ok vm read
    obtain ⟨length, bytes⟩ := ih others
    refine ⟨by rw [List.length_cons, length], ?_⟩
    intro i inside
    cases i with
    | zero => rw [add_ofNat_zero, List.getElem_cons_zero, first]
    | succ i =>
      rw [List.length_cons] at inside
      rw [← add_one_add_ofNat, List.getElem_cons_succ, bytes i (by omega)]

theorem readMemory_of_overflow (vm : Vm M) (m : M) {region : MemoryRegion}
    (overflow : 2 ^ 64 ≤ region.address.toNat + region.length.toNat) : readMemory vm m region = .ok [] := by
  -- the wrapped end lies before the start, or on it
  have empty : (region.address + region.length).toNat - region.address.toNat = 0 := by
    have address := region.address.toNat_lt
    have length := region.length.toNat_lt
    rw [UInt64.toNat_add]
    omega
  rw [readMemory, empty, readBytes]

/-! ### Complete or refused -/

/-- Some byte of the region lies behind the last address, or cannot be loaded. -/
def Unreadable (vm : Vm M) (m : M) (region : MemoryRegion) : Prop :=
  2 ^ 64 < region.address.toNat + region.length.toNat ∨
    ∃ i < region.length.toNat, ∃ e, vm.load8 m (region.address + .ofNat i) = .error e

/-- The call returns. It returns bytes only if these are all bytes of the region, in their order, and
an error if one of them cannot be read. -/
def CompleteOrRefused (vm : Vm M) (m : M) (region : MemoryRegion)
    (answer : Option (Except HandlerError (List UInt8) × Handler M)) : Prop :=
  ∃ result after, answer = some (result, after) ∧
    (∀ v, result = .ok v → v.length = region.length.toNat ∧ ∀ i (inside : i < v.length),
      region.address.toNat + i < 2 ^ 64 ∧ vm.load8 m (region.address + .ofNat i) = .ok v[i]) ∧
    (Unreadable vm m region → ∃ e, result = .error e)

theorem readMemory_complete (vm : Vm M) (m : M) {region : MemoryRegion}
    (fits : region.address.toNat + region.length.toNat < 2 ^ 64) (after : Handler M) :
    CompleteOrRefused vm m region (some (readMemory vm m region, after)) := by
  refine ⟨_, after, rfl, ?_, ?_⟩
  · intro v read
    rw [readMemory_of_fits vm fits] at read
    obtain ⟨length, bytes⟩ := readBytes_complete vm read
    exact ⟨length, fun i inside => ⟨by omega, bytes i inside⟩⟩
  · rintro (beyond | ⟨i, inside, e, failed⟩)
    · omega
    · cases read : readMemory vm m region with
      | error code => exact ⟨code, rfl⟩
      | ok v =>
        -- all bytes have been loaded, also the one that cannot be
        rw [readMemory_of_fits vm fits] at read
        obtain ⟨length, bytes⟩ := readBytes_complete vm read
        rw [bytes i (by omega)] at failed
        cases failed

/-- `read_memory` reads all of a region or refuses it, whether or not additions are checked, exactly if the
address behind the region is a 64-bit number. -/
theorem read_memory_complete_iff (target : Target M) (checks : Bool) (rounds : Nat) (h : Handler M)
    (region : MemoryRegion) :
    CompleteOrRefused target.toVm h.machine region (checkedHandler target checks rounds (.readMemory region) h) ↔
      region.address.toNat + region.length.toNat < 2 ^ 64 := by
  have answer : checkedHandler target checks rounds (.readMemory region) h =
      if checks && overflows region then none else some (readMemory target.toVm h.machine region, h) := rfl
  rw [answer]
  constructor
  · rintro ⟨result, after, returned, complete, _⟩
    by_contra overflow
    have empty := readMemory_of_overflow target.toVm h.machine (Nat.not_lt.mp overflow)
    split at returned
    · cases returned
    · -- no byte is returned for a region that has some
      rw [empty] at returned
      cases returned
      have length := (complete [] rfl).1
      have address := region.address.toNat_lt
      simp only [List.length_nil] at length
      omega
  · intro fits
    have unchecked : overflows region = false := by
      simp only [overflows, decide_eq_false_iff_not]
      omega
    rw [unchecked, Bool.and_false]
    exact readMemory_complete target.toVm h.machine fits h

/-- The last byte of the address space: no byte and no error without the checks, a panic with them. -/
theorem last_byte_not_read :
    checkedHandler advancingTarget false 0 (.readMemory ⟨0xffffffffffffffff, 1⟩) (.new 0) = some (.ok [], .new 0) ∧
      checkedHandler advancingTarget true 0 (.readMemory ⟨0xffffffffffffffff, 1⟩) (.new 0) = none ∧
      ∀ checks, ¬CompleteOrRefused advancing 0 ⟨0xffffffffffffffff, 1⟩
        (checkedHandler advancingTarget checks 0 (.readMemory ⟨0xffffffffffffffff, 1⟩) (.new 0)) := by
  have release : checkedHandler advancingTarget false 0 (.readMemory ⟨0xffffffffffffffff, 1⟩) (.new 0) =
      some (.ok [], .new 0) := rfl
  have debug : checkedHandler advancingTarget true 0 (.readMemory ⟨0xffffffffffffffff, 1⟩) (.new 0) = none := rfl
  refine ⟨release, debug, ?_⟩
  rintro checks ⟨result, after, returned, complete, _⟩
  cases checks with
  | false =>
    rw [release] at returned
    cases returned
    have length := (complete [] rfl).1
    cases length
  | true =>
    rw [debug] at returned
    cases returned

end GdbServer
