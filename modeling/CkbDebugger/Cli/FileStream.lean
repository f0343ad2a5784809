import CkbDebugger.Cli.FileOperation

/-!
# The input file of the debugged script

A script reads the file given on the command line through a syscall, a part at a time. Between its syscalls
it does what it likes with the machine; the stream alone goes on from one to the next.
-/
namespace Cli

open CkbVm (Error A0 A1 A7)

/-! ### The stream -/

def readSyscallNumber : UInt64 := 9000

/-- `isize::MAX`, which no vector exceeds. -/
def isizeMax : UInt64 := 9223372036854775807

structure FileStream where
  content : List UInt8
  offset : Nat
  deriving Repr, DecidableEq

def FileStream.new (content : List UInt8) : FileStream := ⟨content, 0⟩

/-- `FileStream::read` into a buffer of some length: what it returns, and the bytes at the front of the
buffer. -/
def FileStream.read (s : FileStream) (len : Nat) : Int × List UInt8 × FileStream :=
  if s.content.length ≤ s.offset then (-1, [], s)
  else
    let remainingSize := s.content.length - s.offset
    let readSize := min len remainingSize
    (readSize, (s.content.drop s.offset).take readSize, { s with offset := s.offset + readSize })

section Guest

variable {M : Type} (guest : Guest M)

/-- `FileStream::ecall`. A panic is `none`. -/
def FileStream.ecall (s : FileStream) (m : M) : Option (Except Error Bool × M × FileStream) :=
  if guest.registers m A7 ≠ readSyscallNumber then some (.ok false, m, s)
  else
    let argBuf := guest.registers m A0
    let argCount := guest.registers m A1
    -- the buffer is allocated with the size that the script asks for
    if argCount > isizeMax then none
    else
      let (readSize, buf, s) := s.read argCount.toNat
      if readSize > 0 then
        match guest.storeBytes argBuf buf m with
        | (.error e, m) => some (.error e, m, s)
        | (.ok (), m) => some (.ok true, guest.setRegister A0 (UInt64.ofNat readSize.toNat) m, s)
      else some (.ok true, guest.setRegister A0 (-1) m, s)

/-- What the syscalls on some machines do, one after the other, up to the first that panics or fails. -/
def FileStream.serve (s : FileStream) : List M → List (Option (Except Error Bool × M))
  | [] => []
  | m :: ms =>
    match s.ecall guest m with
    | none => [none]
    | some (.error e, after, _) => [some (.error e, after)]
    | some (.ok handled, after, s) => some (.ok handled, after) :: s.serve ms

/-! ### Chunks -/

/-- The machine asks for bytes, no more of them than a buffer can have. -/
def Asks (m : M) : Prop :=
  guest.registers m A7 = readSyscallNumber ∧ guest.registers m A1 ≤ isizeMax

instance (m : M) : Decidable (Asks guest m) := inferInstanceAs (Decidable (_ ∧ _))

/-- What a syscall does that has some bytes for the script, if it asks for any. -/
def answer (m : M) (chunk : List UInt8) : Option (Except Error Bool × M) :=
  if guest.registers m A7 ≠ readSyscallNumber then some (.ok false, m)
  else if guest.registers m A1 > isizeMax then none
  else if chunk = [] then some (.ok true, guest.setRegister A0 (-1) m)
  else
    match guest.storeBytes (guest.registers m A0) chunk m with
    | (.error e, m) => some (.error e, m)
    | (.ok (), m) => some (.ok true, guest.setRegister A0 (UInt64.ofNat chunk.length) m)

namespace FileStream

variable {guest} (s : FileStream)

/-- The bytes that have not been read. -/
def rest : List UInt8 := s.content.drop s.offset

theorem read_eq (len : Nat) :
    s.read len =
      (if s.rest = [] then -1 else ((s.rest.take len).length : Int), s.rest.take len,
        { s with offset := s.offset + (s.rest.take len).length }) := by
  have length : s.rest.length = s.content.length - s.offset := List.length_drop
  unfold read
  split
  next ended =>
    have nothing : s.rest = [] := List.drop_eq_nil_of_le ended
    simp [nothing]
  next left =>
    have something : s.rest ≠ [] := by
      intro nothing
      rw [nothing] at length
      simp only [List.length_nil] at length
      omega
    have taken : s.rest.take (min len (s.content.length - s.offset)) = s.rest.take len := by
      rw [← length, List.take_eq_take_iff]
      omega
    simp only [if_neg something, List.length_take, length]
    rw [← taken]
    rfl

/-- The bytes that a machine gets. -/
def chunk (guest : Guest M) (m : M) : List UInt8 :=
  if Asks guest m then s.rest.take (guest.registers m A1).toNat else []

def next (guest : Guest M) (m : M) : FileStream := { s with offset := s.offset + (s.chunk guest m).length }

theorem ecall_eq (m : M) :
    s.ecall guest m =
      (answer guest m (s.chunk guest m)).map fun (result, after) => (result, after, s.next guest m) := by
  unfold ecall answer
  by_cases number : guest.registers m A7 = readSyscallNumber
  · by_cases large : guest.registers m A1 > isizeMax
    · simp [number, large]
    · have asks : Asks guest m := ⟨number, UInt64.not_lt.mp large⟩
      have chunk : s.chunk guest m = s.rest.take (guest.registers m A1).toNat := if_pos asks
      simp only [number, ne_eq, not_true_eq_false, if_false, large, read_eq, ← chunk]
      rw [show ({ s with offset := s.offset + (s.chunk guest m).length } : FileStream) = s.next guest m from rfl]
      -- nothing is read at the end of the file, and when nothing is asked for
      by_cases empty : s.chunk guest m = []
      · have none : ¬(if s.rest = [] then (-1 : Int) else ((s.chunk guest m).length : Int)) > 0 := by
          rw [empty]
          split <;> simp
        rw [if_neg none, if_pos empty]
        rfl
      · have left : s.rest ≠ [] := fun nothing => empty (by rw [chunk, nothing, List.take_nil])
        have some : ((s.chunk guest m).length : Int) > 0 := by
          have positive := List.length_pos_iff.mpr empty
          omega
        rw [if_neg left, if_pos some, if_neg empty]
        rcases guest.storeBytes (guest.registers m A0) (s.chunk guest m) m with ⟨_ | _, after⟩ <;> rfl
  · have asks : ¬Asks guest m := fun asks => number asks.1
    have same : s.next guest m = s := by simp [next, chunk, asks]
    simp [number, same]

theorem rest_next (m : M) : s.chunk guest m ++ (s.next guest m).rest = s.rest := by
  have drop : (s.next guest m).rest = s.rest.drop (s.chunk guest m).length := by
    rw [rest, rest, List.drop_drop]
    rfl
  rw [drop]
  unfold chunk
  split
  next asks =>
    rw [List.length_take]
    conv_rhs => rw [← List.take_append_drop (guest.registers m A1).toNat s.rest]
    congr 1
    rw [List.drop_eq_drop_iff]
    omega
  next => rfl

/-- A machine that asks for some bytes gets none only at the end of the file. -/
theorem rest_of_chunk_nil {m : M} (asks : Asks guest m) (positive : guest.registers m A1 ≠ 0)
    (none : s.chunk guest m = []) : s.rest = [] := by
  rw [chunk, if_pos asks, List.take_eq_nil_iff] at none
  refine none.resolve_left fun zero => positive ?_
  exact UInt64.toNat_inj.mp zero

end FileStream

/-- What chunks of the file the syscalls on some machines hand out. -/
structure Delivers (s : FileStream) (ms : List M) (chunks : List (List UInt8)) : Prop where
  answers : s.serve guest ms = List.zipWith (answer guest) ms chunks
  inOrder : chunks.flatten <+: s.rest
  sizes : ∀ c ∈ ms.zip chunks, c.2.length ≤ (guest.registers c.1 A1).toNat
  /-- A script that always asks for some bytes has them all when it is told that there are no more. -/
  whole : (∀ m ∈ ms, Asks guest m → guest.registers m A1 ≠ 0) → (∃ c ∈ ms.zip chunks, Asks guest c.1 ∧ c.2 = []) →
    chunks.flatten = s.rest

end Guest

end Cli
