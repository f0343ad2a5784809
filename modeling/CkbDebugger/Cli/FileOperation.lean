import CkbDebugger.Bytes.LittleEndian
import CkbDebugger.CkbVm.Machine
import CkbDebugger.Interface.Program

/-!
# File operations of the debugged script

Syscalls through which a script under the debugger uses files of the host. They pass the script's
registers on to the C library; what they do is a program over its functions. The numbers of a
release build wrap around.
-/
namespace Cli

open CkbVm (Error A0 A1 A2 A3 A7)

/-! ### The C library -/

/-- The functions that are called. Streams are addresses; `fread` is given the length of its buffer
with its own arguments. -/
inductive LibcCall where
  | fopen (path mode : List UInt8)
  | freopen (path mode : List UInt8) (stream : UInt64)
  | fread (bufLen : Nat) (size nitems stream : UInt64)
  | feof (stream : UInt64)
  | ferror (stream : UInt64)
  | fgetc (stream : UInt64)
  | fclose (stream : UInt64)
  | ftell (stream : UInt64)
  | fseek (stream : UInt64) (offset : Int64) (whence : Int32)
  deriving Repr, DecidableEq

/-- What they return; `fread` returns the number of items and leaves the contents of its buffer. -/
@[reducible] def LibcCall.Result : LibcCall → Type
  | .fopen .. => UInt64
  | .freopen .. => UInt64
  | .fread .. => UInt64 × List UInt8
  | .ftell _ => Int64
  | _ => Int32

/-- The answers of a library that has no files. -/
def LibcCall.nothing : (call : LibcCall) → call.Result
  | .fopen .. => (0 : UInt64)
  | .freopen .. => (0 : UInt64)
  | .fread .. => ((0, []) : UInt64 × List UInt8)
  | .feof _ => (0 : Int32)
  | .ferror _ => (0 : Int32)
  | .fgetc _ => (0 : Int32)
  | .fclose _ => (0 : Int32)
  | .ftell _ => (0 : Int64)
  | .fseek .. => (0 : Int32)

/-- A program over the library that ends with a result and the machine, or panics. -/
abbrev LibcProgram (M : Type) : Type :=
  Interface.Program LibcCall LibcCall.Result (Option (Except Error Bool × M))

/-! ### The syscalls -/

def fopenSyscallNumber : UInt64 := 9003
def freopenSyscallNumber : UInt64 := 9004
def freadSyscallNumber : UInt64 := 9005
def feofSyscallNumber : UInt64 := 9006
def ferrorSyscallNumber : UInt64 := 9007
def fgetcSyscallNumber : UInt64 := 9008
def fcloseSyscallNumber : UInt64 := 9009
def ftellSyscallNumber : UInt64 := 9010
def fseekSyscallNumber : UInt64 := 9011

/-- What the syscalls use of the machine. -/
structure Guest (M : Type) where
  registers : M → Fin 32 → UInt64
  setRegister : Fin 32 → UInt64 → M → M
  load64 : M → UInt64 → Except Error UInt64
  storeBytes : UInt64 → List UInt8 → M → Except Error Unit × M

section Guest

variable {M : Type} (guest : Guest M)

/-- The loop of `fetch_string`, with the number of words that may still follow. A panic is `none`. -/
def fetchBytes (m : M) : Nat → UInt64 → Option (Except Error (List UInt8))
  | left, addr =>
    match guest.load64 m addr with
    | .error e => some (.error e)
    | .ok eightBytes =>
      match left with
      | 0 => none
      | left + 1 =>
        let buf := Bytes.leBytes 8 eightBytes.toNat
        -- the string ends with its zero byte
        if buf.contains 0 then some (.ok (buf.takeWhile (· != 0) ++ [0]))
        else (fetchBytes m left (addr + 8)).map fun rest => rest.map (buf ++ ·)

/-- `fetch_string`, as bytes: it panics on a text that is not UTF-8. -/
def fetchString (m : M) (addr : UInt64) : Option (Except Error (List UInt8)) :=
  match fetchBytes guest m 1024 addr with
  | some (.ok bytes) => if (String.fromUTF8? ⟨bytes.toArray⟩).isSome then some (.ok bytes) else none
  | other => other

/-- The rest of a syscall that has a string. -/
def withString (m : M) (addr : UInt64) (next : List UInt8 → LibcProgram M) : LibcProgram M :=
  match fetchString guest m addr with
  | none => .done none
  | some (.error e) => .done (some (.error e, m))
  | some (.ok text) => next text

/-- The end of a syscall: its result goes to `A0`. -/
def returns (value : UInt64) (m : M) : LibcProgram M :=
  .done (some (.ok true, guest.setRegister A0 value m))

/-- `from_i32`. -/
def fromI32 (value : Int32) : UInt64 := value.toInt64.toUInt64

def maxRead : UInt64 := 3 * 1024 * 1024

/-- The branch of `FREAD_SYSCALL_NUMBER`. -/
def freadSyscall (ptr size nitems stream : UInt64) (m : M) : LibcProgram M :=
  let totalSize := nitems * size
  if totalSize > maxRead then .done none
  else
    .call (.fread totalSize.toNat size nitems stream) fun (readCount, buf) =>
      -- the slice of the buffer
      if (readCount * size).toNat ≤ totalSize.toNat then
        match guest.storeBytes ptr (buf.take (readCount * size).toNat) m with
        | (.error e, m) => .done (some (.error e, m))
        | (.ok (), m) => returns guest readCount m
      else .done none

/-- `FileOperation::ecall`. -/
def fileOperation (m : M) : LibcProgram M :=
  let id := guest.registers m A7
  let arg0 := guest.registers m A0
  let arg1 := guest.registers m A1
  let arg2 := guest.registers m A2
  let arg3 := guest.registers m A3
  if id = fopenSyscallNumber then
    withString guest m arg0 fun path => withString guest m arg1 fun mode =>
      .call (.fopen path mode) fun handler => returns guest handler m
  else if id = freopenSyscallNumber then
    withString guest m arg0 fun path => withString guest m arg1 fun mode =>
      .call (.freopen path mode arg2) fun handler => returns guest handler m
  else if id = freadSyscallNumber then freadSyscall guest arg0 arg1 arg2 arg3 m
  else if id = feofSyscallNumber then .call (.feof arg0) fun eof => returns guest (fromI32 eof) m
  else if id = ferrorSyscallNumber then .call (.ferror arg0) fun error => returns guest (fromI32 error) m
  else if id = fgetcSyscallNumber then .call (.fgetc arg0) fun ch => returns guest (fromI32 ch) m
  else if id = fcloseSyscallNumber then .call (.fclose arg0) fun ret => returns guest (fromI32 ret) m
  else if id = ftellSyscallNumber then .call (.ftell arg0) fun pos => returns guest pos.toUInt64 m
  else if id = fseekSyscallNumber then
    .call (.fseek arg0 arg1.toInt64 arg2.toInt64.toInt32) fun ret => returns guest (fromI32 ret) m
  else .done (some (.ok false, m))

/-! ### The buffer of `fread` -/

/-- Every call of `fread`, whatever the library does, stays within its buffer of at most 3 MiB:
all the items fit in, and so does the slice of every number of items that it can return. -/
def FreadBounded (m : M) : Prop :=
  ∀ (W : Type) (perform : Interface.Performer LibcCall LibcCall.Result W) (w : W)
    (bufLen : Nat) (size nitems stream : UInt64) (result : UInt64 × List UInt8),
    ⟨.fread bufLen size nitems stream, result⟩ ∈ (fileOperation guest m).calls perform w →
      size.toNat * nitems.toNat ≤ bufLen ∧ bufLen ≤ 3 * 1024 * 1024 ∧
        ∀ readCount ≤ nitems.toNat, readCount * size.toNat ≤ bufLen

/-- A program that never calls `fread`. -/
def ReadsNothing (program : LibcProgram M) : Prop :=
  ∀ (W : Type) (perform : Interface.Performer LibcCall LibcCall.Result W) (w : W),
    ∀ c ∈ program.calls perform w, ∀ bufLen size nitems stream, c.1 ≠ .fread bufLen size nitems stream

theorem ReadsNothing.done (value : Option (Except Error Bool × M)) :
    ReadsNothing (.done value : LibcProgram M) := by
  intro W perform w c mem
  simp [Interface.Program.calls] at mem

theorem ReadsNothing.call {op : LibcCall} {next : op.Result → LibcProgram M}
    (other : ∀ bufLen size nitems stream, op ≠ .fread bufLen size nitems stream)
    (rest : ∀ result, ReadsNothing (next result)) : ReadsNothing (.call op next) := by
  intro W perform w c mem
  rcases List.mem_cons.mp mem with rfl | later
  · exact other
  · exact rest _ W perform _ c later

theorem readsNothing_withString {m : M} {addr : UInt64} {next : List UInt8 → LibcProgram M}
    (rest : ∀ text, ReadsNothing (next text)) : ReadsNothing (withString guest m addr next) := by
  unfold withString
  rcases fetchString guest m addr with _ | _ | text
  · exact .done _
  · exact .done _
  · exact rest text

/-- Only the syscall with its number reads from a file. -/
theorem readsNothing_fileOperation {m : M} (other : guest.registers m A7 ≠ freadSyscallNumber) :
    ReadsNothing (fileOperation guest m) := by
  have ended : ∀ value, ReadsNothing (returns guest value m) := fun value => .done _
  unfold fileOperation
  simp only [if_neg other]
  repeat' split
  · exact readsNothing_withString guest fun path => readsNothing_withString guest fun mode =>
      .call nofun fun handler => ended handler
  · exact readsNothing_withString guest fun path => readsNothing_withString guest fun mode =>
      .call nofun fun handler => ended handler
  · exact .call nofun fun eof => ended _
  · exact .call nofun fun error => ended _
  · exact .call nofun fun ch => ended _
  · exact .call nofun fun ret => ended _
  · exact .call nofun fun pos => ended _
  · exact .call nofun fun ret => ended _
  · exact .done _

theorem fileOperation_fread {m : M} (number : guest.registers m A7 = freadSyscallNumber) :
    fileOperation guest m = freadSyscall guest (guest.registers m A0) (guest.registers m A1)
      (guest.registers m A2) (guest.registers m A3) m := by
  simp [fileOperation, number, freadSyscallNumber, fopenSyscallNumber, freopenSyscallNumber]

/-- The calls of `fread` of its syscall: one, unless the size that was computed is over the limit. -/
theorem mem_calls_freadSyscall {W : Type} {perform : Interface.Performer LibcCall LibcCall.Result W} {w : W}
    {ptr size nitems stream : UInt64} {m : M} {c : Sigma LibcCall.Result} :
    c ∈ (freadSyscall guest ptr size nitems stream m).calls perform w ↔
      nitems * size ≤ maxRead ∧ c = ⟨.fread (nitems * size).toNat size nitems stream,
        (perform (.fread (nitems * size).toNat size nitems stream) w).1⟩ := by
  unfold freadSyscall
  by_cases tooLarge : nitems * size > maxRead
  · simp [tooLarge, Interface.Program.calls, UInt64.not_le]
  · simp only [if_neg tooLarge, Interface.Program.calls, List.mem_cons]
    have fits : nitems * size ≤ maxRead := UInt64.not_lt.mp tooLarge
    refine ⟨fun h => ⟨fits, h.resolve_right fun later => ?_⟩, fun h => .inl h.2⟩
    -- no further call follows
    split at later
    · split at later <;> simp [Interface.Program.calls, returns] at later
    · simp [Interface.Program.calls] at later

theorem le_maxRead_iff {size nitems : UInt64} :
    nitems * size ≤ maxRead ↔ size.toNat * nitems.toNat % 2 ^ 64 ≤ 3 * 1024 * 1024 := by
  rw [UInt64.le_iff_toNat_le, UInt64.toNat_mul, Nat.mul_comm]
  exact Iff.rfl

/-- A product that wraps around to the limit or below is read into a buffer that is too short. -/
theorem not_freadBounded {m : M} (number : guest.registers m A7 = freadSyscallNumber)
    (wraps : 2 ^ 64 ≤ (guest.registers m A1).toNat * (guest.registers m A2).toNat)
    (small : (guest.registers m A1).toNat * (guest.registers m A2).toNat % 2 ^ 64 ≤ 3 * 1024 * 1024) :
    ¬ FreadBounded guest m := by
  intro bounded
  -- a library without files shows the call
  let perform : Interface.Performer LibcCall LibcCall.Result Unit := fun op w => (op.nothing, w)
  let fread : LibcCall := .fread (guest.registers m A2 * guest.registers m A1).toNat
    (guest.registers m A1) (guest.registers m A2) (guest.registers m A3)
  have called : ⟨fread, (perform fread ()).1⟩ ∈ (fileOperation guest m).calls perform () := by
    rw [fileOperation_fread guest number, mem_calls_freadSyscall]
    exact ⟨le_maxRead_iff.mpr small, rfl⟩
  obtain ⟨fits, limit, -⟩ := bounded Unit perform () _ _ _ _ _ called
  omega

/-- The limit is compared with the wrapped product and the buffer has its length, while `fread` has
the two factors: it stays within the buffer exactly if the product does not wrap around, or is still
over the limit after that. -/
theorem freadBounded_iff (m : M) :
    FreadBounded guest m ↔
      (guest.registers m A7 = freadSyscallNumber →
        (guest.registers m A1).toNat * (guest.registers m A2).toNat < 2 ^ 64 ∨
          3 * 1024 * 1024 < (guest.registers m A1).toNat * (guest.registers m A2).toNat % 2 ^ 64) := by
  constructor
  · intro bounded number
    by_contra wraps
    obtain ⟨wrapped, small⟩ := not_or.mp wraps
    exact not_freadBounded guest number (Nat.not_lt.mp wrapped) (Nat.not_lt.mp small) bounded
  · intro safe W perform w bufLen size nitems stream result mem
    by_cases number : guest.registers m A7 = freadSyscallNumber
    · rw [fileOperation_fread guest number, mem_calls_freadSyscall] at mem
      obtain ⟨below, same⟩ := mem
      obtain ⟨rfl, rfl, rfl, rfl⟩ := LibcCall.fread.inj (congrArg Sigma.fst same)
      rw [le_maxRead_iff] at below
      have unwrapped : (guest.registers m A1).toNat * (guest.registers m A2).toNat < 2 ^ 64 :=
        (safe number).resolve_right (Nat.not_lt.mpr below)
      rw [Nat.mod_eq_of_lt unwrapped] at below
      have length : (guest.registers m A2 * guest.registers m A1).toNat =
          (guest.registers m A1).toNat * (guest.registers m A2).toNat := by
        rw [UInt64.toNat_mul, Nat.mul_comm, Nat.mod_eq_of_lt unwrapped]
      rw [length]
      refine ⟨le_rfl, below, fun readCount le => ?_⟩
      rw [Nat.mul_comm]
      exact Nat.mul_le_mul_left _ le
    · exact absurd rfl (readsNothing_fileOperation guest number W perform w _ mem bufLen size nitems stream)

end Guest

/-- A machine of registers alone. -/
def registersOnly : Guest (Fin 32 → UInt64) where
  registers m := m
  setRegister r value m := Function.update m r value
  load64 _ _ := .ok 0
  storeBytes _ _ m := (.ok (), m)

/-- 2^32 items of 2^32 bytes are read into an empty buffer. -/
theorem fread_overruns : ¬ FreadBounded registersOnly fun r =>
    if r = A7 then freadSyscallNumber else if r = A1 ∨ r = A2 then 4294967296 else 0 := by
  apply not_freadBounded
  · decide
  · decide
  · decide

end Cli
