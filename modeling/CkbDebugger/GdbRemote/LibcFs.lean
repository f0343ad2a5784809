import CkbDebugger.GdbRemote.Handler

/-!
# The file system of the host

`LibcFS` hands the requests for host files on to the C library. The library is a parameter: it works on a
state of the system, which is the handler's.
-/
namespace GdbRemote

/-! ### Flags -/

/-- `map_flags!`: the counterparts of the flags that are set. -/
def mapFlags (table : List (UInt32 × UInt32)) (inflags : UInt32) : UInt32 :=
  table.foldl (fun flags (inflag, outflag) => if inflags &&& inflag = inflag then flags ||| outflag else flags) 0

/-- The modes of the protocol with those of the library, from `S_IFREG` to `S_IXOTH`. -/
def modeTable : List (UInt32 × UInt32) :=
  [(0o100000, 0o100000), (0o40000, 0o40000), (0o400, 0o400), (0o200, 0o200), (0o100, 0o100), (0o40, 0o40),
    (0o20, 0o20), (0o10, 0o10), (0o4, 0o4), (0o2, 0o2), (0o1, 0o1)]

/-- `O_WRONLY`, `O_RDWR`, `O_APPEND`, `O_CREAT`, `O_TRUNC` and `O_EXCL`. -/
def openTable : List (UInt32 × UInt32) :=
  [(0x1, 0o1), (0x2, 0o2), (0x8, 0o2000), (0x200, 0o100), (0x400, 0o1000), (0x800, 0o200)]

def HostMode.fromLibc (mode : UInt32) : HostMode := ⟨mapFlags (modeTable.map Prod.swap) mode⟩

def HostMode.intoLibc (mode : HostMode) : UInt32 := mapFlags modeTable mode.bits

def HostOpenFlags.fromLibc (flags : UInt32) : HostOpenFlags := ⟨mapFlags (openTable.map Prod.swap) flags⟩

/-- The flag for reading alone, which is added without the two for writing, is zero. -/
def HostOpenFlags.intoLibc (flags : HostOpenFlags) : UInt32 := mapFlags openTable flags.bits

/-- Flags with one bit each, by the positions of the bits. -/
def flagsAt (positions : List (Nat × Nat)) : List (UInt32 × UInt32) :=
  positions.map fun (i, j) => (⟨BitVec.twoPow 32 i⟩, ⟨BitVec.twoPow 32 j⟩)

theorem has_twoPow_iff {x : UInt32} {i : Nat} (inside : i < 32) :
    x &&& ⟨BitVec.twoPow 32 i⟩ = ⟨BitVec.twoPow 32 i⟩ ↔ x.toBitVec.getLsbD i = true := by
  rw [← UInt32.toBitVec_inj, UInt32.toBitVec_and, BitVec.and_twoPow]
  constructor
  · intro same
    have bit := congrArg (fun b : BitVec 32 => b.getLsbD i) same
    split at bit
    next set => exact set
    next => simp [inside] at bit
  · intro set
    rw [if_pos set]

theorem mapFlags_bit (positions : List (Nat × Nat)) (inside : ∀ e ∈ positions, e.1 < 32) (x : UInt32) (k : Nat) :
    (mapFlags (flagsAt positions) x).toBitVec.getLsbD k = true ↔
      ∃ e ∈ positions, x.toBitVec.getLsbD e.1 = true ∧ e.2 < 32 ∧ e.2 = k := by
  have folded (flags : UInt32) : ((flagsAt positions).foldl
      (fun flags (inflag, outflag) => if x &&& inflag = inflag then flags ||| outflag else flags)
        flags).toBitVec.getLsbD k
        = true ↔ flags.toBitVec.getLsbD k = true ∨
      ∃ e ∈ positions, x.toBitVec.getLsbD e.1 = true ∧ e.2 < 32 ∧ e.2 = k := by
    induction positions generalizing flags with
    | nil => simp [flagsAt]
    | cons e positions ih =>
      obtain ⟨i, j⟩ := e
      have first : i < 32 := inside _ List.mem_cons_self
      simp only [flagsAt, List.map_cons, List.foldl_cons] at ih ⊢
      rw [ih (fun e member => inside e (List.mem_cons_of_mem _ member))]
      by_cases set : x.toBitVec.getLsbD i = true
      · simp [(has_twoPow_iff first).mpr set, set, or_assoc]
      · simp [mt (has_twoPow_iff first).mp set, set]
  rw [mapFlags, folded 0]
  simp

/-- Flags come back from their counterparts, when no two of them have the same one. -/
theorem mapFlags_back {positions : List (Nat × Nat)} (inside : ∀ e ∈ positions, e.1 < 32 ∧ e.2 < 32)
    (apart : ∀ a ∈ positions, ∀ b ∈ positions, a.2 = b.2 → a.1 = b.1) {x : UInt32}
    (known : ∀ k < 32, x.toBitVec.getLsbD k = true → ∃ e ∈ positions, e.1 = k) :
    mapFlags (flagsAt (positions.map Prod.swap)) (mapFlags (flagsAt positions) x) = x := by
  rw [← UInt32.toBitVec_inj]
  apply BitVec.eq_of_getLsbD_eq
  intro k small
  have swapped : ∀ e ∈ positions.map Prod.swap, e.1 < 32 := by
    intro e member
    obtain ⟨b, original, rfl⟩ := List.mem_map.mp member
    exact (inside b original).2
  rw [Bool.eq_iff_iff, mapFlags_bit _ swapped]
  constructor
  · rintro ⟨e, member, set, -, rfl⟩
    obtain ⟨b, original, rfl⟩ := List.mem_map.mp member
    obtain ⟨a, other, set, -, same⟩ := (mapFlags_bit _ (fun e member => (inside e member).1) _ _).mp set
    -- the counterpart that is set comes from the flag itself
    rw [Prod.snd_swap, ← apart a other b original same]
    exact set
  · intro set
    obtain ⟨e, member, rfl⟩ := known k small set
    refine ⟨e.swap, List.mem_map_of_mem member, ?_, small, rfl⟩
    exact (mapFlags_bit _ (fun e member => (inside e member).1) _ _).mpr ⟨e, member, set, (inside e member).2, rfl⟩

theorem known_bit {x all : UInt32} (masked : x &&& all = x) {k : Nat} (set : x.toBitVec.getLsbD k = true) :
    all.toBitVec.getLsbD k = true := by
  rw [← masked, UInt32.toBitVec_and, BitVec.getLsbD_and, Bool.and_eq_true] at set
  exact set.2

/-- The library is asked to open a file as the client asked for it. -/
theorem openFlags_fromLibc_intoLibc (flags : HostOpenFlags) (known : .fromBitsTruncate flags.bits = flags) :
    HostOpenFlags.fromLibc flags.intoLibc = flags := by
  have masked : flags.bits &&& HostOpenFlags.all = flags.bits := congrArg HostOpenFlags.bits known
  have back := @mapFlags_back [(0, 0), (1, 1), (3, 10), (9, 6), (10, 9), (11, 7)] (by decide) (by decide) flags.bits
    fun k small set => by
      have bits : ∀ k < 32, HostOpenFlags.all.toBitVec.getLsbD k = true →
          ∃ e ∈ [(0, 0), (1, 1), (3, 10), (9, 6), (10, 9), (11, 7)], e.1 = k := by decide
      exact bits k small (known_bit masked set)
  exact congrArg HostOpenFlags.mk back

theorem mode_fromLibc_intoLibc (mode : HostMode) (known : .fromBitsTruncate mode.bits = mode) :
    HostMode.fromLibc mode.intoLibc = mode := by
  have masked : mode.bits &&& HostMode.all = mode.bits := congrArg HostMode.bits known
  have back := @mapFlags_back
    [(15, 15), (14, 14), (8, 8), (7, 7), (6, 6), (5, 5), (4, 4), (3, 3), (2, 2), (1, 1), (0, 0)]
    (by decide) (by decide) mode.bits fun k small set => by
      have bits : ∀ k < 32, HostMode.all.toBitVec.getLsbD k = true → ∃ e ∈ [(15, 15), (14, 14), (8, 8), (7, 7), (6, 6),
          (5, 5), (4, 4), (3, 3), (2, 2), (1, 1), (0, 0)], e.1 = k := by decide
      exact bits k small (known_bit masked set)
  exact congrArg HostMode.mk back

/-! ### The C library -/

/-- The fields of `libc::stat` that are read. -/
structure LibcStat where
  stIno : UInt64
  stMode : UInt32
  stNlink : UInt64
  stUid : UInt32
  stGid : UInt32
  stRdev : UInt64
  stSize : Int64
  stBlksize : Int64
  stBlocks : Int64
  stAtime : Int64
  stMtime : Int64
  stCtime : Int64
  deriving Repr, DecidableEq

/-- The functions of the library. Where one fills a buffer, it returns what is in the buffer then, or nothing
if it fails. -/
structure Libc (σ : Type) where
  openFile : Bytes → UInt32 → UInt32 → σ → Int32 × σ
  close : Int32 → σ → Int32 × σ
  pread : Int32 → UInt64 → Int64 → σ → Option Bytes × σ
  pwrite : Int32 → Bytes → Int64 → σ → Int64 × σ
  fstat : Int32 → σ → Option LibcStat × σ
  errno : σ → UInt32

/-- `HostErrno::from_libc`. -/
def HostErrno.fromLibc (errno : UInt32) : HostErrno :=
  match errno.toNat with
  | 1 => .EPERM
  | 2 => .ENOENT
  | 4 => .EINTR
  | 9 => .EBADF
  | 13 => .EACCES
  | 14 => .EFAULT
  | 16 => .EBUSY
  | 17 => .EEXIST
  | 19 => .ENODEV
  | 20 => .ENOTDIR
  | 21 => .EISDIR
  | 22 => .EINVAL
  | 23 => .ENFILE
  | 24 => .EMFILE
  | 27 => .EFBIG
  | 28 => .ENOSPC
  | 29 => .ESPIPE
  | 30 => .EROFS
  | 36 => .ENAMETOOLONG
  | _ => .EUNKNOWN

namespace LibcFS

variable {σ : Type} (libc : Libc σ)

def errno (state : σ) : HostErrno := .fromLibc (libc.errno state)

/-- The descriptors and offsets of the protocol have 64 bits, those of the library 32 bits and a sign. -/
def descriptor (fd : UInt64) : Int32 := fd.toUInt32.toInt32

/-- The largest capacity of a vector of bytes. -/
def maxCapacity : UInt64 := 0x7fffffffffffffff

def hostOpen (filename : Bytes) (flags : HostOpenFlags) (mode : HostMode) (state : σ) : IOResult UInt64 × σ :=
  -- a zero would end the name
  if 0 ∈ filename then (some (.error .ENOENT), state)
  else
    let (fd, state) := libc.openFile filename flags.intoLibc mode.intoLibc state
    if fd ≥ 0 then (some (.ok fd.toUInt32.toUInt64), state) else (some (.error (errno libc state)), state)

def hostClose (fd : UInt64) (state : σ) : IOResult Unit × σ :=
  let (result, state) := libc.close (descriptor fd) state
  if result = 0 then (some (.ok ()), state) else (some (.error (errno libc state)), state)

def hostPread (fd count offset : UInt64) (state : σ) : Option (IOResult Bytes × σ) :=
  -- no buffer of that capacity is allocated
  if count > maxCapacity then none
  else
    match libc.pread (descriptor fd) count offset.toInt64 state with
    | (some data, state) => some (some (.ok data), state)
    | (none, state) => some (some (.error (errno libc state)), state)

def hostPwrite (fd offset : UInt64) (data : Bytes) (state : σ) : IOResult UInt64 × σ :=
  let (written, state) := libc.pwrite (descriptor fd) data offset.toInt64 state
  if written ≥ 0 then (some (.ok written.toUInt64), state) else (some (.error (errno libc state)), state)

def hostFstat (fd : UInt64) (state : σ) : IOResult HostStat × σ :=
  match libc.fstat (descriptor fd) state with
  | (some stat, state) =>
    -- the device says that it is a file
    (some (.ok ⟨0, stat.stIno.toUInt32, .fromLibc stat.stMode, stat.stNlink.toUInt32, stat.stUid, stat.stGid,
      stat.stRdev.toUInt32, stat.stSize.toUInt64, stat.stBlksize.toUInt64, stat.stBlocks.toUInt64,
      stat.stAtime.toUInt64.toUInt32, stat.stMtime.toUInt64.toUInt32, stat.stCtime.toUInt64.toUInt32⟩), state)
  | (none, state) => (some (.error (errno libc state)), state)

end LibcFS

/-- A handler that offers the files of the host. Links, removals and other file systems are not supported. -/
def Handler.withLibcFS {σ : Type} (h : Handler σ) (libc : Libc σ) : Handler σ
  | .fs, state => some (true, state)
  | .hostOpen filename flags mode, state => some (LibcFS.hostOpen libc filename flags mode state)
  | .hostClose fd, state => some (LibcFS.hostClose libc fd state)
  | .hostPread fd count offset, state => LibcFS.hostPread libc fd count offset state
  | .hostPwrite fd offset data, state => some (LibcFS.hostPwrite libc fd offset data state)
  | .hostFstat fd, state => some (LibcFS.hostFstat libc fd state)
  | .hostUnlink _, state => some (none, state)
  | .hostReadlink _, state => some (none, state)
  | .hostSetfs _, state => some (none, state)
  | call, state => h call state

end GdbRemote
