import CkbDebugger.Bytes.LittleEndian
import CkbDebugger.GdbRemote.Escaping
import CkbDebugger.GdbRemote.Reply

/-!
# Replies that carry the data of host files

What `host_pread`, `host_readlink` and `host_fstat` return is sent after its length, escaped. The
client gets back the same bytes, and from the bytes of a file's status the same status.
-/
namespace GdbRemote

open Nom

/-! ### Reading a file status -/

/-- Reading from a cursor over bytes, which fails when they end too early. -/
abbrev Cursor (α : Type) := StateT Bytes Option α

/-- A number of bytes, most significant first. -/
def readBigEndian (width : Nat) : Cursor Nat := fun v =>
  if width ≤ v.length then some (Bytes.leValue (v.take width).reverse, v.drop width) else none

def readU32 : Cursor UInt32 := do return UInt32.ofNat (← readBigEndian 4)

def readU64 : Cursor UInt64 := do return UInt64.ofNat (← readBigEndian 8)

def readStatFields : Cursor HostStat := do
  let stDev ← readU32
  let stIno ← readU32
  let stMode ← readU32
  let stNlink ← readU32
  let stUid ← readU32
  let stGid ← readU32
  let stRdev ← readU32
  let stSize ← readU64
  let stBlksize ← readU64
  let stBlocks ← readU64
  let stAtime ← readU32
  let stMtime ← readU32
  let stCtime ← readU32
  return ⟨stDev, stIno, .fromBitsTruncate stMode, stNlink, stUid, stGid, stRdev, stSize, stBlksize, stBlocks,
    stAtime, stMtime, stCtime⟩

/-- `read_stat`. The bytes after the status are not looked at. -/
def readStat (v : Bytes) : Option HostStat := (readStatFields v).map Prod.fst

/-! ### Cursors -/

theorem cursor_bind {α β : Type} {p : Cursor α} {v rest : Bytes} {a : α} (read : p v = some (a, rest))
    (f : α → Cursor β) : (p >>= f) v = f a rest := by
  simp only [bind, StateT.bind, read, Option.bind_some]

theorem cursor_bind_some {α β : Type} {p : Cursor α} {f : α → Cursor β} {v final : Bytes} {b : β}
    (read : (p >>= f) v = some (b, final)) : ∃ a rest, p v = some (a, rest) ∧ f a rest = some (b, final) := by
  obtain ⟨⟨a, rest⟩, first, others⟩ := Option.bind_eq_some_iff.mp read
  exact ⟨a, rest, first, others⟩

/-! ### Big-endian numbers -/

theorem bigEndian_succ (width n : Nat) :
    bigEndian (width + 1) n = UInt8.ofNat (n / 256 ^ width) :: bigEndian width n := by
  simp only [bigEndian, List.range_succ_eq_map, List.map_cons, List.map_map, Nat.add_sub_cancel, Nat.sub_zero]
  congr 1
  apply List.map_congr_left
  intro i _
  simp only [Function.comp, Nat.succ_eq_add_one]
  congr 3
  omega

@[simp] theorem length_bigEndian (width n : Nat) : (bigEndian width n).length = width := by
  simp only [bigEndian, List.length_map, List.length_range]

/-- A number is written the same way from either end. -/
theorem leBytes_append (width n : Nat) :
    Bytes.leBytes (width + 1) n = Bytes.leBytes width n ++ [UInt8.ofNat (n / 256 ^ width)] := by
  induction width generalizing n with
  | zero => simp [Bytes.leBytes]
  | succ width ih =>
    have next : n / 256 / 256 ^ width = n / 256 ^ (width + 1) := by rw [Nat.div_div_eq_div_mul, Nat.pow_succ']
    rw [Bytes.leBytes, ih, next]
    rfl

theorem bigEndian_eq_reverse (width n : Nat) : bigEndian width n = (Bytes.leBytes width n).reverse := by
  induction width with
  | zero => rfl
  | succ width ih => rw [bigEndian_succ, leBytes_append, List.reverse_append, ih]; rfl

theorem readBigEndian_append {width n : Nat} (fits : n < 256 ^ width) (rest : Bytes) :
    readBigEndian width (bigEndian width n ++ rest) = some (n, rest) := by
  have inside : width ≤ (bigEndian width n ++ rest).length := by simp
  have front : (bigEndian width n ++ rest).take width = bigEndian width n := by
    rw [List.take_left' (length_bigEndian width n)]
  have back : (bigEndian width n ++ rest).drop width = rest := by
    rw [List.drop_left' (length_bigEndian width n)]
  rw [readBigEndian, if_pos inside, front, back, bigEndian_eq_reverse, List.reverse_reverse,
    Bytes.leValue_leBytes_of_lt width fits]

theorem readBigEndian_length {width n : Nat} {v rest : Bytes} (read : readBigEndian width v = some (n, rest)) :
    v.length = width + rest.length := by
  unfold readBigEndian at read
  split at read
  · cases read
    rw [List.length_drop]
    omega
  · cases read

theorem readU32_append (n : UInt32) (rest : Bytes) : readU32 (writeU32 n ++ rest) = some (n, rest) := by
  rw [readU32, writeU32, cursor_bind (readBigEndian_append n.toNat_lt rest), UInt32.ofNat_toNat]
  rfl

theorem readU64_append (n : UInt64) (rest : Bytes) : readU64 (writeU64 n ++ rest) = some (n, rest) := by
  rw [readU64, writeU64, cursor_bind (readBigEndian_append n.toNat_lt rest), UInt64.ofNat_toNat]
  rfl

theorem readU32_length {v rest : Bytes} {n : UInt32} (read : readU32 v = some (n, rest)) :
    v.length = 4 + rest.length := by
  obtain ⟨_, _, found, same⟩ := cursor_bind_some read
  cases same
  exact readBigEndian_length found

theorem readU64_length {v rest : Bytes} {n : UInt64} (read : readU64 v = some (n, rest)) :
    v.length = 8 + rest.length := by
  obtain ⟨_, _, found, same⟩ := cursor_bind_some read
  cases same
  exact readBigEndian_length found

/-! ### The status as a whole -/

theorem length_writeStat (stat : HostStat) : (writeStat stat).length = 64 := by
  simp [writeStat, writeU32, writeU64]

theorem readStat_writeStat {stat : HostStat}
    (known : HostMode.fromBitsTruncate stat.stMode.bits = stat.stMode) :
    readStat (writeStat stat) = some stat := by
  have whole : writeStat stat = writeStat stat ++ [] := by rw [List.append_nil]
  rw [readStat, whole, writeStat, readStatFields]
  simp only [List.append_assoc]
  rw [cursor_bind (readU32_append _ _), cursor_bind (readU32_append _ _), cursor_bind (readU32_append _ _),
    cursor_bind (readU32_append _ _), cursor_bind (readU32_append _ _), cursor_bind (readU32_append _ _),
    cursor_bind (readU32_append _ _), cursor_bind (readU64_append _ _), cursor_bind (readU64_append _ _),
    cursor_bind (readU64_append _ _), cursor_bind (readU32_append _ _), cursor_bind (readU32_append _ _),
    cursor_bind (readU32_append _ _), known]
  rfl

theorem readStat_length {v : Bytes} {stat : HostStat} (read : readStat v = some stat) : 64 ≤ v.length := by
  obtain ⟨⟨_, final⟩, read, _⟩ := Option.map_eq_some_iff.mp read
  obtain ⟨_, _, dev, read⟩ := cursor_bind_some read
  obtain ⟨_, _, ino, read⟩ := cursor_bind_some read
  obtain ⟨_, _, mode, read⟩ := cursor_bind_some read
  obtain ⟨_, _, nlink, read⟩ := cursor_bind_some read
  obtain ⟨_, _, uid, read⟩ := cursor_bind_some read
  obtain ⟨_, _, gid, read⟩ := cursor_bind_some read
  obtain ⟨_, _, rdev, read⟩ := cursor_bind_some read
  obtain ⟨_, _, size, read⟩ := cursor_bind_some read
  obtain ⟨_, _, blksize, read⟩ := cursor_bind_some read
  obtain ⟨_, _, blocks, read⟩ := cursor_bind_some read
  obtain ⟨_, _, atime, read⟩ := cursor_bind_some read
  obtain ⟨_, _, mtime, read⟩ := cursor_bind_some read
  obtain ⟨_, _, ctime, read⟩ := cursor_bind_some read
  rw [readU32_length dev, readU32_length ino, readU32_length mode, readU32_length nlink, readU32_length uid,
    readU32_length gid, readU32_length rdev, readU64_length size, readU64_length blksize, readU64_length blocks,
    readU32_length atime, readU32_length mtime, readU32_length ctime]
  omega

/-! ### The replies -/

/-- `binary_byte`, repeated to the end. -/
def unescape : Parser Bytes := many0 binaryByte

theorem unescape_written (data : Bytes) : unescape (writeBinaryData data).flatten = .done [] data :=
  many0_of_collects consumes_binaryByte (binaryData_collects data) (Or.inl rfl)

/-- A payload that announces the length of some data and goes on with the data, escaped. -/
def Announces (payload data : Bytes) : Prop :=
  ∃ escaped, payload = ascii "F" ++ (lowerHex data.length ++ (ascii ";" ++ escaped)) ∧
    unescape escaped = .done [] data

theorem data_announced (data : Bytes) : Announces (Response.hostIOResult (.data data)).payload data := by
  refine ⟨(writeBinaryData data).flatten, ?_, unescape_written data⟩
  simp only [Response.payload, Response.pieces, HostIOResult.pieces, List.cons_append, List.nil_append,
    List.flatten_cons]

theorem stat_announced (stat : HostStat) :
    Announces (Response.hostIOResult (.stat stat)).payload (writeStat stat) := by
  refine ⟨(writeBinaryData (writeStat stat)).flatten, ?_, unescape_written (writeStat stat)⟩
  simp only [Response.payload, Response.pieces, HostIOResult.pieces, List.cons_append, List.nil_append,
    List.flatten_cons]

section Serving

variable {σ : Type} {h : Handler σ} {server : Server σ}

/-- With a file system, an operation is asked for after `fs`. -/
theorem fsAndThen_runOn {α : Type} {operation : Service σ (IOResult α)} {state : σ}
    (offers : h .fs server.handler = some (true, state)) :
    (fsAndThen h operation).runOn server =
      operation.runOn ⟨state, server.calls ++ [.fs], server.output⟩ := by
  rw [fsAndThen, runOn_bind, runOn_call_of_answer offers]
  rfl

/-- A host file request that is answered with a value gets that value as its reply. -/
theorem answered_hostFile {α : Type} {packet rest : Bytes} {cmd : Command} {into : α → HostIOResult}
    {operation : Service σ (IOResult α)} {opened : σ} {middle : Server σ} {value : α}
    (parsed : command packet = .done rest cmd)
    (handles : handleCommand h cmd = do return .fromIOResult into (← fsAndThen h operation))
    (offers : h .fs server.handler = some (true, opened))
    (answers : operation.runOn ⟨opened, server.calls ++ [.fs], server.output⟩ =
      (some (some (.ok value)), middle)) :
    ∃ after, Answered h server packet (Response.hostIOResult (into value)).payload after := by
  have ran : (handleCommand h cmd).runOn server = (some (.hostIOResult (into value)), middle) := by
    simp only [handles, runOn_bind, fsAndThen_runOn offers, answers, runOn_pure, Response.fromIOResult]
  obtain ⟨after, answered, _⟩ := answered_of_response parsed ran
  exact ⟨after, answered⟩

/-- What the file system returns reaches the client: the bytes of a file or of a link behind their
number, and a file's status as 64 bytes that `read_stat` turns into the status again. `read_stat`
fails on fewer bytes. -/
theorem host_file_replies_intact (h : Handler σ) (server : Server σ) {opened : σ}
    (offers : h .fs server.handler = some (true, opened)) :
    (∀ packet rest fd count offset v state,
      command packet = .done rest (.hostPRead fd count offset) →
      h (.hostPread fd count offset) opened = some (some (.ok v), state) →
      ∃ payload after, Answered h server packet payload after ∧ Announces payload v) ∧
    (∀ packet rest filename v state,
      command packet = .done rest (.hostReadlink filename) →
      h (.hostReadlink filename) opened = some (some (.ok v), state) →
      ∃ payload after, Answered h server packet payload after ∧ Announces payload v) ∧
    (∀ packet rest fd stat state,
      command packet = .done rest (.hostFStat fd) →
      h (.hostFstat fd) opened = some (some (.ok stat), state) →
      HostMode.fromBitsTruncate stat.stMode.bits = stat.stMode →
      ∃ escaped bytes after, Answered h server packet (ascii "F40;" ++ escaped) after ∧
        unescape escaped = .done [] bytes ∧ bytes.length = 64 ∧ readStat bytes = some stat) ∧
    ∀ short, short.length < 64 → readStat short = none := by
  refine ⟨?_, ?_, ?_, ?_⟩
  · intro packet rest fd count offset v state parsed answers
    obtain ⟨after, answered⟩ := answered_hostFile parsed rfl offers (runOn_call_of_answer answers)
    exact ⟨_, after, answered, data_announced v⟩
  · intro packet rest filename v state parsed answers
    obtain ⟨after, answered⟩ := answered_hostFile parsed rfl offers (runOn_call_of_answer answers)
    exact ⟨_, after, answered, data_announced v⟩
  · intro packet rest fd stat state parsed answers known
    -- 64 bytes, which is 40 in hexadecimal
    obtain ⟨escaped, payload, read⟩ := stat_announced stat
    obtain ⟨after, answered⟩ := answered_hostFile parsed rfl offers (runOn_call_of_answer answers)
    rw [payload, length_writeStat] at answered
    exact ⟨escaped, writeStat stat, after, answered, read, length_writeStat stat, readStat_writeStat known⟩
  · intro short missing
    cases read : readStat short with
    | none => rfl
    | some stat => exact absurd (readStat_length read) (by omega)

end Serving

/-- One file, whose bytes all have to be escaped. -/
def oneFile : Handler Unit := fun call state =>
  match call with
  | .fs => some (true, state)
  | .hostPread .. => some (some (.ok [35, 125]), state)
  | .hostFstat _ => some (some (.ok ⟨1, 2, ⟨0o100644⟩, 1, 0, 0, 0, 2, 512, 1, 35, 36, 42⟩), state)
  | _ => none

theorem oneFile_read :
    ∃ payload after, Answered oneFile ⟨(), [], []⟩ (ascii "vFile:pread:5,2,0") payload after ∧
      Announces payload [35, 125] := by
  obtain ⟨data, _, _, _⟩ := host_file_replies_intact oneFile ⟨(), [], []⟩ rfl
  exact data _ [] 5 2 0 [35, 125] () (by decide) rfl

end GdbRemote
