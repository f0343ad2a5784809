import Mathlib.Data.List.Pairwise
import CkbDebugger.Bytes.LittleEndian
import CkbDebugger.CkbVm.Machine

/-!
# Segments of a memory image

The dumper walks over the memory page by page and word by word, and collects
the non-zero words into segments. A word goes to the last segment when that
segment has the same kind and ends close enough, or on the same page; the gap is
then filled with zeros.
-/
namespace ElfDumper

export Bytes (leBytes leValue)

/-- `RISCV_PAGESIZE`. -/
def pageSize : Nat := 4096

/-- `RISCV_PAGES`. -/
def pages : Nat := 1024

/-- `FLAG_WXORX_BIT`, and `FLAG_EXECUTABLE`, which is the same bit. -/
def flagWxorxBit : UInt8 := 0b10

/-- What the dumper reads of the machine: registers, program counter, memory
bytes and page flags. -/
structure Machine where
  registers : Fin 32 → UInt64
  pc : UInt64
  memory : Nat → UInt8
  flags : Nat → UInt8

/-- The memory bytes from an address on. -/
def Machine.bytes (m : Machine) (start len : Nat) : List UInt8 :=
  (List.range len).map fun i => m.memory (start + i)

def Machine.load64 (m : Machine) (address : Nat) : Nat := leValue (m.bytes address 8)

def Machine.executable (m : Machine) (page : Nat) : Bool :=
  m.flags page &&& flagWxorxBit == flagWxorxBit

structure Segment where
  start : Nat
  data : List UInt8
  executable : Bool
  deriving Repr, DecidableEq

def Segment.stop (segment : Segment) : Nat := segment.start + segment.data.length

def Segment.firstPage (segment : Segment) : Nat := segment.start / pageSize

def Segment.firstPageAddress (segment : Segment) : Nat := segment.firstPage * pageSize

def Segment.lastPage (segment : Segment) : Nat := (segment.start + segment.data.length - 1) / pageSize

/-! ### The loops -/

/-- The first loop over a page: find the next non-zero word. -/
def skipZeros (m : Machine) (start stop : Nat) : Nat :=
  if start < stop then
    if m.load64 start ≠ 0 then start else skipZeros m (start + 8) stop
  else start
  termination_by stop - start

/-- The second loop over a page: append words up to the next zero word. -/
def appendNonZero (m : Machine) (start stop : Nat) (data : List UInt8) : Nat × List UInt8 :=
  if start < stop then
    if m.load64 start = 0 then (start, data)
    else appendNonZero m (start + 8) stop (data ++ leBytes 8 (m.load64 start))
  else (start, data)
  termination_by stop - start

/-- Whether to append to the last segment: the segments to keep, and the start and
the data of the segment to write to. -/
def openSegment (maximumZeroGap : Nat) (segments : List Segment) (page start : Nat)
    (executable : Bool) : List Segment × Nat × List UInt8 :=
  match segments.getLast? with
  | none => (segments, start, [])
  | some lastSegment =>
    let samePage := page = lastSegment.lastPage
    -- on one page the gap does not matter: two segments never share a page
    let gap := start - (lastSegment.start + lastSegment.data.length)
    if lastSegment.executable = executable ∧ (gap ≤ maximumZeroGap ∨ samePage) then
      (segments.dropLast, lastSegment.start, lastSegment.data ++ List.replicate gap 0)
    else (segments, start, [])

theorem appendNonZero_le (m : Machine) (start stop : Nat) (data : List UInt8) :
    start ≤ (appendNonZero m start stop data).1 := by
  fun_induction appendNonZero m start stop data with
  | case1 => exact le_refl _
  | case2 _ _ _ _ ih => omega
  | case3 => exact le_refl _

theorem skipZeros_le (m : Machine) (start stop : Nat) : start ≤ skipZeros m start stop := by
  fun_induction skipZeros m start stop with
  | case1 => exact le_refl _
  | case2 _ _ _ ih => omega
  | case3 => exact le_refl _

/-- The skipping loop stops in front of a non-zero word. -/
theorem load64_skipZeros (m : Machine) (start stop : Nat) (inside : skipZeros m start stop < stop) :
    m.load64 (skipZeros m start stop) ≠ 0 := by
  fun_induction skipZeros m start stop with
  | case1 _ _ nonzero => exact nonzero
  | case2 _ _ _ ih => exact ih inside
  | case3 => omega

theorem lt_appendNonZero (m : Machine) (start stop : Nat) (data : List UInt8) (inside : start < stop)
    (nonzero : m.load64 start ≠ 0) : start + 8 ≤ (appendNonZero m start stop data).1 := by
  rw [appendNonZero, if_pos inside, if_neg nonzero]
  exact appendNonZero_le m (start + 8) stop (data ++ leBytes 8 (m.load64 start))

theorem scan_advances (m : Machine) (start stop : Nat) (data : List UInt8)
    (found : skipZeros m start stop < stop) :
    start < (appendNonZero m (skipZeros m start stop) stop data).1 := by
  have skipped := skipZeros_le m start stop
  have appended := lt_appendNonZero m _ stop data found (load64_skipZeros m start stop found)
  omega

/-- The words of a page from `start` on. -/
def scanPage (maximumZeroGap : Nat) (m : Machine) (page start stop : Nat)
    (segments : List Segment) : List Segment :=
  if start < stop then
    let found := skipZeros m start stop
    if found < stop then
      let executable := m.executable page
      let opened := openSegment maximumZeroGap segments page found executable
      let appended := appendNonZero m found stop opened.2.2
      scanPage maximumZeroGap m page appended.1 stop
        (opened.1 ++ [⟨opened.2.1, appended.2, executable⟩])
    else segments
  else segments
  termination_by stop - start
  decreasing_by exact Nat.sub_lt_sub_left ‹_› (scan_advances m start stop _ ‹_›)

/-- All non-empty data of the memory. -/
def extractSegments (maximumZeroGap : Nat) (m : Machine) : List Segment :=
  (List.range pages).foldl (fun segments page =>
    scanPage maximumZeroGap m page (page * pageSize) ((page + 1) * pageSize) segments) []

/-! ### What the loops over words do -/

@[simp] theorem length_bytes (m : Machine) (start len : Nat) : (m.bytes start len).length = len := by
  simp [Machine.bytes]

theorem bytes_add (m : Machine) (start first second : Nat) :
    m.bytes start (first + second) = m.bytes start first ++ m.bytes (start + first) second := by
  simp only [Machine.bytes, List.range_add, List.map_append, List.map_map]
  congr 1
  apply List.map_congr_left
  intro i _
  simp only [Function.comp_apply, Nat.add_assoc]

theorem bytes_eq_zeros {m : Machine} {start len : Nat}
    (zeros : ∀ a, start ≤ a → a < start + len → m.memory a = 0) :
    m.bytes start len = List.replicate len 0 := by
  rw [List.eq_replicate_iff]
  refine ⟨length_bytes m start len, ?_⟩
  intro b member
  simp only [Machine.bytes, List.mem_map, List.mem_range] at member
  obtain ⟨i, inside, rfl⟩ := member
  exact zeros _ (by omega) (by omega)

theorem load64_eq_zero {m : Machine} {address : Nat} (zero : m.load64 address = 0) {a : Nat}
    (above : address ≤ a) (below : a < address + 8) : m.memory a = 0 := by
  rw [Machine.load64, Bytes.leValue_eq_zero_iff] at zero
  obtain ⟨i, rfl⟩ := Nat.exists_eq_add_of_le above
  apply zero
  simp only [Machine.bytes, List.mem_map, List.mem_range]
  exact ⟨i, by omega, rfl⟩

theorem leBytes_load64 (m : Machine) (address : Nat) :
    leBytes 8 (m.load64 address) = m.bytes address 8 := by
  have whole := Bytes.leBytes_leValue (m.bytes address 8)
  rwa [length_bytes] at whole

/-- Addresses of whole words. -/
def Aligned (address : Nat) : Prop := address % 8 = 0

theorem skipZeros_spec (m : Machine) (start stop : Nat) (alignedStart : Aligned start)
    (alignedStop : Aligned stop) (inside : start ≤ stop) :
    Aligned (skipZeros m start stop) ∧ skipZeros m start stop ≤ stop ∧
      ∀ a, start ≤ a → a < skipZeros m start stop → m.memory a = 0 := by
  unfold Aligned at *
  fun_induction skipZeros m start stop with
  | case1 => exact ⟨alignedStart, inside, fun a _ _ => by omega⟩
  | case2 start _ zero ih =>
    obtain ⟨aligned, before, zeros⟩ := ih (by omega) (by omega)
    refine ⟨aligned, before, fun a here there => ?_⟩
    by_cases first : a < start + 8
    · exact load64_eq_zero (not_not.mp zero) here first
    · exact zeros a (by omega) there
  | case3 => exact ⟨alignedStart, inside, fun a _ _ => by omega⟩

theorem appendNonZero_spec (m : Machine) (start stop : Nat) (data : List UInt8)
    (alignedStart : Aligned start) (alignedStop : Aligned stop) (inside : start ≤ stop) :
    Aligned (appendNonZero m start stop data).1 ∧ (appendNonZero m start stop data).1 ≤ stop ∧
      (appendNonZero m start stop data).2 =
        data ++ m.bytes start ((appendNonZero m start stop data).1 - start) := by
  unfold Aligned at *
  fun_induction appendNonZero m start stop data with
  | case1 => exact ⟨alignedStart, inside, by simp [Machine.bytes]⟩
  | case2 start data _ _ ih =>
    obtain ⟨aligned, before, equal⟩ := ih (by omega) (by omega)
    refine ⟨aligned, before, ?_⟩
    have further := appendNonZero_le m (start + 8) stop (data ++ leBytes 8 (m.load64 start))
    rw [equal, leBytes_load64, List.append_assoc, ← bytes_add]
    congr 2
    rw [leBytes_load64] at further
    omega
  | case3 => exact ⟨alignedStart, inside, by simp [Machine.bytes]⟩

/-! ### The invariant of the extraction -/

def Segment.Contains (segment : Segment) (a : Nat) : Prop := segment.start ≤ a ∧ a < segment.stop

/-- The first segment ends, in bytes and in pages, before the second one. -/
def Segment.Before (first second : Segment) : Prop :=
  first.stop ≤ second.start ∧ first.lastPage < second.firstPage

/-- The segments hold what the memory holds below an address. -/
structure Extracted (m : Machine) (segments : List Segment) (address : Nat) : Prop where
  nonempty : ∀ x ∈ segments, x.data ≠ []
  image : ∀ x ∈ segments, x.data = m.bytes x.start x.data.length
  inside : ∀ x ∈ segments, x.stop ≤ address
  begins : ∀ x ∈ segments, Aligned x.start ∧ m.load64 x.start ≠ 0
  kind : ∀ x ∈ segments, x.executable = m.executable x.lastPage
  ordered : segments.Pairwise Segment.Before
  covered : ∀ a < address, m.memory a ≠ 0 →
    ∃ x ∈ segments, x.Contains a ∧ x.executable = m.executable (a / pageSize)

theorem Extracted.nil (m : Machine) : Extracted m [] 0 where
  nonempty := by simp
  image := by simp
  inside := by simp
  begins := by simp
  kind := by simp
  ordered := .nil
  covered := by simp

theorem Extracted.skip {m : Machine} {segments : List Segment} {address further : Nat}
    (extracted : Extracted m segments address) (later : address ≤ further)
    (zeros : ∀ a, address ≤ a → a < further → m.memory a = 0) : Extracted m segments further where
  nonempty := extracted.nonempty
  image := extracted.image
  inside := fun x member => le_trans (extracted.inside x member) later
  begins := extracted.begins
  kind := extracted.kind
  ordered := extracted.ordered
  covered := by
    intro a below nonzero
    by_cases here : a < address
    · exact extracted.covered a here nonzero
    · exact absurd (zeros a (by omega) below) nonzero

theorem Extracted.zero_after_last {m : Machine} {front : List Segment} {last : Segment} {address : Nat}
    (extracted : Extracted m (front ++ [last]) address) {a : Nat} (after : last.stop ≤ a)
    (below : a < address) : m.memory a = 0 := by
  by_contra nonzero
  -- a byte that is not zero lies in some segment, and the last one ends last
  obtain ⟨x, member, contains, _⟩ := extracted.covered a below nonzero
  obtain ⟨_, _, before⟩ := List.pairwise_append.mp extracted.ordered
  rcases List.mem_append.mp member with earlier | latest
  · have order := (before x earlier last (by simp)).1
    have room : last.start ≤ last.stop := Nat.le_add_right _ _
    have reached := contains.2
    omega
  · rw [List.mem_singleton.mp latest] at contains
    have reached := contains.2
    omega

theorem lastPage_le {m : Machine} {segments : List Segment} {address : Nat}
    (extracted : Extracted m segments address) {x : Segment} (member : x ∈ segments) :
    x.firstPage ≤ x.lastPage ∧ x.lastPage ≤ address / pageSize := by
  have some := List.length_pos_of_ne_nil (extracted.nonempty x member)
  have inside := extracted.inside x member
  unfold Segment.stop at inside
  exact ⟨Nat.div_le_div_right (by omega), Nat.div_le_div_right (by omega)⟩

/-- A run of words on one page goes into the segment that starts at `first`. The
segments before it are kept, and what they do not hold goes to it. -/
theorem Extracted.write {m : Machine} {segments front : List Segment} {first page start next : Nat}
    (extracted : Extracted m segments start) (kept : front.Sublist segments)
    (started : first ≤ start) (begun : Aligned first ∧ m.load64 first ≠ 0) (advance : start < next)
    (firstHere : start / pageSize = page) (lastHere : (next - 1) / pageSize = page)
    (before : ∀ x ∈ front, x.stop ≤ first ∧ x.lastPage < first / pageSize)
    (rest : ∀ x ∈ segments, x ∉ front → first ≤ x.start ∧ x.executable = m.executable page) :
    Extracted m (front ++ [⟨first, m.bytes first (next - first), m.executable page⟩]) next := by
  have stop : first + (next - first) = next := by omega
  constructor
  · intro x member
    rcases List.mem_append.mp member with old | new
    · exact extracted.nonempty x (kept.mem old)
    · rw [List.mem_singleton.mp new, ← List.length_pos_iff, length_bytes]
      omega
  · intro x member
    rcases List.mem_append.mp member with old | new
    · exact extracted.image x (kept.mem old)
    · simp only [List.mem_singleton.mp new, length_bytes]
  · intro x member
    rcases List.mem_append.mp member with old | new
    · have earlier := extracted.inside x (kept.mem old)
      omega
    · simp only [List.mem_singleton.mp new, Segment.stop, length_bytes, stop, le_refl]
  · intro x member
    rcases List.mem_append.mp member with old | new
    · exact extracted.begins x (kept.mem old)
    · rw [List.mem_singleton.mp new]
      exact begun
  · intro x member
    rcases List.mem_append.mp member with old | new
    · exact extracted.kind x (kept.mem old)
    · simp only [List.mem_singleton.mp new, Segment.lastPage, length_bytes, stop, lastHere]
  · rw [List.pairwise_append]
    refine ⟨extracted.ordered.sublist kept, List.pairwise_singleton _ _, ?_⟩
    intro x old y new
    rw [List.mem_singleton.mp new]
    exact before x old
  · intro a below nonzero
    -- the new segment holds every address from its start on
    have inNew (above : first ≤ a) : (⟨first, m.bytes first (next - first), m.executable page⟩ :
        Segment).Contains a := by
      refine ⟨above, ?_⟩
      simp only [Segment.stop, length_bytes, stop]
      exact below
    have newMember := List.mem_append_right front (List.mem_singleton.mpr (Eq.refl
      (⟨first, m.bytes first (next - first), m.executable page⟩ : Segment)))
    -- what was covered before is in a kept segment, or in one that the new one replaces
    by_cases earlier : a < start
    · obtain ⟨x, member, contains, kind⟩ := extracted.covered a earlier nonzero
      by_cases old : x ∈ front
      · exact ⟨x, List.mem_append_left _ old, contains, kind⟩
      · obtain ⟨above, sameKind⟩ := rest x member old
        exact ⟨_, newMember, inNew (le_trans above contains.1), sameKind ▸ kind⟩
    · have low : start / pageSize ≤ a / pageSize := Nat.div_le_div_right (by omega)
      have high : a / pageSize ≤ (next - 1) / pageSize := Nat.div_le_div_right (by omega)
      have here : a / pageSize = page := by omega
      exact ⟨_, newMember, inNew (by omega), by rw [here]⟩

/-- The data of a segment that grows over a gap: the zeros of the gap are the
memory's. -/
theorem Extracted.grown_data {m : Machine} {front : List Segment} {last : Segment} {start next : Nat}
    (extracted : Extracted m (front ++ [last]) start) (advance : start < next) :
    last.data ++ List.replicate (start - last.stop) 0 ++ m.bytes start (next - start) =
      m.bytes last.start (next - last.start) := by
  have member : last ∈ front ++ [last] := List.mem_append_right _ (List.mem_singleton.mpr rfl)
  have inside := extracted.inside last member
  have gap : last.start + (last.data.length + (start - last.stop)) = start := by
    unfold Segment.stop at *
    omega
  have length : next - last.start = last.data.length + (start - last.stop) + (next - start) := by
    unfold Segment.stop at *
    omega
  have zeros : m.bytes last.stop (start - last.stop) = List.replicate (start - last.stop) 0 :=
    bytes_eq_zeros fun a after below => extracted.zero_after_last after (by omega)
  rw [length, bytes_add, bytes_add, gap, ← extracted.image last member, ← zeros]
  rfl

/-- The two ways to open a segment. -/
theorem openSegment_cases (maximumZeroGap : Nat) (segments : List Segment) (page start : Nat)
    (executable : Bool) :
    (openSegment maximumZeroGap segments page start executable = (segments, start, []) ∧
      ∀ front last, segments = front ++ [last] → last.lastPage = page →
        last.executable ≠ executable) ∨
    ∃ front last, segments = front ++ [last] ∧ last.executable = executable ∧
      openSegment maximumZeroGap segments page start executable =
        (front, last.start, last.data ++ List.replicate (start - last.stop) 0) := by
  rcases List.eq_nil_or_concat segments with rfl | ⟨front, last, rfl⟩
  · exact .inl ⟨rfl, by simp⟩
  · simp only [openSegment, List.concat_eq_append, List.getLast?_append, List.getLast?_singleton,
      Option.some_or, List.dropLast_concat]
    split
    next merge => exact .inr ⟨front, last, rfl, merge.1, rfl⟩
    next separate =>
      refine .inl ⟨rfl, ?_⟩
      intro front' last' equal samePage sameKind
      obtain ⟨_, rfl⟩ := List.append_singleton_inj.mp equal
      exact separate ⟨sameKind, .inr samePage.symm⟩

theorem Extracted.openSegment {m : Machine} {segments : List Segment} {page start next : Nat}
    (maximumZeroGap : Nat) (extracted : Extracted m segments start)
    (begun : Aligned start ∧ m.load64 start ≠ 0) (advance : start < next)
    (firstHere : start / pageSize = page) (lastHere : (next - 1) / pageSize = page) :
    let opened := ElfDumper.openSegment maximumZeroGap segments page start (m.executable page)
    Extracted m (opened.1 ++ [⟨opened.2.1, opened.2.2 ++ m.bytes start (next - start),
      m.executable page⟩]) next := by
  rcases openSegment_cases maximumZeroGap segments page start (m.executable page) with
    ⟨opened, apart⟩ | ⟨front, last, rfl, sameKind, opened⟩
  · simp only [opened, List.nil_append]
    apply extracted.write (List.Sublist.refl _) (le_refl start) begun advance firstHere lastHere
    · intro x member
      refine ⟨extracted.inside x member, ?_⟩
      -- the last segment is on an earlier page, and the others lie before it
      rcases List.eq_nil_or_concat segments with rfl | ⟨front, last, rfl⟩
      · simp at member
      · rw [List.concat_eq_append] at *
        have lastMember : last ∈ front ++ [last] := List.mem_append_right _ (List.mem_singleton.mpr rfl)
        have bounds := lastPage_le extracted lastMember
        have different : last.lastPage ≠ page := fun samePage =>
          apart front last rfl samePage (samePage ▸ extracted.kind last lastMember)
        rcases List.mem_append.mp member with old | new
        · have order := ((List.pairwise_append.mp extracted.ordered).2.2 x old last (by simp)).2
          omega
        · rw [List.mem_singleton.mp new]
          omega
    · intro x member absent
      exact absurd member absent
  · simp only [opened, extracted.grown_data advance]
    have lastMember : last ∈ front ++ [last] := List.mem_append_right _ (List.mem_singleton.mpr rfl)
    have inside := extracted.inside last lastMember
    have room : last.start ≤ last.stop := Nat.le_add_right _ _
    apply extracted.write (List.sublist_append_left front [last]) (by omega)
      (extracted.begins last lastMember) advance firstHere lastHere
    · intro x old
      exact (List.pairwise_append.mp extracted.ordered).2.2 x old last (by simp)
    · intro x member absent
      rcases List.mem_append.mp member with old | new
      · exact absurd old absent
      · rw [List.mem_singleton.mp new]
        exact ⟨le_refl _, sameKind⟩

/-! ### The whole memory -/

/-- One round over a page, which finds a run of words and writes it. -/
theorem Extracted.round {m : Machine} {segments : List Segment} {page start stop : Nat}
    (maximumZeroGap : Nat) (extracted : Extracted m segments start) (aligned : Aligned start)
    (ends : stop = (page + 1) * pageSize) (begins : page * pageSize ≤ start) (inside : start ≤ stop)
    (here : skipZeros m start stop < stop) :
    let found := skipZeros m start stop
    let opened := ElfDumper.openSegment maximumZeroGap segments page found (m.executable page)
    let appended := appendNonZero m found stop opened.2.2
    Extracted m (opened.1 ++ [⟨opened.2.1, appended.2, m.executable page⟩]) appended.1 ∧
      Aligned appended.1 ∧ page * pageSize ≤ appended.1 ∧ appended.1 ≤ stop := by
  intro found opened appended
  have alignedStop : Aligned stop := by
    unfold Aligned pageSize at *
    omega
  obtain ⟨alignedFound, before, zeros⟩ := skipZeros_spec m start stop aligned alignedStop inside
  obtain ⟨alignedNext, beforeStop, data⟩ :=
    appendNonZero_spec m found stop opened.2.2 alignedFound alignedStop before
  have skipped : start ≤ found := skipZeros_le m start stop
  have advance : found + 8 ≤ appended.1 :=
    lt_appendNonZero m found stop opened.2.2 here (load64_skipZeros m start stop here)
  have limit : appended.1 ≤ stop := beforeStop
  refine ⟨?_, alignedNext, by omega, beforeStop⟩
  rw [show appended.2 = opened.2.2 ++ m.bytes found (appended.1 - found) from data]
  apply (extracted.skip skipped zeros).openSegment maximumZeroGap
    ⟨alignedFound, load64_skipZeros m start stop here⟩
  · omega
  · unfold pageSize at *
    omega
  · unfold pageSize at *
    omega

theorem scanPage_extracted (maximumZeroGap : Nat) (m : Machine) (page start stop : Nat)
    (segments : List Segment) (extracted : Extracted m segments start)
    (aligned : Aligned start) (ends : stop = (page + 1) * pageSize) (begins : page * pageSize ≤ start)
    (inside : start ≤ stop) :
    Extracted m (scanPage maximumZeroGap m page start stop segments) stop := by
  fun_induction scanPage maximumZeroGap m page start stop segments with
  -- the induction is on the rest of the page; the invariant moves on with `start`
  | case1 start segments _ found here executable opened appended ih =>
    obtain ⟨next, alignedNext, beginsNext, insideNext⟩ :=
      extracted.round maximumZeroGap aligned ends begins inside here
    exact ih next alignedNext beginsNext insideNext
  | case2 start segments _ found none =>
    have alignedStop : Aligned stop := by
      unfold Aligned pageSize at *
      omega
    obtain ⟨_, before, zeros⟩ := skipZeros_spec m start stop aligned alignedStop inside
    exact extracted.skip inside fun a above below => zeros a above (by omega)
  | case3 start segments none =>
    exact extracted.skip inside fun a above below => by omega

/-- The extracted segments hold what the memory holds. -/
theorem extractSegments_extracted (maximumZeroGap : Nat) (m : Machine) :
    Extracted m (extractSegments maximumZeroGap m) (pages * pageSize) := by
  -- over the pages, for any number of them: 1024 is not used
  unfold extractSegments
  generalize pages = count
  induction count with
  | zero => simpa using Extracted.nil m
  | succ count ih =>
    rw [List.range_succ, List.foldl_append]
    apply scanPage_extracted _ _ _ _ _ _ ih
    · unfold Aligned pageSize
      omega
    · rfl
    · exact le_refl _
    · unfold pageSize
      omega

end ElfDumper
