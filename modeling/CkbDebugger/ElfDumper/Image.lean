import CkbDebugger.ElfDumper.Emit

/-!
# A dump preserves the memory image

The segments of an emitted file, read back with the ELF64 layout, are compared
with the memory they were extracted from.
-/
namespace ElfDumper

open Bytes (slice)
open CkbVm (A7)

/-! ### Sizes -/

/-- Intervals that lie one after the other between two bounds are together no
longer than what is between the bounds. -/
theorem sum_of_disjoint_le {α : Type} (first width next : α → Nat) (xs : List α) (low high : Nat)
    (fits : ∀ x ∈ xs, first x + width x ≤ next x) (ordered : xs.Pairwise fun x y => next x ≤ first y)
    (above : ∀ x ∈ xs, low ≤ first x) (below : ∀ x ∈ xs, next x ≤ high) (bounds : low ≤ high) :
    low + (xs.map width).sum ≤ high := by
  induction xs generalizing low with
  | nil => simpa using bounds
  | cons x xs ih =>
    obtain ⟨before, ordered⟩ := List.pairwise_cons.mp ordered
    have start := above x List.mem_cons_self
    have size := fits x List.mem_cons_self
    have rest := ih (next x) (fun y member => fits y (List.mem_cons_of_mem x member)) ordered before
      (fun y member => below y (List.mem_cons_of_mem x member)) (below x List.mem_cons_self)
    simp only [List.map_cons, List.sum_cons]
    omega

theorem Extracted.total_le {m : Machine} {segments : List Segment} {address : Nat}
    (extracted : Extracted m segments address) :
    (segments.flatMap Segment.data).length ≤ address := by
  have total := sum_of_disjoint_le Segment.start (fun x => x.data.length) Segment.stop segments 0 address
    (fun x _ => le_refl _) (extracted.ordered.imp fun before => before.1) (fun x _ => Nat.zero_le _)
    extracted.inside (Nat.zero_le _)
  rw [List.length_flatMap]
  omega

theorem Extracted.count_le {m : Machine} {segments : List Segment}
    (extracted : Extracted m segments (pages * pageSize)) : segments.length ≤ pages := by
  have count := sum_of_disjoint_le Segment.firstPage (fun _ => 1) (fun x => x.lastPage + 1) segments 0
    pages (fun x member => Nat.succ_le_succ (lastPage_le extracted member).1)
    (extracted.ordered.imp fun before => before.2) (fun x _ => Nat.zero_le _) ?_ (Nat.zero_le _)
  · simpa using count
  · intro x member
    have some := List.length_pos_of_ne_nil (extracted.nonempty x member)
    have inside := extracted.inside x member
    unfold Segment.stop pages pageSize at *
    unfold Segment.lastPage pageSize
    omega

/-! ### What it means to preserve the image -/

/-- The segment has a byte on the page. -/
def ProgramHeader.OnPage (x : ProgramHeader) (page : Nat) : Prop :=
  ∃ a, x.contains a = true ∧ a / pageSize = page

/-- The segments of a file hold the memory of a machine. `stub` is the segment of
the code that restores the registers. -/
structure PreservesImage (m : Machine) (file : List UInt8) (headers : List ProgramHeader)
    (stub : ProgramHeader) : Prop where
  loads : ∀ x ∈ headers ++ [stub], x.type = 1
  ascending : headers.Pairwise fun x y => x.vaddr + x.memsz ≤ y.vaddr
  apart : (headers ++ [stub]).Pairwise fun x y => ∀ page, ¬(x.OnPage page ∧ y.OnPage page)
  image : ∀ x ∈ headers, x.filesz = x.memsz ∧ x.offset + x.filesz ≤ file.length ∧
    ∀ i < x.filesz, file[x.offset + i]? = some (m.memory (x.vaddr + i))
  covered : ∀ a < pages * pageSize, m.memory a ≠ 0 → headers.countP (fun x => x.contains a) = 1
  reloaded : ∀ a < pages * pageSize, ¬stub.OnPage (a / pageSize) →
    loadSegments file (headers ++ [stub]) a = m.memory a
  kinds : ∀ page < pages, (∃ word, word / pageSize = page ∧ word % 8 = 0 ∧ m.load64 word ≠ 0) →
    ∃ x ∈ headers, (∀ a, a / pageSize = page → m.memory a ≠ 0 → x.contains a = true) ∧
      x.flags = if m.executable page then 5 else 6

/-! ### The parts -/

theorem map_snd_placed (base : Nat) (segments : List Segment) :
    (placed base segments).map Prod.snd = segments := by
  induction segments generalizing base with
  | nil => rfl
  | cons segment segments ih => simp only [placed, List.map_cons, ih]

theorem placed_pairwise {R : Segment → Segment → Prop} (base : Nat) {segments : List Segment}
    (ordered : segments.Pairwise R) : (placed base segments).Pairwise fun x y => R x.2 y.2 := by
  rw [← List.pairwise_map, map_snd_placed]
  exact ordered

theorem contains_loadHeader_iff (x : Nat × Segment) (a : Nat) :
    (loadHeader x).contains a = true ↔ x.2.Contains a := by
  simp only [ProgramHeader.contains, loadHeader, Segment.Contains, Segment.stop]
  exact decide_eq_true_iff

/-- The pages of a segment lie between its first and its last page. -/
theorem page_of_contains {segment : Segment} {a : Nat} (contains : segment.Contains a) :
    segment.firstPage ≤ a / pageSize ∧ a / pageSize ≤ segment.lastPage := by
  obtain ⟨above, below⟩ := contains
  unfold Segment.stop at below
  exact ⟨Nat.div_le_div_right above, Nat.div_le_div_right (by omega)⟩

theorem not_onPage_both {x y : Nat × Segment} (before : x.2.lastPage < y.2.firstPage) (page : Nat) :
    ¬((loadHeader x).OnPage page ∧ (loadHeader y).OnPage page) := by
  rintro ⟨⟨a, inX, onX⟩, ⟨b, inY, onY⟩⟩
  have pageX := page_of_contains ((contains_loadHeader_iff x a).mp inX)
  have pageY := page_of_contains ((contains_loadHeader_iff y b).mp inY)
  omega

theorem countP_eq_one {α : Type} {p : α → Bool} {xs : List α}
    (apart : xs.Pairwise fun x y => ¬(p x = true ∧ p y = true)) (found : ∃ x ∈ xs, p x = true) :
    xs.countP p = 1 := by
  induction xs with
  | nil => simp at found
  | cons x xs ih =>
    obtain ⟨head, tail⟩ := List.pairwise_cons.mp apart
    by_cases here : p x = true
    · have none : xs.countP p = 0 := List.countP_eq_zero.mpr fun y member there =>
        head y member ⟨here, there⟩
      rw [List.countP_cons_of_pos here, none]
    · rw [List.countP_cons_of_neg here]
      obtain ⟨y, member, there⟩ := found
      rcases List.mem_cons.mp member with rfl | later
      · exact absurd there here
      · exact ih tail ⟨y, later, there⟩

theorem loadSegments_concat (file : List UInt8) (headers : List ProgramHeader) (x : ProgramHeader)
    (a : Nat) : loadSegments file (headers ++ [x]) a =
      if x.contains a then file.getD (x.offset + (a - x.vaddr)) 0 else loadSegments file headers a := by
  simp only [loadSegments, List.foldl_append, List.foldl_cons, List.foldl_nil]

/-- Loading segments that hold the bytes of a memory. -/
theorem loadSegments_eq (memory : Nat → UInt8) (file : List UInt8) (headers : List ProgramHeader)
    (image : ∀ x ∈ headers, ∀ i < x.memsz, file[x.offset + i]? = some (memory (x.vaddr + i)))
    (a : Nat) : loadSegments file headers a =
      if headers.any (fun x => x.contains a) then memory a else 0 := by
  induction headers using List.reverseRecOn with
  | nil => rfl
  | append_singleton headers x ih =>
    rw [loadSegments_concat, ih fun y member => image y (List.mem_append_left _ member)]
    by_cases here : x.contains a = true
    · obtain ⟨above, below⟩ := of_decide_eq_true here
      have byte := image x (List.mem_append_right _ (List.mem_singleton.mpr rfl)) (a - x.vaddr) (by omega)
      have place : x.vaddr + (a - x.vaddr) = a := by omega
      rw [if_pos here, List.getD_eq_getElem?_getD, byte, place, if_pos (by simp [here])]
      rfl
    · simp [here]

/-! ### The dump -/

/-- A dump went through every step. -/
theorem dump_ok {m : Machine} {segments : List Segment} {file : List UInt8}
    (dumped : dump m segments = .ok file) :
    ∃ first rest stub, segments = first :: rest ∧ pageSize < first.start ∧
      registerStub m first = .ok stub ∧
      file = emitElf ((first :: rest) ++ [stub]) (stub.start + (registerTable m).length) := by
  cases segments with
  | nil => cases dumped
  | cons first rest =>
    simp only [dump] at dumped
    split at dumped
    · cases dumped
    next late =>
      cases made : registerStub m first with
      | error text =>
        rw [made] at dumped
        cases dumped
      | ok stub =>
        rw [made] at dumped
        exact ⟨first, rest, stub, rfl, Nat.lt_of_not_le late, made, (Except.ok.inj dumped).symm⟩

theorem ecall_dumped {dumper : Dumper} {m : Machine} {file : List UInt8}
    (dumped : dumper.ecall m = .ok (some file)) :
    dump m (extractSegments dumper.maximumZeroGap.toNat m) = .ok file := by
  unfold Dumper.ecall at dumped
  split at dumped
  · cases dumped
  · cases made : dump m (extractSegments dumper.maximumZeroGap.toNat m) with
    | error text =>
      rw [made] at dumped
      cases dumped
    | ok elf =>
      rw [made] at dumped
      cases dumped
      rfl

/-- The stub lies on the page before the first segment. -/
theorem stub_before {first stub : Segment} (late : pageSize < first.start)
    (start : stub.start = registerBufferStart first) (length : stub.data.length = 384) :
    stub.lastPage < first.firstPage := by
  have page : 1 ≤ first.firstPage := by
    unfold Segment.firstPage pageSize at *
    omega
  unfold Segment.lastPage
  rw [start, length, registerBufferStart, Segment.firstPageAddress]
  unfold pageSize
  omega

section Dump

variable {m : Machine} {segments : List Segment} {stub : Segment} {entry : Nat}

/-- The data of a segment, as the file has it. -/
theorem image_of_placed (extracted : Extracted m segments (pages * pageSize)) {x : Nat × Segment}
    (member : x ∈ placed 68 segments) :
    (loadHeader x).offset + (loadHeader x).filesz ≤ (emitElf (segments ++ [stub]) entry).length ∧
      ∀ i < (loadHeader x).filesz, (emitElf (segments ++ [stub]) entry)[(loadHeader x).offset + i]? =
        some (m.memory ((loadHeader x).vaddr + i)) := by
  have inAll : x ∈ placed 68 (segments ++ [stub]) := by
    rw [placed_append]
    exact List.mem_append_left _ member
  obtain ⟨found, inside⟩ := slice_emitElf entry inAll
  refine ⟨inside, ?_⟩
  intro i (small : i < x.2.data.length)
  have bytes := extracted.image x.2 (segment_mem_of_placed (show (x.1, x.2) ∈ _ from member))
  have byte : (slice x.1 x.2.data.length (emitElf (segments ++ [stub]) entry))[i]? =
      (emitElf (segments ++ [stub]) entry)[x.1 + i]? := by
    rw [slice, List.getElem?_take_of_lt small, List.getElem?_drop]
  show (emitElf (segments ++ [stub]) entry)[x.1 + i]? = some (m.memory (x.2.start + i))
  rw [← byte, found, bytes, Machine.bytes, List.getElem?_map, List.getElem?_range small]
  rfl

theorem covered_of_extracted (extracted : Extracted m segments (pages * pageSize)) {a : Nat}
    (inside : a < pages * pageSize) (nonzero : m.memory a ≠ 0) :
    ∃ x ∈ placed 68 segments, (loadHeader x).contains a = true ∧
      x.2.executable = m.executable (a / pageSize) := by
  obtain ⟨segment, member, contains, kind⟩ := extracted.covered a inside nonzero
  obtain ⟨offset, found⟩ := exists_placed 68 member
  exact ⟨(offset, segment), found, (contains_loadHeader_iff _ a).mpr contains, kind⟩

/-- Two segments with a byte on the same page are the same segment. -/
theorem eq_of_same_page (extracted : Extracted m segments (pages * pageSize)) {x y : Nat × Segment}
    (inX : x ∈ placed 68 segments) (inY : y ∈ placed 68 segments) {page : Nat}
    (onX : (loadHeader x).OnPage page) (onY : (loadHeader y).OnPage page) : x = y := by
  by_contra different
  have apart : (placed 68 segments).Pairwise fun u v =>
      ¬((loadHeader u).OnPage page ∧ (loadHeader v).OnPage page) :=
    (placed_pairwise 68 extracted.ordered).imp fun before => not_onPage_both before.2 page
  have symmetric : Std.Symm fun u v : Nat × Segment =>
      ¬((loadHeader u).OnPage page ∧ (loadHeader v).OnPage page) := ⟨fun _ _ no both => no both.symm⟩
  exact apart.forall inX inY different ⟨onX, onY⟩

theorem exists_byte_of_load64 {word : Nat} (nonzero : m.load64 word ≠ 0) :
    ∃ b, word ≤ b ∧ b < word + 8 ∧ m.memory b ≠ 0 := by
  by_contra none
  apply nonzero
  rw [Machine.load64, bytes_eq_zeros]
  · rfl
  · intro a above below
    by_contra byte
    exact none ⟨a, above, below, byte⟩

/-- The segment of some byte of a page that is not zero is the one of the whole page. -/
theorem kind_of_extracted (extracted : Extracted m segments (pages * pageSize)) {page word : Nat}
    (inside : page < pages)
    (onPage : word / pageSize = page) (aligned : word % 8 = 0) (nonzero : m.load64 word ≠ 0) :
    ∃ x ∈ (placed 68 segments).map loadHeader,
      (∀ a, a / pageSize = page → m.memory a ≠ 0 → x.contains a = true) ∧
        x.flags = if m.executable page then 5 else 6 := by
  obtain ⟨b, above, below, byte⟩ := exists_byte_of_load64 nonzero
  have onSame : b / pageSize = page := by
    unfold pageSize at *
    omega
  have limit : ∀ a, a / pageSize = page → a < pages * pageSize := by
    intro a on
    unfold pages pageSize at *
    omega
  obtain ⟨x, member, contains, kind⟩ := covered_of_extracted extracted (limit b onSame) byte
  refine ⟨loadHeader x, List.mem_map_of_mem member, ?_, ?_⟩
  -- no two segments share a page, so another byte of the page is in the same one
  · intro a on nonzeroByte
    obtain ⟨y, memberY, containsY, _⟩ := covered_of_extracted extracted (limit a on) nonzeroByte
    have same := eq_of_same_page extracted memberY member ⟨a, containsY, on⟩ ⟨b, contains, onSame⟩
    rwa [same] at containsY
  · rw [← onSame, ← kind]
    rfl

/-- The segments and the stub, emitted together, hold the memory. -/
theorem emitElf_preservesImage (extracted : Extracted m segments (pages * pageSize))
    (before : ∀ x ∈ segments, stub.lastPage < x.firstPage) :
    PreservesImage m (emitElf (segments ++ [stub]) entry) ((placed 68 segments).map loadHeader)
      (loadHeader (68 + (segments.flatMap Segment.data).length, stub)) := by
  have ordered := placed_pairwise 68 extracted.ordered
  have image : ∀ x ∈ (placed 68 segments).map loadHeader, x.filesz = x.memsz ∧
      x.offset + x.filesz ≤ (emitElf (segments ++ [stub]) entry).length ∧
      ∀ i < x.filesz, (emitElf (segments ++ [stub]) entry)[x.offset + i]? =
        some (m.memory (x.vaddr + i)) := by
    intro header member
    obtain ⟨x, placed, rfl⟩ := List.mem_map.mp member
    exact ⟨rfl, image_of_placed extracted placed⟩
  constructor
  case loads =>
    intro header member
    rcases List.mem_append.mp member with old | new
    · obtain ⟨x, _, rfl⟩ := List.mem_map.mp old
      rfl
    · rw [List.mem_singleton.mp new]
      rfl
  case ascending =>
    rw [List.pairwise_map]
    exact ordered.imp fun before => before.1
  case apart =>
    rw [List.pairwise_append]
    refine ⟨?_, List.pairwise_singleton _ _, ?_⟩
    · rw [List.pairwise_map]
      exact ordered.imp fun before page => not_onPage_both before.2 page
    · intro header old stub' new page both
      obtain ⟨x, placed, rfl⟩ := List.mem_map.mp old
      rw [List.mem_singleton.mp new] at both
      exact not_onPage_both (before x.2 (segment_mem_of_placed (show (x.1, x.2) ∈ _ from placed))) page
        both.symm
  case image => exact image
  case covered =>
    intro a inside nonzero
    rw [List.countP_map]
    apply countP_eq_one
    · refine ordered.imp fun before both => ?_
      exact not_onPage_both before.2 (a / pageSize) ⟨⟨a, both.1, rfl⟩, ⟨a, both.2, rfl⟩⟩
    · obtain ⟨x, member, contains, _⟩ := covered_of_extracted extracted inside nonzero
      exact ⟨x, member, contains⟩
  case reloaded =>
    intro a inside outside
    -- the stub is loaded last, so what is outside of it is as the segments have left it
    have away : ¬(loadHeader (68 + (segments.flatMap Segment.data).length, stub)).contains a = true :=
      fun contains => outside ⟨a, contains, rfl⟩
    rw [loadSegments_concat, if_neg away, loadSegments_eq m.memory _ _ fun x member i small =>
      (image x member).2.2 i ((image x member).1 ▸ small)]
    split
    · rfl
    next uncovered =>
      by_contra nonzero
      obtain ⟨x, member, contains, _⟩ := covered_of_extracted extracted inside fun zero => nonzero zero.symm
      exact uncovered (List.any_eq_true.mpr ⟨_, List.mem_map_of_mem member, contains⟩)
  case kinds =>
    rintro page inside ⟨word, onPage, aligned, nonzero⟩
    exact kind_of_extracted extracted inside onPage aligned nonzero

end Dump

/-- The parts of a dump, and the headers that are read back from it. -/
theorem ecall_parts {dumper : Dumper} {m : Machine} {file : List UInt8}
    (dumped : dumper.ecall m = .ok (some file)) :
    ∃ first rest stub, extractSegments dumper.maximumZeroGap.toNat m = first :: rest ∧
      pageSize < first.start ∧ registerStub m first = .ok stub ∧
      file = emitElf ((first :: rest) ++ [stub]) (stub.start + (registerTable m).length) ∧
      readProgramHeaders file = some ((placed 68 (first :: rest)).map loadHeader ++
        [loadHeader (68 + ((first :: rest).flatMap Segment.data).length, stub)]) := by
  obtain ⟨first, rest, stub, segments, late, made, emitted⟩ := dump_ok (ecall_dumped dumped)
  refine ⟨first, rest, stub, segments, late, made, emitted, ?_⟩
  have extracted := extractSegments_extracted dumper.maximumZeroGap.toNat m
  rw [segments] at extracted
  obtain ⟨start, length⟩ := registerStub_bounds made
  have total := extracted.total_le
  have count := extracted.count_le
  have data : ((first :: rest ++ [stub]).flatMap Segment.data).length =
      ((first :: rest).flatMap Segment.data).length + 384 := by
    rw [List.flatMap_append, List.length_append]
    simp [length]
  -- the segments end within the memory, and the stub is on a page below the first of them
  have low : ∀ x ∈ first :: rest ++ [stub], x.start < 2 ^ 64 := by
    intro x member
    rcases List.mem_append.mp member with old | new
    · have inside := extracted.inside x old
      unfold Segment.stop pages pageSize at inside
      omega
    · have inside := extracted.inside first List.mem_cons_self
      have page := Nat.div_mul_le_self first.start pageSize
      rw [List.mem_singleton.mp new, start, registerBufferStart, Segment.firstPageAddress,
        Segment.firstPage]
      unfold Segment.stop pages pageSize at *
      omega
  have read := readProgramHeaders_emitElf (first :: rest ++ [stub])
    (stub.start + (registerTable m).length)
    (by rw [List.length_append]; unfold pages at count; simp only [List.length_singleton]; omega)
    (by unfold pages pageSize at total; omega) low
  rw [emitted, read, placed_append, List.map_append]
  rfl

/-- A dump, read back with the ELF64 layout, holds the memory of the machine. -/
theorem ecall_preservesImage (dumper : Dumper) (m : Machine) (file : List UInt8)
    (dumped : dumper.ecall m = .ok (some file)) :
    ∃ headers stub, readProgramHeaders file = some (headers ++ [stub]) ∧
      PreservesImage m file headers stub := by
  obtain ⟨first, rest, stub, segments, late, made, emitted, read⟩ := ecall_parts dumped
  have extracted := extractSegments_extracted dumper.maximumZeroGap.toNat m
  rw [segments] at extracted
  obtain ⟨start, length⟩ := registerStub_bounds made
  refine ⟨_, _, read, ?_⟩
  rw [emitted]
  apply emitElf_preservesImage extracted
  have earlier := stub_before late start length
  intro x member
  rcases List.mem_cons.mp member with rfl | later
  · exact earlier
  · have order := ((List.pairwise_cons.mp extracted.ordered).1 x later).2
    have pages := (lastPage_le extracted List.mem_cons_self).1
    omega

/-- A machine with one non-zero byte, at the program counter. -/
def oneByte : Machine where
  registers := fun i => if i = A7 then 4097 else 0
  pc := 0x11000
  memory := fun a => if a = 0x11000 then 1 else 0
  flags := fun _ => 0

theorem oneByte_word {a : Nat} (aligned : Aligned a) (nonzero : oneByte.load64 a ≠ 0) : a = 0x11000 := by
  by_contra elsewhere
  apply nonzero
  rw [Machine.load64, bytes_eq_zeros]
  · rfl
  · intro b above below
    unfold Aligned at aligned
    exact if_neg (by omega)

theorem oneByte_dumped : ∃ file, Dumper.ecall ⟨4097, 64⟩ oneByte = .ok (some file) := by
  have extracted := extractSegments_extracted (64 : UInt64).toNat oneByte
  have few : (0x11000 : Nat) < pages * pageSize := by decide
  obtain ⟨x, member, _⟩ := extracted.covered 0x11000 few (by decide)
  cases segments : extractSegments (64 : UInt64).toNat oneByte with
  | nil =>
    rw [segments] at member
    cases member
  | cons first rest =>
    rw [segments] at extracted
    have start : first.start = 0x11000 :=
      let begins := extracted.begins first List.mem_cons_self
      oneByte_word begins.1 begins.2
    have accepted : jumpAccepted (jumpOffset oneByte first) = true := by
      rw [jumpOffset_eq, registerBufferStart, Segment.firstPageAddress, Segment.firstPage, start]
      decide
    have late : ¬first.start ≤ pageSize := by
      rw [start]
      decide
    obtain ⟨file, dumped⟩ : ∃ file, dump oneByte (first :: rest) = .ok file := by
      simp only [dump, if_neg late, registerStub_of_accepted oneByte first accepted]
      exact ⟨_, rfl⟩
    refine ⟨file, ?_⟩
    rw [Dumper.ecall, if_neg (by decide), segments, dumped]
    rfl

theorem oneByte_preservesImage : ∃ file headers stub, Dumper.ecall ⟨4097, 64⟩ oneByte = .ok (some file) ∧
    readProgramHeaders file = some (headers ++ [stub]) ∧ PreservesImage oneByte file headers stub := by
  obtain ⟨file, dumped⟩ := oneByte_dumped
  obtain ⟨headers, stub, read, preserved⟩ := ecall_preservesImage ⟨4097, 64⟩ oneByte file dumped
  exact ⟨file, headers, stub, dumped, read, preserved⟩

end ElfDumper
