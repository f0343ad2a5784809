import Mathlib.Data.Finset.Card
import CkbDebugger.ElfDumper.Stub

/-!
# The ELF file of a dump

`ecall` writes the segments and the stub behind an ELF header, then the program
headers and the section headers, and patches the offsets and numbers of the two
tables into the header. The file is read back with the layout of ELF64.
-/
namespace ElfDumper

open Bytes (slice field patch)
open CkbVm (A7)

/-! ### Emission -/

/-- `program_header_offset` and its kin: where the header has the placeholders. -/
def programHeaderOffset : Nat := 32
def sectionHeaderOffset : Nat := 40
def programHeaderNumberOffset : Nat := 56
def sectionHeaderNumberOffset : Nat := 60

/-- The ELF header, with zeros for the places of the two tables. -/
def elfHeader (entry : Nat) : List UInt8 :=
  [0x7f, 0x45, 0x4c, 0x46, 0x02, 0x01, 0x01, 0x00, 0x00, 0x00, 0x00, 0x00, 0x00, 0x00, 0x00, 0x00] ++
  leBytes 2 2 ++ leBytes 2 243 ++ leBytes 4 1 ++ leBytes 8 entry ++ leBytes 8 0 ++ leBytes 8 0 ++
  leBytes 4 1 ++ leBytes 2 64 ++ leBytes 2 56 ++ leBytes 2 0 ++ leBytes 2 64 ++ leBytes 2 0 ++
  leBytes 2 0

/-- The common layout of the two kinds of section headers. -/
def sectionHeader (type flags address offset size align : Nat) : List UInt8 :=
  leBytes 4 0 ++ leBytes 4 type ++ leBytes 8 flags ++ leBytes 8 address ++ leBytes 8 offset ++
  leBytes 8 size ++ leBytes 4 0 ++ leBytes 4 0 ++ leBytes 8 align ++ leBytes 8 0

def stringTableSectionHeader (stringTableOffset : Nat) : List UInt8 :=
  sectionHeader 3 0 0 stringTableOffset 4 1

def codeSectionHeader (segment : Segment) (offset : Nat) : List UInt8 :=
  sectionHeader 1 6 segment.start offset segment.data.length 2

def programHeader (segment : Segment) (offset : Nat) : List UInt8 :=
  leBytes 4 1 ++ leBytes 4 (if segment.executable then 5 else 6) ++ leBytes 8 offset ++
  leBytes 8 segment.start ++ leBytes 8 segment.start ++ leBytes 8 segment.data.length ++
  leBytes 8 segment.data.length ++ leBytes 8 0x1000

structure Emission where
  elf : List UInt8
  programHeaders : List (List UInt8)
  sectionHeaders : List (List UInt8)

def Emission.start (entry : Nat) : Emission :=
  ⟨elfHeader entry ++ leBytes 4 0, [], [stringTableSectionHeader (elfHeader entry).length]⟩

def Emission.segment (e : Emission) (segment : Segment) : Emission where
  elf := e.elf ++ segment.data
  programHeaders := e.programHeaders ++ [programHeader segment e.elf.length]
  sectionHeaders :=
    if segment.executable then e.sectionHeaders ++ [codeSectionHeader segment e.elf.length]
    else e.sectionHeaders

/-- `while elf.len() % 4 != 0 { elf.put_u8(0) }`. -/
def padTo4 (elf : List UInt8) : List UInt8 :=
  elf ++ List.replicate ((4 - elf.length % 4) % 4) 0

/-- Append a table and patch its offset and its number of entries into the header. -/
def appendTable (offsetPlace numberPlace : Nat) (table : List (List UInt8)) (elf : List UInt8) :
    List UInt8 :=
  let padded := padTo4 elf
  patch numberPlace (leBytes 2 table.length) (patch offsetPlace (leBytes 8 padded.length) padded) ++
    table.flatten

def emitElf (segments : List Segment) (entry : Nat) : List UInt8 :=
  let e := segments.foldl Emission.segment (.start entry)
  appendTable sectionHeaderOffset sectionHeaderNumberOffset e.sectionHeaders
    (appendTable programHeaderOffset programHeaderNumberOffset e.programHeaders e.elf)

/-! ### The system call -/

/-- The parameters of the dumper, without the name of the file to write. -/
structure Dumper where
  syscallNumber : UInt64
  maximumZeroGap : UInt64

/-- The file for the extracted segments. There must be one page at least before the
first segment, so that the stub has room. -/
def dump (m : Machine) (segments : List Segment) : Except String (List UInt8) :=
  match segments with
  | [] => .error "Unexpected segments"
  | first :: _ =>
    if first.start ≤ pageSize then .error "Unexpected segments"
    else
      match registerStub m first with
      | .error text => .error text
      | .ok stub => .ok (emitElf (segments ++ [stub]) (stub.start + (registerTable m).length))

/-- `ecall`: the file that is written, or `none` for a system call of another
number. -/
def Dumper.ecall (dumper : Dumper) (m : Machine) : Except String (Option (List UInt8)) :=
  if m.registers A7 ≠ dumper.syscallNumber then .ok none
  else (dump m (extractSegments dumper.maximumZeroGap.toNat m)).map some

/-! ### Reading the file -/

structure ProgramHeader where
  type : Nat
  flags : Nat
  offset : Nat
  vaddr : Nat
  paddr : Nat
  filesz : Nat
  memsz : Nat
  align : Nat
  deriving Repr, DecidableEq

def decodeProgramHeader (bytes : List UInt8) : ProgramHeader where
  type := field 0 4 bytes
  flags := field 4 4 bytes
  offset := field 8 8 bytes
  vaddr := field 16 8 bytes
  paddr := field 24 8 bytes
  filesz := field 32 8 bytes
  memsz := field 40 8 bytes
  align := field 48 8 bytes

/-- The program header table at `e_phoff`, with `e_phnum` entries of 56 bytes. -/
def readProgramHeaders (file : List UInt8) : Option (List ProgramHeader) :=
  let phoff := field 32 8 file
  let phnum := field 56 2 file
  if phoff + 56 * phnum ≤ file.length then
    some ((List.range phnum).map fun i => decodeProgramHeader (slice (phoff + 56 * i) 56 file))
  else none

def ProgramHeader.contains (x : ProgramHeader) (a : Nat) : Bool :=
  decide (x.vaddr ≤ a ∧ a < x.vaddr + x.memsz)

/-- Zeroed memory with the segments loaded into it in order. -/
def loadSegments (file : List UInt8) (headers : List ProgramHeader) : Nat → UInt8 :=
  headers.foldl (fun memory x a =>
    if x.contains a then file.getD (x.offset + (a - x.vaddr)) 0 else memory a) fun _ => 0

/-! ### The layout of the file -/

/-- The segments with the offsets at which their data is written. -/
def placed : Nat → List Segment → List (Nat × Segment)
  | _, [] => []
  | offset, segment :: segments => (offset, segment) :: placed (offset + segment.data.length) segments

theorem emission_elf (e : Emission) (segments : List Segment) :
    (segments.foldl Emission.segment e).elf = e.elf ++ segments.flatMap Segment.data := by
  induction segments generalizing e with
  | nil => simp
  | cons segment segments ih => simp [ih, Emission.segment]

theorem emission_programHeaders (e : Emission) (segments : List Segment) :
    (segments.foldl Emission.segment e).programHeaders =
      e.programHeaders ++ (placed e.elf.length segments).map fun x => programHeader x.2 x.1 := by
  induction segments generalizing e with
  | nil => simp [placed]
  | cons segment segments ih =>
    simp only [List.foldl_cons, ih, placed, Emission.segment, List.length_append, List.map_cons,
      List.append_assoc, List.singleton_append]

theorem length_elfHeader (entry : Nat) : (elfHeader entry).length = 64 := by
  simp [elfHeader]

theorem slice_elfHeader_entry (entry : Nat) : slice 24 8 (elfHeader entry) = leBytes 8 entry := by
  have middle := Bytes.slice_middle ((elfHeader 0).take 24) (leBytes 8 entry) ((elfHeader 0).drop 32)
  rw [Bytes.length_leBytes] at middle
  exact middle

/-- A table goes to the end of the file, and its place into the header. -/
theorem appendTable_eq (offsetPlace numberPlace : Nat) (table : List (List UInt8))
    (header tail : List UInt8) (offsetInside : offsetPlace + 8 ≤ header.length)
    (numberInside : numberPlace + 2 ≤ header.length) :
    ∃ padding, appendTable offsetPlace numberPlace table (header ++ tail) =
      patch numberPlace (leBytes 2 table.length)
        (patch offsetPlace (leBytes 8 (header ++ (tail ++ padding)).length) header) ++
      (tail ++ padding ++ table.flatten) ∧ padding.length < 4 := by
  refine ⟨List.replicate ((4 - (header ++ tail).length % 4) % 4) 0, ?_, ?_⟩
  · simp only [appendTable, padTo4, List.append_assoc]
    rw [Bytes.patch_append _ (by simpa using offsetInside), Bytes.patch_append, List.append_assoc,
      List.append_assoc]
    rw [Bytes.length_patch (by simpa using offsetInside)]
    simpa using numberInside
  · rw [List.length_replicate]
    omega

/-- The places of the program headers stay in the header when those of the section
headers are written to it, and the entry point before them stays. -/
theorem patched_header (header : List UInt8) (size : header.length = 64)
    (phoff phnum shoff shnum : Nat) :
    let patched := patch 60 (leBytes 2 shnum) (patch 40 (leBytes 8 shoff)
      (patch 56 (leBytes 2 phnum) (patch 32 (leBytes 8 phoff) header)))
    patched.length = 64 ∧ slice 24 8 patched = slice 24 8 header ∧
      field 32 8 patched = phoff % 256 ^ 8 ∧ field 56 2 patched = phnum % 256 ^ 2 := by
  have first : (patch 32 (leBytes 8 phoff) header).length = 64 := by
    rw [Bytes.length_patch (by simp [size]), size]
  have second : (patch 56 (leBytes 2 phnum) (patch 32 (leBytes 8 phoff) header)).length = 64 := by
    rw [Bytes.length_patch (by simp [first]), first]
  have third : (patch 40 (leBytes 8 shoff) (patch 56 (leBytes 2 phnum)
      (patch 32 (leBytes 8 phoff) header))).length = 64 := by
    rw [Bytes.length_patch (by simp [second]), second]
  refine ⟨by rw [Bytes.length_patch (by simp [third]), third], ?_, ?_, ?_⟩
  · rw [Bytes.slice_patch_before (by omega) (by omega), Bytes.slice_patch_before (by omega) (by omega),
      Bytes.slice_patch_before (by omega) (by omega), Bytes.slice_patch_before (by omega) (by omega)]
  · have same := Bytes.slice_patch_self 32 (leBytes 8 phoff) header (by omega)
    rw [Bytes.length_leBytes] at same
    rw [field, Bytes.slice_patch_before (by omega) (by omega),
      Bytes.slice_patch_before (by omega) (by omega),
      Bytes.slice_patch_before (by omega) (by omega), same, Bytes.leValue_leBytes]
  · have same := Bytes.slice_patch_self 56 (leBytes 2 phnum)
      (patch 32 (leBytes 8 phoff) header) (by omega)
    rw [Bytes.length_leBytes] at same
    rw [field, Bytes.slice_patch_before (by omega) (by omega),
      Bytes.slice_patch_after (by simp [size]) (by simp), same, Bytes.leValue_leBytes]

/-- The program headers come first, then the section headers. -/
theorem appendTables_eq (header tail : List UInt8) (programs sections : List (List UInt8))
    (size : header.length = 64) :
    ∃ patched padding back, patched.length = 64 ∧ padding.length < 4 ∧
      slice 24 8 patched = slice 24 8 header ∧
      field 32 8 patched = (64 + tail.length + padding.length) % 256 ^ 8 ∧
      field 56 2 patched = programs.length % 256 ^ 2 ∧
      appendTable sectionHeaderOffset sectionHeaderNumberOffset sections
        (appendTable programHeaderOffset programHeaderNumberOffset programs (header ++ tail)) =
        patched ++ (tail ++ (padding ++ (programs.flatten ++ back))) := by
  obtain ⟨padding, first, short⟩ := appendTable_eq programHeaderOffset programHeaderNumberOffset
    programs header tail (by simp [programHeaderOffset, size]) (by simp [programHeaderNumberOffset, size])
  have inside : (patch programHeaderNumberOffset (leBytes 2 programs.length)
      (patch programHeaderOffset (leBytes 8 (header ++ (tail ++ padding)).length) header)).length = 64 := by
    have inner : (patch programHeaderOffset (leBytes 8 (header ++ (tail ++ padding)).length)
        header).length = 64 := by
      rw [Bytes.length_patch (by simp [programHeaderOffset, size]), size]
    rw [Bytes.length_patch (by rw [inner, Bytes.length_leBytes]; decide), inner]
  obtain ⟨padding', second, _⟩ := appendTable_eq sectionHeaderOffset sectionHeaderNumberOffset
    sections _ (tail ++ padding ++ programs.flatten)
    (by rw [inside]; decide) (by rw [inside]; decide)
  obtain ⟨length, entry, phoff, phnum⟩ := patched_header header size (header ++ (tail ++ padding)).length
    programs.length _ sections.length
  refine ⟨_, padding, padding' ++ sections.flatten, length, short, entry, ?_, phnum, ?_⟩
  · rw [phoff, List.length_append, List.length_append, size, Nat.add_assoc]
  · rw [first, second]
    simp only [List.append_assoc]
    rfl

/-- The file is the header, the data, the program headers and a rest. -/
theorem emitElf_layout (segments : List Segment) (entry : Nat) :
    ∃ header padding back, header.length = 64 ∧ padding.length < 4 ∧
      field 24 8 header = entry % 256 ^ 8 ∧
      field 32 8 header = (68 + (segments.flatMap Segment.data).length + padding.length) % 256 ^ 8 ∧
      field 56 2 header = (placed 68 segments).length % 256 ^ 2 ∧
      emitElf segments entry = header ++ (leBytes 4 0 ++ (segments.flatMap Segment.data ++ (padding ++
        (((placed 68 segments).map fun x => programHeader x.2 x.1).flatten ++ back)))) := by
  have size := length_elfHeader entry
  have elf : (segments.foldl Emission.segment (.start entry)).elf =
      elfHeader entry ++ (leBytes 4 0 ++ segments.flatMap Segment.data) := by
    rw [emission_elf, Emission.start, List.append_assoc]
  have headers : (segments.foldl Emission.segment (.start entry)).programHeaders =
      (placed 68 segments).map fun x => programHeader x.2 x.1 := by
    rw [emission_programHeaders]
    simp [Emission.start, size]
  obtain ⟨header, padding, back, length, short, start, phoff, phnum, equal⟩ :=
    appendTables_eq (elfHeader entry) (leBytes 4 0 ++ segments.flatMap Segment.data)
      ((placed 68 segments).map fun x => programHeader x.2 x.1)
      (segments.foldl Emission.segment (.start entry)).sectionHeaders size
  refine ⟨header, padding, back, length, short, ?_, ?_, ?_, ?_⟩
  · rw [field, start, slice_elfHeader_entry, Bytes.leValue_leBytes]
  · rw [phoff, List.length_append, Bytes.length_leBytes, ← Nat.add_assoc]
  · rw [phnum, List.length_map]
  · rw [emitElf, elf, headers, equal, List.append_assoc]

theorem field_entry (segments : List Segment) (entry : Nat) :
    field 24 8 (emitElf segments entry) = entry % 256 ^ 8 := by
  obtain ⟨header, padding, back, size, _, start, _, _, equal⟩ := emitElf_layout segments entry
  rw [equal, field, Bytes.slice_append_left _ (by omega), ← field, start]

/-! ### The program headers read back -/

theorem length_placed (offset : Nat) (segments : List Segment) :
    (placed offset segments).length = segments.length := by
  induction segments generalizing offset with
  | nil => rfl
  | cons segment segments ih => simp only [placed, List.length_cons, ih]

theorem placed_append (offset : Nat) (front back : List Segment) :
    placed offset (front ++ back) =
      placed offset front ++ placed (offset + (front.flatMap Segment.data).length) back := by
  induction front generalizing offset with
  | nil => simp [placed]
  | cons segment front ih => simp [placed, ih, Nat.add_assoc]

/-- A placed segment's data stands at its offset. -/
theorem slice_of_placed {base offset : Nat} {segments : List Segment} {segment : Segment}
    (member : (offset, segment) ∈ placed base segments) (front back : List UInt8)
    (length : front.length = base) :
    slice offset segment.data.length (front ++ (segments.flatMap Segment.data ++ back)) =
      segment.data ∧
    offset + segment.data.length ≤ base + (segments.flatMap Segment.data).length := by
  induction segments generalizing base front with
  | nil => simp [placed] at member
  | cons first segments ih =>
    simp only [placed, List.mem_cons, Prod.mk.injEq] at member
    simp only [List.flatMap_cons, List.append_assoc, List.length_append]
    rcases member with ⟨rfl, rfl⟩ | later
    · refine ⟨?_, by omega⟩
      rw [← length]
      exact Bytes.slice_middle front segment.data _
    · have rest := ih later (front ++ first.data) (by rw [List.length_append, length])
      rw [List.append_assoc] at rest
      exact ⟨rest.1, by omega⟩

theorem segment_mem_of_placed {base offset : Nat} {segments : List Segment} {segment : Segment}
    (member : (offset, segment) ∈ placed base segments) : segment ∈ segments := by
  induction segments generalizing base with
  | nil => simp [placed] at member
  | cons first segments ih =>
    simp only [placed, List.mem_cons, Prod.mk.injEq] at member
    rcases member with ⟨_, rfl⟩ | later
    · exact List.mem_cons_self
    · exact List.mem_cons_of_mem first (ih later)

theorem exists_placed (base : Nat) {segments : List Segment} {segment : Segment}
    (member : segment ∈ segments) : ∃ offset, (offset, segment) ∈ placed base segments := by
  induction segments generalizing base with
  | nil => simp at member
  | cons first segments ih =>
    rcases List.mem_cons.mp member with rfl | later
    · exact ⟨base, List.mem_cons_self⟩
    · obtain ⟨offset, found⟩ := ih (base + first.data.length) later
      exact ⟨offset, List.mem_cons_of_mem _ found⟩

/-- The header of a segment whose data stands at an offset. -/
def loadHeader (x : Nat × Segment) : ProgramHeader where
  type := 1
  flags := if x.2.executable then 5 else 6
  offset := x.1
  vaddr := x.2.start
  paddr := x.2.start
  filesz := x.2.data.length
  memsz := x.2.data.length
  align := 0x1000

theorem decodeProgramHeader_programHeader {offset : Nat} {segment : Segment}
    (offsetFits : offset < 2 ^ 64) (startFits : segment.start < 2 ^ 64)
    (lengthFits : segment.data.length < 2 ^ 64) :
    decodeProgramHeader (programHeader segment offset) = loadHeader (offset, segment) := by
  have parts : decodeProgramHeader (programHeader segment offset) = {
      type := leValue (leBytes 4 1)
      flags := leValue (leBytes 4 (if segment.executable then 5 else 6))
      offset := leValue (leBytes 8 offset)
      vaddr := leValue (leBytes 8 segment.start)
      paddr := leValue (leBytes 8 segment.start)
      filesz := leValue (leBytes 8 segment.data.length)
      memsz := leValue (leBytes 8 segment.data.length)
      align := leValue (leBytes 8 0x1000) } := rfl
  rw [parts, loadHeader, Bytes.leValue_leBytes_of_lt 8 offsetFits,
    Bytes.leValue_leBytes_of_lt 8 startFits,
    Bytes.leValue_leBytes_of_lt 8 lengthFits]
  cases segment.executable <;> rfl

theorem length_programHeader (segment : Segment) (offset : Nat) :
    (programHeader segment offset).length = 56 := rfl

theorem length_flatten_uniform {width : Nat} (table : List (List UInt8))
    (uniform : ∀ row ∈ table, row.length = width) : table.flatten.length = width * table.length := by
  rw [List.length_flatten, List.eq_replicate_of_mem (l := table.map List.length) (a := width)]
  · simp [Nat.mul_comm]
  · intro n member
    obtain ⟨row, inTable, rfl⟩ := List.mem_map.mp member
    exact uniform row inTable

/-- Reading the file gives back a header for each segment. -/
theorem readProgramHeaders_emitElf (segments : List Segment) (entry : Nat)
    (few : segments.length < 2 ^ 16)
    (small : (segments.flatMap Segment.data).length + 72 < 2 ^ 64)
    (low : ∀ segment ∈ segments, segment.start < 2 ^ 64) :
    readProgramHeaders (emitElf segments entry) = some ((placed 68 segments).map loadHeader) := by
  obtain ⟨header, padding, back, size, short, _, phoff, phnum, equal⟩ := emitElf_layout segments entry
  have uniform : ∀ row ∈ (placed 68 segments).map fun x => programHeader x.2 x.1, row.length = 56 := by
    intro row member
    obtain ⟨x, _, rfl⟩ := List.mem_map.mp member
    exact length_programHeader x.2 x.1
  have tableLength := length_flatten_uniform _ uniform
  rw [List.length_map] at tableLength
  -- the table starts where the header says
  have front : (header ++ (leBytes 4 0 ++ (segments.flatMap Segment.data ++ padding))).length =
      68 + (segments.flatMap Segment.data).length + padding.length := by
    simp only [List.length_append, size, Bytes.length_leBytes]
    omega
  have file : emitElf segments entry =
      (header ++ (leBytes 4 0 ++ (segments.flatMap Segment.data ++ padding))) ++
        (((placed 68 segments).map fun x => programHeader x.2 x.1).flatten ++ back) := by
    simp only [equal, List.append_assoc]
  have offset : field 32 8 (emitElf segments entry) =
      68 + (segments.flatMap Segment.data).length + padding.length := by
    rw [equal, field, Bytes.slice_append_left _ (by omega), ← field, phoff, Nat.mod_eq_of_lt]
    omega
  have number : field 56 2 (emitElf segments entry) = (placed 68 segments).length := by
    rw [equal, field, Bytes.slice_append_left _ (by omega), ← field, phnum, Nat.mod_eq_of_lt]
    rw [length_placed]
    omega
  rw [readProgramHeaders, offset, number, if_pos]
  · rw [Option.some.injEq]
    apply List.ext_getElem?
    intro i
    rw [List.getElem?_map, List.getElem?_map]
    by_cases inside : i < (placed 68 segments).length
    · obtain ⟨⟨place, segment⟩, here⟩ : ∃ x, (placed 68 segments)[i]? = some x :=
        ⟨_, List.getElem?_eq_getElem inside⟩
      have member := List.mem_of_getElem? here
      have row : slice (56 * i) 56 ((placed 68 segments).map fun x => programHeader x.2 x.1).flatten =
          programHeader segment place :=
        Bytes.slice_flatten _ uniform i _ (by rw [List.getElem?_map, here]; rfl)
      have bound := (slice_of_placed member (header ++ leBytes 4 0) [] (by simp [size])).2
      rw [List.getElem?_range inside, here, file, ← front, Option.map_some, Option.map_some,
        Bytes.slice_append_right, Bytes.slice_append_left _ (by rw [tableLength]; omega), row,
        decodeProgramHeader_programHeader (by omega) (low segment (segment_mem_of_placed member))
          (by omega)]
    · rw [List.getElem?_eq_none (by simpa using inside), List.getElem?_eq_none (by simpa using inside)]
      rfl
  · rw [file, List.length_append, front, List.length_append, tableLength]
    omega

theorem slice_emitElf {segments : List Segment} (entry : Nat) {x : Nat × Segment}
    (member : x ∈ placed 68 segments) :
    slice x.1 x.2.data.length (emitElf segments entry) = x.2.data ∧
      x.1 + x.2.data.length ≤ (emitElf segments entry).length := by
  obtain ⟨header, padding, back, size, _, _, _, _, equal⟩ := emitElf_layout segments entry
  have found := slice_of_placed (show (x.1, x.2) ∈ placed 68 segments from member) (header ++ leBytes 4 0) (padding ++
    (((placed 68 segments).map fun x => programHeader x.2 x.1).flatten ++ back)) (by simp [size])
  rw [equal, ← List.append_assoc header]
  refine ⟨found.1, ?_⟩
  simp only [List.length_append, size, Bytes.length_leBytes]
  omega

end ElfDumper
