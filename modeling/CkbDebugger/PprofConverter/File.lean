import Mathlib.Data.List.Dedup
import CkbDebugger.PprofConverter.Meaning
import CkbDebugger.PprofProtos.File

/-!
# The file of the converter

From the text of a flame graph to the bytes of a profile, and what a reader of the file finds
in it.
-/
namespace PprofConverter

open Protobuf (Bytes)
open Tree (Arena)
open Pprof (Tags TrieNode)
open PprofProtos (IterationOf Faithful Valid Computes readProfile)

/-- `main`, from the text of the input file to the bytes of the output file. `order` is the
order in which the texts of some frames are iterated, and `none` is a panic. -/
def convert (overflowChecks : Bool) (order : List Frame → List String) (text : List Char) (frequency : Int64) :
    Option Bytes :=
  (readFrames text).bind fun frames =>
    (buildProfile overflowChecks (order frames) frames frequency).bind PprofProtos.Profile.writeToBytes

/-- The texts of all frames are iterated in some order. -/
def Iterates (order : List Frame → List String) : Prop :=
  ∀ frames, IterationOf (order frames) (source.dedupStr (stacksOf frames))

/-- The texts in the order in which they come up. -/
def firstOrder (frames : List Frame) : List String := (source.dedupStr (stacksOf frames)).dedup

theorem iterates_firstOrder : Iterates firstOrder := fun _ => ⟨List.nodup_dedup _, fun _ => List.mem_dedup⟩

section Convert

variable {overflowChecks : Bool} {order : List Frame → List String} (iterates : Iterates order)
include iterates

/-- The file of some frames has a valid profile of them. -/
theorem readProfile_of_convert {text : List Char} {frames : List Frame} {frequency : Int64} {bytes : Bytes}
    (read : readFrames text = some frames) (converted : convert overflowChecks order text frequency = some bytes) :
    ∃ profile, buildProfile overflowChecks (order frames) frames frequency = some profile ∧
      readProfile bytes = some profile ∧ Valid source (stacksOf frames) profile := by
  rw [convert, read, Option.bind_some] at converted
  obtain ⟨profile, built, written⟩ := Option.bind_eq_some_iff.mp converted
  have valid := PprofProtos.valid_of_build (iterates frames) built
  exact ⟨profile, built, PprofProtos.readProfile_of_writeToBytes valid written, valid⟩

/-- Where the converter writes a file, it has a profile of the frames that it has read. The
profile is faithful to them exactly if symbols with the same name have the same file and the
cycles are below `2 ^ 63`. -/
theorem converted_file_faithful_iff {text : List Char} {frequency : Int64} {bytes : Bytes}
    (converted : convert overflowChecks order text frequency = some bytes) :
    ∃ frames profile, readFrames text = some frames ∧ readProfile bytes = some profile ∧
      Valid source (stacksOf frames) profile ∧
      (Faithful source (stacksOf frames) profile ↔
        (∀ a ∈ symbolsOf frames, ∀ b ∈ symbolsOf frames, a.nameText = b.nameText → a.fileText = b.fileText) ∧
        ∀ frame ∈ frames, frame.cycles.toNat < 2 ^ 63) := by
  obtain ⟨frames, read, -⟩ := Option.bind_eq_some_iff.mp converted
  obtain ⟨profile, built, found, valid⟩ := readProfile_of_convert iterates read converted
  have faithful := PprofProtos.faithful_iff (iterates frames) built
  rw [symbolsOf_eq, agree_iff, stacksOf, List.forall_mem_map] at faithful
  exact ⟨frames, profile, read, found, valid, faithful⟩

end Convert

/-- The flame graph of a call from one file into another. -/
def callText : List Char := "a.c:main 3\na.c:main; b.c:f 7\n".toList

def callFrames : List Frame :=
  [⟨[⟨some "main", some "a.c"⟩], 3⟩, ⟨[⟨some "f", some "b.c"⟩, ⟨some "main", some "a.c"⟩], 7⟩]

theorem callText_file_faithful : ∃ bytes profile, convert true firstOrder callText 500000000 = some bytes ∧
    readProfile bytes = some profile ∧ Faithful source (stacksOf callFrames) profile := by
  obtain ⟨bytes, converted⟩ := Option.isSome_iff_exists.mp
    (show (convert true firstOrder callText 500000000).isSome = true by decide +kernel)
  obtain ⟨frames, profile, read, found, -, faithful⟩ := converted_file_faithful_iff iterates_firstOrder converted
  have same : readFrames callText = some callFrames := by decide +kernel
  cases read.symm.trans same
  exact ⟨bytes, profile, converted, found, faithful.mpr ⟨by decide, by decide⟩⟩

/-! ### From a run to a file -/

section Nodes

variable (getTag : UInt64 → Tags) (trie : Arena TrieNode)

/-- The frames of all nodes in the order of the flame graph. -/
def nodeFrames : List Frame := (trie.preorder 0).map (nodeFrame getTag trie)

theorem mem_symbolsOf_nodeFrames (symbol : Symbol) :
    symbol ∈ symbolsOf (nodeFrames getTag trie) ↔ ∃ i < trie.size, nodeSymbol getTag trie i = symbol := by
  simp only [symbolsOf, nodeFrames, nodeFrame, List.flatMap_map, List.mem_flatMap, List.mem_map]
  constructor
  · rintro ⟨i, listed, j, above, same⟩
    have inside := (mem_preorder trie i).mp listed
    have upwards := trie.ancestors_le i j above
    exact ⟨j, by omega, same⟩
  · rintro ⟨i, inside, same⟩
    exact ⟨i, (mem_preorder trie i).mpr inside, i, trie.mem_ancestors_self i, same⟩

/-- The function of a node as the converter writes it. -/
def shownFunction (i : Nat) : String := normalizeFunctionName (getTag (trie.label i).addr).funcName

end Nodes

/-- A run is profiled, its flame graph is converted, and the file is read: the reader finds a
sample for every node of the trie with its path and its cycles, exactly if functions of the
same name are in the same file and no node has `2 ^ 63` cycles or more. -/
theorem profiled_file_faithful_iff (overflowChecks : Bool) {order : List Frame → List String}
    (iterates : Iterates order) (p : Pprof.Profile) (getTag : UInt64 → Tags)
    (oneLine : ∀ i < p.trie.size, OneLine (getTag (p.trie.label i).addr))
    (separable : ∀ i < p.trie.size, Separable (getTag (p.trie.label i).addr)) {frequency : Int64} {bytes : Bytes}
    (converted : convert overflowChecks order ((p.displayFlamegraph getTag).flatMap String.toList) frequency =
      some bytes) :
    ∃ profile, readProfile bytes = some profile ∧
      (Faithful source (stacksOf (nodeFrames getTag p.trie)) profile ↔
        (∀ i < p.trie.size, ∀ j < p.trie.size, shownFunction getTag p.trie i = shownFunction getTag p.trie j →
          (getTag (p.trie.label i).addr).file = (getTag (p.trie.label j).addr).file) ∧
        ∀ i < p.trie.size, (p.trie.label i).cycles.toNat < 2 ^ 63) := by
  have read : readFrames ((p.displayFlamegraph getTag).flatMap String.toList) =
      some (nodeFrames getTag p.trie) := by
    rw [readFrames_displayFlamegraph p getTag oneLine, nodeFrames, mapM_parseLine_iff]
    intro i listed
    apply parseLine_of_separable
    intro j above
    have inside := (mem_preorder p.trie i).mp listed
    have upwards := p.trie.ancestors_le i j above
    exact separable j (by omega)
  obtain ⟨profile, built, found, -⟩ := readProfile_of_convert iterates read converted
  refine ⟨profile, found, (PprofProtos.faithful_iff (iterates _) built).trans ?_⟩
  rw [symbolsOf_eq, agree_iff, stacksOf, List.forall_mem_map]
  refine and_congr ?_ ?_
  -- the symbols are those of the nodes
  · simp only [mem_symbolsOf_nodeFrames]
    constructor
    · intro agree i inI j inJ same
      have files := agree _ ⟨i, inI, rfl⟩ _ ⟨j, inJ, rfl⟩ (congrArg (fun name => Option.getD (some name) _) same)
      simpa [Symbol.fileText, nodeSymbol] using files
    · rintro agree _ ⟨i, inI, rfl⟩ _ ⟨j, inJ, rfl⟩ same
      exact agree i inI j inJ same
  · simp only [nodeFrames, List.forall_mem_map, nodeFrame, mem_preorder]

/-- The profile of a run that calls a function once. -/
def calledOnce : Pprof.Profile :=
  (((Pprof.Profile.new 0x100 (fun addr => addr == 0x200) 0 0).run [Pprof.jumpAndLink]).map Prod.fst).getD oneNode

theorem calledOnce_file_faithful : ∃ bytes profile,
    convert true firstOrder ((calledOnce.displayFlamegraph plainTags).flatMap String.toList) 500000000 = some bytes ∧
    readProfile bytes = some profile ∧ Faithful source (stacksOf (nodeFrames plainTags calledOnce.trie)) profile := by
  obtain ⟨bytes, converted⟩ := Option.isSome_iff_exists.mp
    (show (convert true firstOrder ((calledOnce.displayFlamegraph plainTags).flatMap String.toList)
      500000000).isSome = true by decide +kernel)
  obtain ⟨profile, found, faithful⟩ := profiled_file_faithful_iff true iterates_firstOrder calledOnce plainTags
    (by decide) (by decide) converted
  exact ⟨bytes, profile, converted, found, faithful.mpr ⟨by decide, by decide⟩⟩

end PprofConverter
