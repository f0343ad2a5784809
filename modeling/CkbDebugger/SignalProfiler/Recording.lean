import Mathlib.Algebra.BigOperators.Group.List.Lemmas
import Mathlib.Algebra.BigOperators.Ring.Finset
import CkbDebugger.SignalProfiler.Report
import CkbDebugger.PprofProtos.Times

/-!
# What a recorded report means

A report counts how often each stack was recorded. The profile made of it has a sample for
each stack, but one function and one line for each name.
-/
namespace SignalProfiler

open PprofProtos (Source Profile IterationOf Computes firstNamed)

/-! ### Counting -/

theorem insert_data (report : Report) (frame other : Frame) (count : UInt64) :
    (report.insert frame count).data other = if other = frame then some count else report.data other := rfl

/-- What a report has for the frames that were recorded. -/
def Counts (report : Report) (calls : List Frame) : Prop :=
  ∀ frame, report.data frame = if frame ∈ calls then some (UInt64.ofNat (calls.count frame)) else none

theorem counts_record {overflowChecks : Bool} {report next : Report} {calls : List Frame} {frame : Frame}
    (counts : Counts report calls) (recorded : report.record overflowChecks frame = some next) :
    Counts next (calls ++ [frame]) := by
  have inserted : next = report.insert frame (UInt64.ofNat (calls.count frame) + 1) := by
    unfold Report.record at recorded
    rw [counts frame] at recorded
    by_cases seen : frame ∈ calls
    · rw [if_pos seen] at recorded
      simp only at recorded
      split at recorded
      · cases recorded
      · exact (Option.some.inj recorded).symm
    · rw [if_neg seen] at recorded
      rw [List.count_eq_zero_of_not_mem seen]
      exact (Option.some.inj recorded).symm
  intro other
  rw [inserted, insert_data, List.count_append]
  by_cases same : other = frame
  · rw [same, if_pos rfl, if_pos (by simp), List.count_singleton_self, UInt64.ofNat_add]
    rfl
  · rw [if_neg same, counts other, List.count_singleton]
    simp [same, Ne.symm same]

theorem counts_recordAll {overflowChecks : Bool} {report last : Report} {before calls : List Frame}
    (counts : Counts report before) (recorded : report.recordAll overflowChecks calls = some last) :
    Counts last (before ++ calls) := by
  induction calls generalizing report before with
  | nil =>
    cases recorded
    simpa using counts
  | cons frame calls ih =>
    unfold Report.recordAll at recorded
    split at recorded
    next next known =>
      have rest := ih (counts_record counts known) recorded
      rwa [List.append_assoc] at rest
    next => cases recorded

theorem counts_empty : Counts .empty [] := fun _ => (if_neg List.not_mem_nil).symm

theorem exists_record_iff {overflowChecks : Bool} {report : Report} {calls : List Frame} {frame : Frame}
    (counts : Counts report calls) (fits : overflowChecks = true → calls.count frame < 2 ^ 64) :
    (∃ next, report.record overflowChecks frame = some next) ↔
      (overflowChecks = true → calls.count frame + 1 < 2 ^ 64) := by
  unfold Report.record
  rw [counts frame]
  by_cases seen : frame ∈ calls
  · have wraps : calls.count frame < 2 ^ 64 →
        (UInt64.ofNat (calls.count frame) + 1 = 0 ↔ 2 ^ 64 ≤ calls.count frame + 1) := by
      intro small
      rw [← UInt64.toNat_inj, UInt64.toNat_add, UInt64.toNat_ofNat']
      simp only [UInt64.reduceToNat]
      omega
    rw [if_pos seen]
    cases overflowChecks with
    | false => simp
    | true =>
      by_cases last : 2 ^ 64 ≤ calls.count frame + 1
      · have zero := (wraps (fits rfl)).mpr last
        exact iff_of_false (by simp [zero]) fun small => Nat.not_le.mpr (small rfl) last
      · have nonzero := mt (wraps (fits rfl)).mp last
        exact iff_of_true (by simp [nonzero]) fun _ => Nat.not_le.mp last
  · rw [if_neg seen, List.count_eq_zero_of_not_mem seen]
    simp

/-- The calls return unless a count overflows. -/
theorem exists_recordAll_iff {overflowChecks : Bool} {report : Report} {before : List Frame} (calls : List Frame)
    (counts : Counts report before) (fits : overflowChecks = true → ∀ frame, before.count frame < 2 ^ 64) :
    (∃ last, report.recordAll overflowChecks calls = some last) ↔
      (overflowChecks = true → ∀ frame, (before ++ calls).count frame < 2 ^ 64) := by
  induction calls generalizing report before with
  | nil => simpa [Report.recordAll] using fits
  | cons frame calls ih =>
    have step := exists_record_iff counts fun checks => fits checks frame
    rw [Report.recordAll]
    cases known : report.record overflowChecks frame with
    | none =>
      refine iff_of_false (by simp) fun small => ?_
      have missing : ¬∃ next, report.record overflowChecks frame = some next := by simp [known]
      refine missing (step.mpr fun checks => ?_)
      have bound := small checks frame
      rw [List.count_append, List.count_cons_self] at bound
      omega
    | some next =>
      rw [← List.singleton_append, ← List.append_assoc]
      refine ih (counts_record counts known) fun checks other => ?_
      rw [List.count_append]
      by_cases same : other = frame
      · rw [same, List.count_singleton_self]
        exact step.mp ⟨next, known⟩ checks
      · rw [List.count_eq_zero_of_not_mem (l := [frame]) (by simpa using same)]
        exact fits checks other

/-- A report can be iterated in some order. -/
def Counts.iteration {report : Report} {calls : List Frame} (counts : Counts report calls) : report.Iteration where
  entries := calls.dedup.map fun frame => (frame, UInt64.ofNat (calls.count frame))
  distinct := by
    rw [List.map_map]
    simpa [Function.comp_def] using List.nodup_dedup calls
  same := by
    intro frame count
    rw [counts frame]
    by_cases seen : frame ∈ calls <;> simp [seen, eq_comm]

theorem Counts.iteration_frames {report : Report} {calls : List Frame} (counts : Counts report calls) :
    counts.iteration.frames = calls.dedup.map fun frame => (frame.stacks, UInt64.ofNat (calls.count frame)) := by
  rw [Report.Iteration.frames, Counts.iteration, List.map_map]
  rfl

/-! ### The profile of the report -/

/-- The profile has one sample for each frame that was recorded, with its symbols and the number
of its records, and the numbers add up to the number of all records. -/
structure FaithfulReport (calls : List Frame) (profile : Profile) : Prop where
  samples : ∃ distinct : List Frame, distinct.Nodup ∧ (∀ frame, frame ∈ distinct ↔ frame ∈ calls) ∧
    List.Forall₂ (fun frame sample => sample.Shows source profile frame.stacks (calls.count frame))
      distinct profile.sample
  total : (profile.sample.map fun sample => (sample.value.head?.map Int64.toInt).getD 0).sum = calls.length

def symbolsOf (calls : List Frame) : List Symbol := calls.flatMap Frame.stacks

/-- Symbols with the same name are shown alike if they have the same file and line number. -/
theorem agree_iff (symbols : List Symbol) : source.Agree symbols ↔
    ∀ a ∈ symbols, ∀ b ∈ symbols, a.nameText = b.nameText →
      a.fileText = b.fileText ∧ a.lineNumber = b.lineNumber := by
  refine forall₂_congr fun a _ => forall₂_congr fun b _ => forall_congr' fun same => ?_
  have names : a.nameText = b.nameText := same
  have lines : Int64.ofNat a.lineNumber.toNat = Int64.ofNat b.lineNumber.toNat ↔ a.lineNumber = b.lineNumber := by
    have aBound := a.lineNumber.toNat_lt
    have bBound := b.lineNumber.toNat_lt
    have size : Int64.size = 2 ^ 64 := by rfl
    rw [← Int64.toInt_inj, Int64.toInt_ofNat', Int64.toInt_ofNat', ← UInt32.toNat_inj, Int.bmod_def, Int.bmod_def, size]
    omega
  simp [Source.shown, source, names, lines]

section Report

variable {report : Report} {calls : List Frame} (counts : Counts report calls) (iteration : report.Iteration)
include counts

theorem mem_entries_iff (frame : Frame) (count : UInt64) : (frame, count) ∈ iteration.entries ↔
    frame ∈ calls ∧ count = UInt64.ofNat (calls.count frame) := by
  rw [iteration.same, counts frame]
  by_cases seen : frame ∈ calls <;> simp [seen, eq_comm]

theorem mem_iteration_symbols_iff (symbol : Symbol) :
    symbol ∈ iteration.frames.flatMap Prod.fst ↔ symbol ∈ symbolsOf calls := by
  simp only [Report.Iteration.frames, symbolsOf, List.flatMap_map, List.mem_flatMap, Prod.exists,
    mem_entries_iff counts]
  constructor
  · rintro ⟨frame, count, ⟨seen, -⟩, inside⟩
    exact ⟨frame, seen, inside⟩
  · rintro ⟨frame, seen, inside⟩
    exact ⟨frame, _, ⟨seen, rfl⟩, inside⟩

/-- The samples of the profile, entry by entry. -/
theorem samples_of_pprof {overflowChecks : Bool} {order : List String} {timing : ReportTiming} {profile : Profile}
    (texts : IterationOf order (source.dedupStr iteration.frames))
    (built : report.pprof iteration overflowChecks order timing = some profile) :
    List.Forall₂ (fun entry sample => ∀ (stack : List Symbol) (count : Nat), sample.Shows source profile stack count ↔
      (entry.1.stacks.map fun symbol => (firstNamed source iteration.frames symbol).map source.shown) =
        (stack.map fun symbol => some (source.shown symbol)) ∧
      (UInt64.ofNat (calls.count entry.1)).toInt64.toInt = count) iteration.entries profile.sample := by
  have sampled := (PprofProtos.samples_of_build texts built).2
  have entries := List.forall₂_map_left_iff.mp sampled
  refine ((List.forall₂_and_left _ _).mpr ⟨fun _ member => member, entries⟩).imp ?_
  rintro ⟨frame, count⟩ sample ⟨member, made⟩ stack shown
  obtain ⟨-, rfl⟩ := (mem_entries_iff counts iteration frame count).mp member
  exact PprofProtos.sample_shows_iff texts built (List.mem_map_of_mem member) made stack shown

/-- Symbols with the same name agree if each is shown as the first of its name. -/
theorem agree_symbolsOf_iff : source.Agree (symbolsOf calls) ↔ ∀ symbol ∈ symbolsOf calls,
    (firstNamed source iteration.frames symbol).map source.shown = some (source.shown symbol) := by
  have first := PprofProtos.forall_firstNamed_iff source iteration.frames
  simp only [Source.Agree, mem_iteration_symbols_iff counts iteration] at first
  exact first.symm

section Built

variable {overflowChecks : Bool} {order : List String} {timing : ReportTiming} {profile : Profile}
  (texts : IterationOf order (source.dedupStr iteration.frames))
  (built : report.pprof iteration overflowChecks order timing = some profile)
include texts built

theorem agree_of_faithfulReport (faithful : FaithfulReport calls profile) :
    source.Agree (symbolsOf calls) ∧ ∀ frame ∈ calls, calls.count frame < 2 ^ 63 := by
  obtain ⟨distinct, -, same, shows⟩ := faithful.samples
  have made := samples_of_pprof counts iteration texts built
  -- a recorded frame is what the sample of some entry shows, whichever entry that is
  have shown : ∀ frame ∈ calls, ∃ entry ∈ iteration.entries,
      (entry.1.stacks.map fun symbol => (firstNamed source iteration.frames symbol).map source.shown) =
        (frame.stacks.map fun symbol => some (source.shown symbol)) ∧
      (UInt64.ofNat (calls.count entry.1)).toInt64.toInt = calls.count frame := by
    intro frame member
    obtain ⟨sample, inSamples, shown⟩ := PprofProtos.exists_of_forall₂ shows ((same frame).mpr member)
    obtain ⟨entry, inEntries, means⟩ := PprofProtos.exists_of_forall₂ made.flip inSamples
    exact ⟨entry, inEntries, (means frame.stacks (calls.count frame)).mp shown⟩
  rw [agree_symbolsOf_iff counts iteration]
  constructor
  · intro symbol member
    obtain ⟨frame, inCalls, inStack⟩ := List.mem_flatMap.mp member
    obtain ⟨entry, inEntries, alike, -⟩ := shown frame inCalls
    have here : some (source.shown symbol) ∈ frame.stacks.map fun symbol => some (source.shown symbol) :=
      List.mem_map_of_mem inStack
    rw [← alike] at here
    obtain ⟨other, inEntry, first⟩ := List.mem_map.mp here
    have listed : other ∈ iteration.frames.flatMap Prod.fst :=
      List.mem_flatMap.mpr ⟨_, List.mem_map_of_mem inEntries, inEntry⟩
    obtain ⟨found, -, known, named⟩ := PprofProtos.firstNamed_isSome source listed
    rw [known, Option.map_some, Option.some.injEq] at first
    -- the first symbol of the other name has the name of this one
    have names : source.name other = source.name symbol :=
      named.symm.trans (congrArg PprofProtos.Shown.name first)
    rw [firstNamed, ← names, ← firstNamed, known, Option.map_some, first]
  · intro frame member
    obtain ⟨entry, -, -, count⟩ := shown frame member
    have bound := (UInt64.ofNat (calls.count entry.1)).toInt64.toInt_lt
    omega

theorem faithfulReport_of_agree (agrees : source.Agree (symbolsOf calls))
    (small : ∀ frame ∈ calls, calls.count frame < 2 ^ 63) : FaithfulReport calls profile := by
  have made := samples_of_pprof counts iteration texts built
  have each := (agree_symbolsOf_iff counts iteration).mp agrees
  have recorded : ∀ entry ∈ iteration.entries, entry.1 ∈ calls := fun entry member =>
    ((mem_entries_iff counts iteration entry.1 entry.2).mp member).1
  have shows : List.Forall₂ (fun entry sample =>
      sample.Shows source profile entry.1.stacks (calls.count entry.1)) iteration.entries profile.sample := by
    refine ((List.forall₂_and_left _ _).mpr ⟨recorded, made⟩).imp ?_
    rintro entry sample ⟨member, means⟩
    refine (means _ _).mpr ⟨List.map_congr_left fun symbol inside => ?_, ?_⟩
    · exact each symbol (List.mem_flatMap.mpr ⟨_, member, inside⟩)
    · have bound := small entry.1 member
      rw [PprofProtos.toInt_toInt64, UInt64.toNat_ofNat', Int.bmod_def]
      omega
  have same : ∀ frame, frame ∈ iteration.entries.map Prod.fst ↔ frame ∈ calls := by
    intro frame
    simp [mem_entries_iff counts iteration]
  refine ⟨⟨_, iteration.distinct, same, List.forall₂_map_left_iff.mpr shows⟩, ?_⟩
  have values : (profile.sample.map fun sample => (sample.value.head?.map Int64.toInt).getD 0) =
      ((iteration.entries.map Prod.fst).map fun frame => calls.count frame).map (Nat.cast : Nat → Int) := by
    rw [List.map_map, List.map_map, ← List.forall₂_eq_eq_eq, List.forall₂_map_left_iff, List.forall₂_map_right_iff]
    exact shows.flip.imp fun sample entry shown => by rw [shown.count, Option.getD_some]; rfl
  -- the entries are the stacks that were recorded, each once
  have dedup : (iteration.entries.map Prod.fst).Perm calls.dedup :=
    (List.perm_ext_iff_of_nodup iteration.distinct (List.nodup_dedup calls)).mpr fun frame => by
      rw [same, List.mem_dedup]
  rw [values, ← Nat.cast_list_sum, (dedup.map _).sum_eq, List.sum_map_count_dedup_eq_length]

end Built

end Report

/-- The calls of `record` return unless a count overflows. From then on a profile is made
unless the times cannot be computed, and it is faithful to the calls exactly if symbols with
the same name have the same file and line number and every frame was recorded less than
`2 ^ 63` times, in whatever order the report and the texts are iterated. -/
theorem report_faithful_iff (overflowChecks : Bool) (calls : List Frame) :
    ((∃ report, Report.empty.recordAll overflowChecks calls = some report) ↔
      (overflowChecks = true → ∀ frame, calls.count frame < 2 ^ 64)) ∧
    ∀ report, Report.empty.recordAll overflowChecks calls = some report →
      ∀ (iteration : report.Iteration) (order : List String) (timing : ReportTiming),
        IterationOf order (source.dedupStr iteration.frames) →
        ((∃ profile, report.pprof iteration overflowChecks order timing = some profile) ↔
          timing.frequency ≠ 0 ∧ ∀ frame ∈ calls,
            Computes overflowChecks timing.frequency.toInt64 (UInt64.ofNat (calls.count frame))) ∧
        ∀ profile, report.pprof iteration overflowChecks order timing = some profile →
          (FaithfulReport calls profile ↔
            (∀ a ∈ symbolsOf calls, ∀ b ∈ symbolsOf calls, a.nameText = b.nameText →
              a.fileText = b.fileText ∧ a.lineNumber = b.lineNumber) ∧
            ∀ frame ∈ calls, calls.count frame < 2 ^ 63) := by
  refine ⟨exists_recordAll_iff calls counts_empty (by simp), ?_⟩
  intro report recorded iteration order timing texts
  have counts : Counts report calls := counts_recordAll counts_empty recorded
  constructor
  · have nonzero : timing.frequency.toInt64 ≠ 0 ↔ timing.frequency ≠ 0 := by
      rw [Ne, Ne, ← Int64.toInt_inj, ← Int32.toInt_inj, Int32.toInt_toInt64]
      rfl
    -- apart from the frequency, only the times that are computed from the counts can make a build fail
    refine (PprofProtos.exists_build_iff overflowChecks _ _ _ texts).trans ?_
    rw [← nonzero]
    refine and_congr_right fun other => ?_
    simp only [PprofProtos.exists_values_iff overflowChecks other, Report.Iteration.frames, List.forall_mem_map]
    constructor
    · intro computes frame member
      exact computes (frame, _) ((mem_entries_iff counts iteration frame _).mpr ⟨member, rfl⟩)
    · intro computes entry member
      obtain ⟨seen, count⟩ := (mem_entries_iff counts iteration entry.1 entry.2).mp member
      rw [count]
      exact computes entry.1 seen
  · intro profile built
    rw [← agree_iff]
    exact ⟨agree_of_faithfulReport counts iteration texts built,
      fun both => faithfulReport_of_agree counts iteration texts built both.1 both.2⟩

/-- One stack that is recorded twice, and another one that shares its caller. -/
def sharedCaller : List Frame :=
  [⟨[⟨some "f", some 3, some "a.c"⟩, ⟨some "main", some 9, some "b.c"⟩]⟩, ⟨[⟨some "main", some 9, some "b.c"⟩]⟩,
    ⟨[⟨some "f", some 3, some "a.c"⟩, ⟨some "main", some 9, some "b.c"⟩]⟩]

def sharedCallerTexts : List String := ["f", "a.c", "main", "b.c", "samples", "count", "cpu", "nanoseconds"]

theorem sharedCaller_faithful : ∃ report, Report.empty.recordAll true sharedCaller = some report ∧
    ∃ (iteration : report.Iteration) (profile : Profile),
      report.pprof iteration true sharedCallerTexts ⟨99, 0, 0⟩ = some profile ∧
      FaithfulReport sharedCaller profile := by
  obtain ⟨recorded, means⟩ := report_faithful_iff true sharedCaller
  have few : ∀ frame, sharedCaller.count frame < 2 ^ 63 := fun frame =>
    Nat.lt_of_le_of_lt List.count_le_length (by decide)
  obtain ⟨report, known⟩ := recorded.mpr fun _ frame => Nat.lt_of_lt_of_le (few frame) (by decide)
  have counts : Counts report sharedCaller := counts_recordAll counts_empty known
  have texts : IterationOf sharedCallerTexts (source.dedupStr counts.iteration.frames) := by
    rw [counts.iteration_frames]
    exact PprofProtos.iterationOf_of_subset (by decide) (by decide) (by decide)
  obtain ⟨made, faithful⟩ := means report known counts.iteration sharedCallerTexts ⟨99, 0, 0⟩ texts
  obtain ⟨profile, built⟩ := made.mpr ⟨by decide, by decide⟩
  exact ⟨report, known, counts.iteration, profile, built,
    (faithful profile built).mpr ⟨by decide, fun frame _ => few frame⟩⟩

/-- One function at two lines. -/
def twoLines : List Frame := [⟨[⟨some "f", some 3, some "a.c"⟩]⟩, ⟨[⟨some "f", some 5, some "a.c"⟩]⟩]

theorem second_line_lost : ∃ report, Report.empty.recordAll true twoLines = some report ∧
    ∃ (iteration : report.Iteration) (profile : Profile),
      report.pprof iteration true ["f", "a.c", "samples", "count", "cpu", "nanoseconds"] ⟨99, 0, 0⟩ = some profile ∧
      ¬FaithfulReport twoLines profile := by
  obtain ⟨report, known⟩ := (exists_recordAll_iff twoLines counts_empty (fun _ => by simp)).mpr
    fun (_ : true = true) frame => Nat.lt_of_le_of_lt List.count_le_length (by decide)
  have counts : Counts report twoLines := counts_recordAll counts_empty known
  have texts : IterationOf ["f", "a.c", "samples", "count", "cpu", "nanoseconds"]
      (source.dedupStr counts.iteration.frames) := by
    rw [counts.iteration_frames]
    exact PprofProtos.iterationOf_of_subset (by decide) (by decide) (by decide)
  obtain ⟨profile, built, -⟩ := PprofProtos.build_valid true 0 0 texts (show (0 : Int64) < 99 by decide) (by
    rw [counts.iteration_frames]
    decide)
  have made : report.pprof counts.iteration true ["f", "a.c", "samples", "count", "cpu", "nanoseconds"] ⟨99, 0, 0⟩ =
      some profile := built
  refine ⟨report, known, counts.iteration, profile, made, fun faithful => ?_⟩
  have agree := (agree_iff _).mp (agree_of_faithfulReport counts counts.iteration texts made faithful).1
  exact absurd (agree ⟨some "f", some 3, some "a.c"⟩ (by decide) ⟨some "f", some 5, some "a.c"⟩ (by decide)
    (by decide)) (by decide)

end SignalProfiler
