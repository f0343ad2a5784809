import CkbDebugger.PprofConverter.Profile
import CkbDebugger.PprofProtos.Times

/-!
# What the profile of the converter means

Functions are looked up by their names alone, so that the profile gives the files of the
symbols back only where a name has one file. The times are exact only where the product
with the nanoseconds of a second fits.
-/
namespace PprofConverter

open PprofProtos (Source Profile IterationOf Computes Faithful TimesExact exactTime)

def symbolsOf (frames : List Frame) : List Symbol := frames.flatMap Frame.stack

theorem symbolsOf_eq (frames : List Frame) : (stacksOf frames).flatMap Prod.fst = symbolsOf frames := by
  rw [stacksOf, List.flatMap_map, symbolsOf]

/-- Symbols with the same name are shown alike if they have the same file: no line is shown. -/
theorem agree_iff (symbols : List Symbol) : source.Agree symbols ↔
    ∀ a ∈ symbols, ∀ b ∈ symbols, a.nameText = b.nameText → a.fileText = b.fileText := by
  refine forall₂_congr fun a _ => forall₂_congr fun b _ => forall_congr' fun same => ?_
  have names : a.nameText = b.nameText := same
  simp [Source.shown, source, names]

/-- The converter makes a profile unless the times cannot be computed, and the profile is
faithful to the frames exactly if symbols with the same name have the same file and the
cycles are below `2 ^ 63`. -/
theorem converter_faithful_iff (overflowChecks : Bool) (order : List String) (frames : List Frame)
    (frequency : Int64) (iteration : IterationOf order (source.dedupStr (stacksOf frames))) :
    ((∃ profile, buildProfile overflowChecks order frames frequency = some profile) ↔
      frequency ≠ 0 ∧ ∀ frame ∈ frames, Computes overflowChecks frequency frame.cycles) ∧
    ∀ profile, buildProfile overflowChecks order frames frequency = some profile →
      (Faithful source (stacksOf frames) profile ↔
        (∀ a ∈ symbolsOf frames, ∀ b ∈ symbolsOf frames, a.nameText = b.nameText → a.fileText = b.fileText) ∧
        ∀ frame ∈ frames, frame.cycles.toNat < 2 ^ 63) := by
  constructor
  · refine (PprofProtos.exists_build_iff overflowChecks frequency 0 0 iteration).trans ?_
    refine and_congr_right fun nonzero => ?_
    rw [stacksOf, List.forall_mem_map]
    exact forall₂_congr fun frame _ => PprofProtos.exists_values_iff overflowChecks nonzero frame.cycles
  · intro profile built
    rw [PprofProtos.faithful_iff iteration built, symbolsOf_eq, agree_iff, stacksOf, List.forall_mem_map]

/-- A call and its caller, in two files. -/
def callAndCaller : List Frame :=
  [⟨[⟨some "f", some "a.c"⟩, ⟨some "main", some "b.c"⟩], 7⟩, ⟨[⟨some "main", some "b.c"⟩], 3⟩]

theorem callAndCaller_faithful : ∃ profile,
    buildProfile true ["f", "a.c", "main", "b.c", "cycles", "count", "fakecpu", "nanoseconds"] callAndCaller
      500000000 = some profile ∧ Faithful source (stacksOf callAndCaller) profile := by
  obtain ⟨built, faithful⟩ := converter_faithful_iff true
    ["f", "a.c", "main", "b.c", "cycles", "count", "fakecpu", "nanoseconds"] callAndCaller 500000000
    (PprofProtos.iterationOf_of_subset (by decide) (by decide) (by decide))
  obtain ⟨profile, here⟩ := built.mpr ⟨by decide, by decide⟩
  exact ⟨profile, here, (faithful profile here).mpr ⟨by decide, by decide⟩⟩

/-- Two functions with one name, each in a file of its own. -/
def twoFiles : List Frame := [⟨[⟨some "f", some "a.c"⟩], 1⟩, ⟨[⟨some "f", some "b.c"⟩], 2⟩]

theorem second_file_lost : ∃ profile,
    buildProfile true ["f", "a.c", "b.c", "cycles", "count", "fakecpu", "nanoseconds"] twoFiles 500000000 =
      some profile ∧ ¬Faithful source (stacksOf twoFiles) profile := by
  have iteration : IterationOf ["f", "a.c", "b.c", "cycles", "count", "fakecpu", "nanoseconds"]
      (source.dedupStr (stacksOf twoFiles)) := PprofProtos.iterationOf_of_subset (by decide) (by decide) (by decide)
  obtain ⟨profile, built, -⟩ := PprofProtos.build_valid true 0 0 iteration
    (show (0 : Int64) < 500000000 by decide) (by decide)
  refine ⟨profile, built, fun faithful => ?_⟩
  have agree := (agree_iff _).mp ((PprofProtos.faithful_iff iteration built).mp faithful).1
  exact absurd (agree ⟨some "f", some "a.c"⟩ (by decide) ⟨some "f", some "b.c"⟩ (by decide) (by decide)) (by decide)

/-! ### Times -/

/-- Both builders return a profile in which every time is exact exactly if no product with the
nanoseconds of a second overflows. -/
theorem time_values_exact_iff (overflowChecks : Bool) (order : List String) :
    (∀ (frames : List Frame) (frequency : Int64),
      IterationOf order (source.dedupStr (stacksOf frames)) → 0 < frequency →
      ((∃ profile, buildProfile overflowChecks order frames frequency = some profile ∧
        TimesExact (stacksOf frames) frequency profile) ↔
        ∀ frame ∈ frames, frame.cycles.toNat * 1000000000 < 2 ^ 63)) ∧
    (∀ (report : SignalProfiler.Report) (iteration : report.Iteration) (timing : SignalProfiler.ReportTiming),
      IterationOf order (SignalProfiler.source.dedupStr iteration.frames) → 0 < timing.frequency →
      ((∃ profile, report.pprof iteration overflowChecks order timing = some profile ∧
        TimesExact iteration.frames timing.frequency.toInt64 profile) ↔
        ∀ entry ∈ iteration.entries, entry.2.toNat * 1000000000 < 2 ^ 63)) := by
  constructor
  · intro frames frequency iterated positive
    have exact := PprofProtos.exists_timesExact_iff overflowChecks 0 0 positive iterated
    rw [stacksOf, List.forall_mem_map] at exact
    exact exact
  · intro report iteration timing iterated positive
    have exact := PprofProtos.exists_timesExact_iff overflowChecks (Int64.ofNat timing.startNanos)
      (Int64.ofNat timing.durationNanos) (toInt64_pos _ positive) iterated
    rw [SignalProfiler.Report.Iteration.frames, List.forall_mem_map] at exact
    exact exact

theorem callAndCaller_times : ∃ profile,
    buildProfile true ["f", "a.c", "main", "b.c", "cycles", "count", "fakecpu", "nanoseconds"] callAndCaller
      500000000 = some profile ∧ TimesExact (stacksOf callAndCaller) 500000000 profile :=
  ((time_values_exact_iff true ["f", "a.c", "main", "b.c", "cycles", "count", "fakecpu", "nanoseconds"]).1
    callAndCaller 500000000 (PprofProtos.iterationOf_of_subset (by decide) (by decide) (by decide))
    (by decide)).mpr (by decide)

/-- The cycles of about 18 seconds at the default frequency. -/
def longRun : List Frame := [⟨[⟨some "f", none⟩], 9223372037⟩]

/-- The exact time of the long run is an `i64`, but neither build writes it: one stops at the
overflow of the product, the other writes the quotient of a wrapped product. -/
theorem long_run_time_lost :
    exactTime 500000000 9223372037 = 18446744074 ∧
    buildProfile true ["f", "<Unknown>", "cycles", "count", "fakecpu", "nanoseconds"] longRun 500000000 = none ∧
    ∃ profile, buildProfile false ["f", "<Unknown>", "cycles", "count", "fakecpu", "nanoseconds"] longRun
      500000000 = some profile ∧ ¬TimesExact (stacksOf longRun) 500000000 profile := by
  have iteration : IterationOf ["f", "<Unknown>", "cycles", "count", "fakecpu", "nanoseconds"]
      (source.dedupStr (stacksOf longRun)) := PprofProtos.iterationOf_of_subset (by decide) (by decide) (by decide)
  refine ⟨by decide, ?_, ?_⟩
  · rw [Option.eq_none_iff_forall_not_mem]
    intro profile built
    have computed := ((PprofProtos.exists_build_iff true 500000000 0 0 iteration).mp ⟨profile, built⟩).2
    have fits := (PprofProtos.exists_values_iff true (by decide) 9223372037).mp (computed _ List.mem_cons_self)
    exact absurd (fits.1 rfl) (by decide)
  · have values := (PprofProtos.exists_values_iff false (show (500000000 : Int64) ≠ 0 by decide) 9223372037).mpr
      ⟨by decide, by decide⟩
    obtain ⟨profile, built⟩ := (PprofProtos.exists_build_iff false 500000000 0 0 iteration).mpr
      ⟨by decide, fun frame member => List.mem_singleton.mp member ▸ values⟩
    refine ⟨profile, built, fun exact => ?_⟩
    have small := (PprofProtos.exists_timesExact_iff false 0 0 (show (0 : Int64) < 500000000 by decide)
      iteration).mp ⟨profile, built, exact⟩
    exact absurd small (by decide)

end PprofConverter
