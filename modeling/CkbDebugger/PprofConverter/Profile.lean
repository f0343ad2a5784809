import CkbDebugger.PprofConverter.Frames
import CkbDebugger.SignalProfiler.Report

/-!
# The profile of the converter

The converter builds its profile like the signal profiler, with other texts and without
line numbers. Both profiles are well formed.
-/
namespace PprofConverter

open PprofProtos (Source Profile IterationOf MulFits Valid)

/-- `Symbol::name`. -/
def Symbol.nameText (symbol : Symbol) : String := symbol.name.getD "<Unknown>"

/-- `Symbol::file`. -/
def Symbol.fileText (symbol : Symbol) : String := symbol.file.getD "<Unknown>"

def CYCLES : String := "cycles"

def CPU : String := "fakecpu"

def source : Source Symbol where
  name := Symbol.nameText
  file := Symbol.fileText
  line := fun _ => 0
  countType := CYCLES
  timeType := CPU

/-- The stacks of the frames with their cycles. -/
def stacksOf (frames : List Frame) : List (List Symbol × UInt64) :=
  frames.map fun frame => (frame.stack, frame.cycles)

def buildProfile (overflowChecks : Bool) (order : List String) (frames : List Frame) (frequency : Int64) :
    Option PprofProtos.Profile :=
  source.build overflowChecks order (stacksOf frames) frequency 0 0

theorem toInt64_pos (frequency : Int32) (positive : 0 < frequency) : 0 < frequency.toInt64 := by
  rw [Int32.lt_iff_toInt_lt] at positive
  rw [Int64.lt_iff_toInt_lt, Int32.toInt_toInt64]
  exact positive

/-- Both builders return a valid profile, for any frames, any positive frequency and any order
in which the hash sets and maps are iterated. -/
theorem builders_valid (overflowChecks : Bool) (order : List String) :
    (∀ (frames : List Frame) (frequency : Int64),
      IterationOf order (source.dedupStr (stacksOf frames)) → 0 < frequency →
      (∀ frame ∈ frames, MulFits frame.cycles.toInt64 1000000000) →
      ∃ profile, buildProfile overflowChecks order frames frequency = some profile ∧
        Valid source (stacksOf frames) profile) ∧
    (∀ (report : SignalProfiler.Report) (iteration : report.Iteration) (timing : SignalProfiler.ReportTiming),
      IterationOf order (SignalProfiler.source.dedupStr iteration.frames) → 0 < timing.frequency →
      (∀ entry ∈ iteration.entries, MulFits entry.2.toInt64 1000000000) →
      ∃ profile, report.pprof iteration overflowChecks order timing = some profile ∧
        Valid SignalProfiler.source iteration.frames profile) := by
  constructor
  · intro frames frequency iterated positive fits
    apply PprofProtos.build_valid overflowChecks 0 0 iterated positive
    intro frame member
    obtain ⟨original, inside, rfl⟩ := List.mem_map.mp member
    exact fits original inside
  · intro report iteration timing iterated positive fits
    apply PprofProtos.build_valid overflowChecks _ _ iterated (toInt64_pos _ positive)
    intro frame member
    obtain ⟨entry, inside, rfl⟩ := List.mem_map.mp member
    exact fits entry inside

/-- Two stacks that share `main`, in two files, one below a function whose name is empty. -/
def sharedMain : List Frame :=
  [⟨[⟨some "", none⟩, ⟨some "main", some "a.c"⟩], 7⟩, ⟨[⟨some "main", some "b.c"⟩], 5⟩]

/-- The first stack, seen twice. -/
def innerFrame : SignalProfiler.Frame := ⟨[⟨some "", some 3, none⟩, ⟨some "main", some 9, some "a.c"⟩]⟩

/-- The second stack, seen once, at another line of `main`. -/
def outerFrame : SignalProfiler.Frame := ⟨[⟨some "main", some 4, some "b.c"⟩]⟩

def sharedReport : SignalProfiler.Report := (SignalProfiler.Report.empty.insert innerFrame 2).insert outerFrame 1

def sharedIteration : sharedReport.Iteration where
  entries := [(outerFrame, 1), (innerFrame, 2)]
  distinct := by decide
  same := by
    intro frame count
    have apart : outerFrame ≠ innerFrame := by decide
    by_cases outer : frame = outerFrame
    · subst outer
      simp only [sharedReport, SignalProfiler.Report.insert, if_pos, List.mem_cons, Prod.mk.injEq, apart]
      simp [eq_comm]
    · by_cases inner : frame = innerFrame
      · simp [sharedReport, SignalProfiler.Report.insert, inner, apart.symm, eq_comm (a := count)]
      · simp [sharedReport, SignalProfiler.Report.insert, SignalProfiler.Report.empty, outer, inner]

/-- The empty name is in the table of texts twice, and one `main` stands for both. -/
theorem empty_name_valid :
    (∃ profile, buildProfile true ["", "<Unknown>", "main", "a.c", "b.c", "cycles", "count", "fakecpu", "nanoseconds"]
      sharedMain 500000000 = some profile ∧ Valid source (stacksOf sharedMain) profile) ∧
    (∃ profile, sharedReport.pprof sharedIteration true
      ["", "<Unknown>", "main", "a.c", "b.c", "samples", "count", "cpu", "nanoseconds"] ⟨99, 0, 0⟩ = some profile ∧
      Valid SignalProfiler.source sharedIteration.frames profile) :=
  ⟨(builders_valid true _).1 sharedMain 500000000
      (PprofProtos.iterationOf_of_subset (by decide) (by decide) (by decide)) (by decide) (by decide),
    (builders_valid true _).2 sharedReport sharedIteration ⟨99, 0, 0⟩
      (PprofProtos.iterationOf_of_subset (by decide) (by decide) (by decide)) (by decide) (by decide)⟩

end PprofConverter
