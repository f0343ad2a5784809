import CkbDebugger.PprofProtos.Builder

/-!
# The report of the signal profiler

How often each stack was seen, and the profile that is made of it. Hash maps are functions,
and the order in which one is iterated is an argument of what iterates it.
-/
namespace SignalProfiler

open PprofProtos (Source Profile)

structure Symbol where
  name : Option String
  line : Option UInt32
  file : Option String
  deriving Repr, DecidableEq

/-- `Symbol::name`. -/
def Symbol.nameText (symbol : Symbol) : String := symbol.name.getD "<Unknown>"

/-- `Symbol::line`. -/
def Symbol.lineNumber (symbol : Symbol) : UInt32 := symbol.line.getD 0

/-- `Symbol::file`. -/
def Symbol.fileText (symbol : Symbol) : String := symbol.file.getD "<Unknown>"

structure Frame where
  «stacks» : List Symbol
  deriving Repr, DecidableEq

structure Report where
  data : Frame → Option UInt64

/-- `Report::default`. -/
def Report.empty : Report where
  data := fun _ => none

def Report.insert (report : Report) (frame : Frame) (count : UInt64) : Report where
  data := fun other => if other = frame then some count else report.data other

/-- `Report::record`. `none` is the overflow of a count, which panics in a build with overflow
checks and wraps in one without. -/
def Report.record (overflowChecks : Bool) (report : Report) (frame : Frame) : Option Report :=
  match report.data frame with
  | some c => if overflowChecks = true ∧ c + 1 = 0 then none else some (report.insert frame (c + 1))
  | none => some (report.insert frame 1)

/-- The report after some calls of `record`. -/
def Report.recordAll (overflowChecks : Bool) (report : Report) : List Frame → Option Report
  | [] => some report
  | frame :: frames =>
    match report.record overflowChecks frame with
    | some report => report.recordAll overflowChecks frames
    | none => none

/-- The entries of a report in the order in which they are iterated. -/
structure Report.Iteration (report : Report) where
  entries : List (Frame × UInt64)
  distinct : (entries.map Prod.fst).Nodup
  same : ∀ frame count, (frame, count) ∈ entries ↔ report.data frame = some count

/-- `ReportTiming`, with the nanoseconds of its two times. -/
structure ReportTiming where
  frequency : Int32
  startNanos : Nat
  durationNanos : Nat

def SAMPLES : String := "samples"

def CPU : String := "cpu"

def source : Source Symbol where
  name := Symbol.nameText
  file := Symbol.fileText
  line := fun symbol => Int64.ofNat symbol.lineNumber.toNat
  countType := SAMPLES
  timeType := CPU

/-- The stacks of the entries with their counts. -/
def Report.Iteration.frames {report : Report} (iteration : report.Iteration) : List (List Symbol × UInt64) :=
  iteration.entries.map fun entry => (entry.1.stacks, entry.2)

def Report.pprof (report : Report) (iteration : report.Iteration) (overflowChecks : Bool) (order : List String)
    (timing : ReportTiming) : Option Profile :=
  source.build overflowChecks order iteration.frames timing.frequency.toInt64
    (Int64.ofNat timing.startNanos) (Int64.ofNat timing.durationNanos)

end SignalProfiler
