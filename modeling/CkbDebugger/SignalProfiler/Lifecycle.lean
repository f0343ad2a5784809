import CkbDebugger.History.Basic
import CkbDebugger.PprofProtos.File
import CkbDebugger.SignalProfiler.Recording
import CkbDebugger.SignalProfiler.Unwinder

/-!
# Starting and stopping the signal profiler

The profiler is one per process. Between its start and its stop a timer sends signals, whose
handler records the stack of the machine; at the stop the records go into a file. `none` is a
panic.
-/
namespace SignalProfiler

open Protobuf (Bytes)
open PprofProtos (Profile IterationOf readProfile)

/-! ### The timer -/

/-- `Timer`, with the time of its creation. -/
structure Timer where
  frequency : Int32
  startNanos : Nat
  deriving Repr, DecidableEq

/-- The `interval` of `Timer::new`, in microseconds; there is none for the frequency 0. -/
def interval (frequency : Int32) : Option Int :=
  if frequency = 0 then none else some (Int.tdiv 1000000 frequency.toInt)

/-- `setitimer`, with the interval of the timer that runs. A negative interval is an error of the
call, which nobody looks at. -/
def setitimer (running new : Int) : Int :=
  let tvSec := Int.tdiv new 1000000
  let tvUsec := Int.tmod new 1000000
  if tvSec < 0 ∨ tvUsec < 0 then running else tvSec * 1000000 + tvUsec

/-! ### The process -/

/-- What a signal does to the process. -/
inductive Disposition where
  | default
  | handler
  | ignore
  deriving Repr, DecidableEq

/-- `Profiler`; the machine comes with each signal. -/
structure Started where
  fname : String
  profiler : Profiler
  timer : Timer

/-- The state that the profiler shares with the system. -/
structure Process where
  profiler : Option Started
  disposition : Disposition
  /-- The interval of the timer in microseconds; 0 is a timer that does not run. -/
  running : Int
  files : String → Option Bytes

def Process.initial (files : String → Option Bytes) : Process where
  profiler := none
  disposition := .default
  running := 0
  files := files

/-- The arguments of `start_profiler`, with the results of `build_context` and `sigaction`. -/
structure Start where
  fname : String
  context : Except String DebugContext
  sigaction : Except String Unit
  frequency : Int32
  now : Nat

def startProfiler (process : Process) (call : Start) : Option (Except String Unit × Process) :=
  match process.profiler with
  | some _ => some (.error "Profiler already started!", process)
  | none =>
    match call.context, call.sigaction with
    | .error e, _ => some (.error e, process)
    | .ok _, .error e => some (.error ("sigaction install error: " ++ e), process)
    | .ok context, .ok () =>
      (interval call.frequency).map fun interval =>
        (.ok (), { process with
          disposition := .handler
          running := setitimer process.running interval
          profiler := some ⟨call.fname, ⟨context, .empty⟩, ⟨call.frequency, call.now⟩⟩ })

/-- What `stop_profiler` finds: the time since the start, the order of the texts, whether the file
can be written, and the result of `signal`. -/
structure Stop where
  elapsed : Nat
  order : List String
  written : Bool
  signal : Except String Unit

/-- The order in which the report is iterated, if there is one. -/
def Process.Iterated (process : Process) : Type :=
  (started : Started) → started ∈ process.profiler → started.profiler.report.Iteration

def stopProfiler (overflowChecks : Bool) (process : Process) (iterated : process.Iterated) (call : Stop) :
    Option (Except String Unit × Process) :=
  match known : process.profiler with
  | none => some (.error "Profiler not started!", process)
  | some started =>
    (started.profiler.report.pprof (iterated started known) overflowChecks call.order
      ⟨started.timer.frequency, started.timer.startNanos, call.elapsed⟩).bind fun profile =>
    profile.writeToBytes.bind fun data =>
      if call.written = false then none
      else
        let process := { process with files := Function.update process.files started.fname (some data) }
        match call.signal with
        -- the file is there, but the profiler goes on
        | .error e => some (.error ("sigaction uninstall error: " ++ e), process)
        | .ok () => some (.ok (), { process with disposition := .ignore, running := 0, profiler := none })

/-- A signal arrives while nobody has the lock on the profiler. The inner `none` is the end of the
process, by a panic or because nobody handles the signal; the outer one is fuel. -/
def deliver (overflowChecks : Bool) (machine : Machine) (rounds : Nat) (process : Process) :
    Option (Option Process) :=
  match process.disposition with
  | .default => some none
  | .ignore => some (some process)
  | .handler =>
    (perfSignalHandler overflowChecks machine rounds (process.profiler.map Started.profiler)).map fun
      | .panicked => none
      | .returned profiler => some { process with
          profiler := match process.profiler, profiler with
            | some started, some profiler => some { started with profiler := profiler }
            | _, _ => none }

/-! ### Runs -/

/-- A call with its result, or a signal with the machine that it interrupts. -/
inductive Event where
  | start (call : Start) (result : Except String Unit)
  | signal (machine : Machine)
  | stop (call : Stop) (result : Except String Unit)

/-- One event of a process. -/
inductive Step (overflowChecks : Bool) (process : Process) : Event → Process → Prop where
  | start {call : Start} {result : Except String Unit} {next : Process}
      (returns : startProfiler process call = some (result, next)) :
      Step overflowChecks process (.start call result) next
  | signal {machine : Machine} {rounds : Nat} {next : Process}
      (returns : deliver overflowChecks machine rounds process = some (some next)) :
      Step overflowChecks process (.signal machine) next
  | stop {call : Stop} {result : Except String Unit} {next : Process} (iterated : process.Iterated)
      (texts : ∀ started known, IterationOf call.order (source.dedupStr (iterated started known).frames))
      (returns : stopProfiler overflowChecks process iterated call = some (result, next)) :
      Step overflowChecks process (.stop call result) next

/-- The start that is in force, and the machines that were interrupted since. -/
def track : Option (Start × List Machine) → Event → Option (Start × List Machine)
  | _, .start call (.ok ()) => some (call, [])
  | _, .stop _ (.ok ()) => none
  | some (call, machines), .signal machine => some (call, machines ++ [machine])
  | now, _ => now

def inForce (events : List Event) : Option (Start × List Machine) := events.foldl track none

/-- The stack that the handler collects from a machine. -/
def StackOf (context : DebugContext) (machine : Machine) (frame : Frame) : Prop :=
  ∃ rounds, collectStack context machine rounds = some (some frame.stacks)

/-! ### What the calls do -/

section Calls

variable {overflowChecks : Bool} {process next : Process}

theorem startProfiler_cases {call : Start} {result : Except String Unit}
    (returns : startProfiler process call = some (result, next)) :
    ((∃ e, result = .error e) ∧ next = process) ∨
    (result = .ok () ∧ process.profiler = none ∧ ∃ context interval, call.context = .ok context ∧
      next = { process with
        disposition := .handler
        running := setitimer process.running interval
        profiler := some ⟨call.fname, ⟨context, .empty⟩, ⟨call.frequency, call.now⟩⟩ }) := by
  unfold startProfiler at returns
  split at returns
  · cases returns
    exact .inl ⟨⟨_, rfl⟩, rfl⟩
  next stopped =>
    split at returns
    · cases returns
      exact .inl ⟨⟨_, rfl⟩, rfl⟩
    · cases returns
      exact .inl ⟨⟨_, rfl⟩, rfl⟩
    next context known _ =>
      obtain ⟨interval, -, same⟩ := Option.map_eq_some_iff.mp returns
      cases same
      exact .inr ⟨rfl, stopped, context, interval, known, rfl⟩

/-- The file of a stop, and what the stop leaves behind otherwise. -/
theorem stopProfiler_cases {call : Stop} {iterated : process.Iterated} {result : Except String Unit}
    (returns : stopProfiler overflowChecks process iterated call = some (result, next)) :
    (process.profiler = none ∧ result = .error "Profiler not started!" ∧ next = process) ∨
    ∃ (started : Started) (known : started ∈ process.profiler) (profile : Profile) (data : Bytes),
      started.profiler.report.pprof (iterated started known) overflowChecks call.order
        ⟨started.timer.frequency, started.timer.startNanos, call.elapsed⟩ = some profile ∧
      profile.writeToBytes = some data ∧
      next.files = Function.update process.files started.fname (some data) ∧
      ((result = .ok () ∧ next.profiler = none ∧ next.disposition = .ignore ∧ next.running = 0) ∨
        ((∃ e, result = .error e) ∧ next = { process with files := next.files })) := by
  unfold stopProfiler at returns
  split at returns
  next stopped =>
    cases returns
    exact .inl ⟨stopped, rfl, rfl⟩
  next started known =>
    obtain ⟨profile, built, returns⟩ := Option.bind_eq_some_iff.mp returns
    obtain ⟨data, written, returns⟩ := Option.bind_eq_some_iff.mp returns
    refine .inr ⟨started, known, profile, data, built, written, ?_⟩
    split at returns
    · cases returns
    · split at returns
      · cases returns
        exact ⟨rfl, .inr ⟨⟨_, rfl⟩, rfl⟩⟩
      · cases returns
        exact ⟨rfl, .inl ⟨rfl, rfl, rfl, rfl⟩⟩

/-- A signal that does not end the process adds a record to the report, or does nothing. -/
theorem deliver_cases {machine : Machine} {rounds : Nat}
    (returns : deliver overflowChecks machine rounds process = some (some next)) :
    (process.disposition = .ignore ∧ next = process) ∨
    (process.disposition = .handler ∧ process.profiler = none ∧ next = process) ∨
    (∃ started frame report, process.disposition = .handler ∧ process.profiler = some started ∧
      StackOf started.profiler.context machine frame ∧
      started.profiler.report.record overflowChecks frame = some report ∧
      next = { process with profiler := some { started with
        profiler := { started.profiler with report := report } } }) := by
  obtain ⟨_ | started, disposition, running, files⟩ := process <;> cases disposition
  -- nobody handles the signal, or nobody has to
  case some.default | none.default => cases returns
  case some.ignore | none.ignore =>
    cases returns
    exact .inl ⟨rfl, rfl⟩
  case none.handler =>
    cases returns
    exact .inr (.inl ⟨rfl, rfl, rfl⟩)
  case some.handler =>
    obtain ⟨handled, collected, same⟩ := Option.map_eq_some_iff.mp returns
    unfold perfSignalHandler at collected
    simp only [Option.map_some] at collected
    split at collected
    · cases collected
    · cases collected
      cases same
    next stack unwound =>
      split at collected
      · cases collected
        cases same
      next report recorded =>
        cases collected
        cases same
        exact .inr (.inr ⟨started, ⟨stack⟩, report, rfl, rfl, ⟨rounds, unwound⟩, recorded, rfl⟩)

end Calls

/-! ### What holds after every run -/

/-- The profiler is the one that was started, and its report has the stacks of the signals since. -/
inductive Tracks : Option (Start × List Machine) → Option Started → Prop where
  | stopped : Tracks none none
  | started {call : Start} {machines : List Machine} {started : Started} (calls : List Frame)
      (fname : started.fname = call.fname) (context : call.context = .ok started.profiler.context)
      (timer : started.timer = ⟨call.frequency, call.now⟩)
      (unwound : List.Forall₂ (StackOf started.profiler.context) machines calls)
      (counts : Counts started.profiler.report calls) : Tracks (some (call, machines)) (some started)

structure Sound (events : List Event) (process : Process) : Prop where
  tracks : Tracks (inForce events) process.profiler
  handled : process.profiler.isSome = true → process.disposition = .handler
  quiet : process.profiler = none → process.running = 0

theorem inForce_snoc (events : List Event) (event : Event) :
    inForce (events ++ [event]) = track (inForce events) event := by
  rw [inForce, inForce, List.foldl_append, List.foldl_cons, List.foldl_nil]

theorem Sound.step {overflowChecks : Bool} (events : List Event) (process : Process) (event : Event) (next : Process)
    (sound : Sound events process) (step : Step overflowChecks process event next) :
    Sound (events ++ [event]) next := by
  have same {event : Event} (kept : track (inForce events) event = inForce events) :
      Sound (events ++ [event]) process :=
    ⟨by rw [inForce_snoc, kept]; exact sound.tracks, sound.handled, sound.quiet⟩
  cases step with
  | start returns =>
    rcases startProfiler_cases returns with ⟨⟨e, rfl⟩, rfl⟩ | ⟨rfl, -, context, interval, known, rfl⟩
    · exact same rfl
    · refine ⟨?_, fun _ => rfl, fun stopped => by cases stopped⟩
      rw [inForce_snoc]
      exact .started [] rfl known rfl .nil counts_empty
  | signal returns =>
    have tracks := sound.tracks
    rcases deliver_cases returns with ⟨ignored, rfl⟩ | ⟨-, known, rfl⟩ |
      ⟨started, frame, report, installed, known, unwound, recorded, rfl⟩
    -- a signal that is ignored finds no profiler
    · have stopped : next.profiler = none := by
        rw [← Option.not_isSome_iff_eq_none]
        intro some
        rw [sound.handled some] at ignored
        cases ignored
      rw [stopped] at tracks
      cases none : inForce events with
      | none => exact same (by rw [none]; rfl)
      | some _ => rw [none] at tracks; cases tracks
    · rw [known] at tracks
      cases none : inForce events with
      | none => exact same (by rw [none]; rfl)
      | some _ => rw [none] at tracks; cases tracks
    · refine ⟨?_, fun _ => installed, fun stopped => by cases stopped⟩
      rw [known] at tracks
      rw [inForce_snoc]
      cases force : inForce events with
      | none => rw [force] at tracks; cases tracks
      | some current =>
        rw [force] at tracks
        cases tracks with
        | started calls fname context timer before counts =>
          exact .started (calls ++ [frame]) fname context timer
            (List.rel_append before (.cons unwound .nil)) (counts_record counts recorded)
  | @stop call _ _ iterated _ returns =>
    rcases stopProfiler_cases returns with ⟨stopped, rfl, rfl⟩ | ⟨_, _, _, _, -, -, -, rest⟩
    · exact same rfl
    · rcases rest with ⟨rfl, stopped, -, quiet⟩ | ⟨⟨e, rfl⟩, rest⟩
      · refine ⟨?_, fun some => absurd some (by simp [stopped]), fun _ => quiet⟩
        rw [inForce_snoc, stopped]
        exact .stopped
      · have kept := @same (.stop call (.error e)) rfl
        rw [rest]
        exact ⟨kept.tracks, kept.handled, kept.quiet⟩

theorem Sound.of_run {overflowChecks : Bool} {files : String → Option Bytes} {events : List Event} {process : Process}
    (run : History.Run (Step overflowChecks) (.initial files) events process) : Sound events process := by
  refine run.invariant Sound ?_ Sound.step
  exact ⟨.stopped, fun some => absurd some Bool.false_ne_true, fun _ => rfl⟩

/-- Whatever calls and signals came before, the timer runs only while the handler is there, so that
none of its signals ends the process by default. -/
theorem timer_signals_handled {overflowChecks : Bool} {files : String → Option Bytes} {events : List Event}
    {process : Process} (run : History.Run (Step overflowChecks) (.initial files) events process)
    (running : process.running ≠ 0) :
    process.profiler.isSome = true ∧ process.disposition = .handler := by
  have sound := Sound.of_run run
  have started : process.profiler.isSome = true := by
    rw [← Option.ne_none_iff_isSome]
    exact fun stopped => running (sound.quiet stopped)
  exact ⟨started, sound.handled started⟩

/-! ### The file of a stop -/

/-- A program of one function without a table. -/
def oneFunction : DebugContext where
  fdeForAddress := fun _ => .noUnwindInfo
  findLocation := fun _ => .ok (some ⟨some "a.c", some 3⟩)
  findFrames := fun _ => .ok [.ok (some (.ok "f"))]

def inFunction : Machine where
  registers := fun _ => 0
  pc := 0x100
  load64 := fun _ => .ok 0

def functionFrame : Frame := ⟨[⟨some "f", some 3, some "a.c"⟩]⟩

def simpleStart : Start := ⟨"simple.profile", .ok oneFunction, .ok (), 99, 7⟩

def simpleStop : Stop := ⟨5, ["f", "a.c", "samples", "count", "cpu", "nanoseconds"], true, .ok ()⟩

/-- The process after the start and a signal. -/
def interrupted : Process where
  profiler := some ⟨"simple.profile", ⟨oneFunction, Report.empty.insert functionFrame 1⟩, ⟨99, 7⟩⟩
  disposition := .handler
  running := 10101
  files := fun _ => none

theorem interrupted_run : History.Run (Step true) (.initial fun _ => none)
    [.start simpleStart (.ok ()), .signal inFunction] interrupted :=
  .cons (.start rfl) (.cons (@Step.signal _ _ _ 2 _ rfl) .nil)

theorem interrupted_handled : interrupted.profiler.isSome = true ∧ interrupted.disposition = .handler :=
  timer_signals_handled interrupted_run (by decide)

/-- The one entry of its report. -/
def interruptedIteration : interrupted.Iterated := fun started known =>
  { entries := [(functionFrame, 1)]
    distinct := by decide
    same := by
      cases known
      intro frame count
      by_cases here : frame = functionFrame
      · simp [insert_data, here, eq_comm]
      · simp [insert_data, here, Report.empty] }

end SignalProfiler
