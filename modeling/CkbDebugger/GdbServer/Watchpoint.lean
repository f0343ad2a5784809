import CkbDebugger.GdbServer.Handler

/-!
# A fresh write watchpoint

The region of a watchpoint is looked at for the first time after the first
instruction of a resume, and what it holds then is what later looks are compared
with. The loop here is compared with one that knows the contents at the resume.
-/
namespace GdbServer

open CkbVm (Vm Decoder Error)
open GdbRemote (Watchpoint VCont ThreadId StopReason HandlerError)

section Machine

variable {M : Type} (vm : Vm M)

/-! ### The bytes of a region -/

/-- The region lies below the end of the address space, and can be read. -/
def Readable (m : M) (wp : Watchpoint) : Prop :=
  wp.addr.toNat + wp.nBytes.toNat < 2 ^ 64 ∧
    ∀ i < wp.nBytes.toNat, ∃ value, vm.load8 m (wp.addr + .ofNat i) = .ok value

/-- Some byte of the region is not what it was. -/
def Changed (wp : Watchpoint) (before m : M) : Prop :=
  ∃ i < wp.nBytes.toNat, vm.load8 m (wp.addr + .ofNat i) ≠ vm.load8 before (wp.addr + .ofNat i)

instance (wp : Watchpoint) (before m : M) : Decidable (Changed vm wp before m) :=
  inferInstanceAs (Decidable (∃ i, i < _ ∧ _))

theorem add_one_add_ofNat (address : UInt64) (i : Nat) :
    address + 1 + .ofNat i = address + .ofNat (i + 1) := by
  rw [UInt64.add_assoc, UInt64.add_comm 1, UInt64.ofNat_add]
  rfl

theorem add_ofNat_zero (address : UInt64) : address + .ofNat 0 = address := UInt64.add_zero address

theorem readBytes_succ_ok {m : M} {count : Nat} {address : UInt64} {bytes : List UInt8}
    (done : readBytes vm m (count + 1) address = .ok bytes) : ∃ value rest, bytes = value :: rest ∧
      vm.load8 m address = .ok value ∧ readBytes vm m count (address + 1) = .ok rest := by
  simp only [readBytes] at done
  split at done
  · cases done
  next value first =>
    split at done
    · cases done
    next rest others =>
      cases done
      exact ⟨value, rest, rfl, first, others⟩

theorem readBytes_ok (m : M) (count : Nat) (address : UInt64)
    (readable : ∀ i < count, ∃ value, vm.load8 m (address + .ofNat i) = .ok value) :
    ∃ bytes, readBytes vm m count address = .ok bytes := by
  induction count generalizing address with
  | zero => exact ⟨[], rfl⟩
  | succ count ih =>
    obtain ⟨value, first⟩ := readable 0 (Nat.succ_pos _)
    obtain ⟨rest, others⟩ := ih (address + 1) fun i below => by
      rw [add_one_add_ofNat]
      exact readable (i + 1) (Nat.succ_lt_succ below)
    have here : vm.load8 m address = .ok value := by rw [← first, add_ofNat_zero]
    exact ⟨value :: rest, by simp only [readBytes, here, others]⟩

/-- Two readings are equal when they agree on every byte. -/
theorem readBytes_eq_iff {m before : M} {count : Nat} {address : UInt64} {bytes old : List UInt8}
    (now : readBytes vm m count address = .ok bytes)
    (first : readBytes vm before count address = .ok old) :
    bytes = old ↔
      ∀ i < count, vm.load8 m (address + .ofNat i) = vm.load8 before (address + .ofNat i) := by
  induction count generalizing address bytes old with
  | zero =>
    cases now
    cases first
    simp
  | succ count ih =>
    obtain ⟨value, rest, rfl, head, tail⟩ := readBytes_succ_ok vm now
    obtain ⟨oldValue, oldRest, rfl, oldHead, oldTail⟩ := readBytes_succ_ok vm first
    have others := ih tail oldTail
    simp only [add_one_add_ofNat] at others
    rw [List.cons.injEq, others]
    constructor
    · rintro ⟨rfl, same⟩ i below
      cases i with
      | zero => rw [add_ofNat_zero, head, oldHead]
      | succ i => exact same i (by omega)
    · intro same
      have start := same 0 (Nat.succ_pos _)
      rw [add_ofNat_zero, head, oldHead] at start
      exact ⟨Except.ok.inj start, fun i below => same (i + 1) (by omega)⟩

/-- Where the end of the region does not overflow, the region is read byte by byte. -/
theorem readMemory_of_fits {region : GdbRemote.MemoryRegion}
    (fits : region.address.toNat + region.length.toNat < 2 ^ 64) (m : M) :
    readMemory vm m region = readBytes vm m region.length.toNat region.address := by
  have count : (region.address + region.length).toNat - region.address.toNat = region.length.toNat := by
    rw [UInt64.toNat_add, Nat.mod_eq_of_lt fits, Nat.add_sub_cancel_left]
  rw [readMemory, count]

/-- The contents of the region of a watchpoint, as the handler reads them. -/
def read (wp : Watchpoint) (m : M) : Except HandlerError (List UInt8) :=
  readMemory vm m ⟨wp.addr, wp.nBytes⟩

theorem read_eq_readBytes {wp : Watchpoint} (fits : wp.addr.toNat + wp.nBytes.toNat < 2 ^ 64) (m : M) :
    read vm wp m = readBytes vm m wp.nBytes.toNat wp.addr :=
  readMemory_of_fits vm fits m

theorem read_ok {m : M} {wp : Watchpoint} (readable : Readable vm m wp) :
    ∃ bytes, read vm wp m = .ok bytes := by
  rw [read_eq_readBytes vm readable.1]
  exact readBytes_ok vm m _ _ readable.2

theorem changed_iff {m before : M} {wp : Watchpoint} {bytes old : List UInt8}
    (fits : wp.addr.toNat + wp.nBytes.toNat < 2 ^ 64) (now : read vm wp m = .ok bytes)
    (first : read vm wp before = .ok old) : Changed vm wp before m ↔ bytes ≠ old := by
  rw [read_eq_readBytes vm fits] at now first
  rw [Ne, readBytes_eq_iff vm now first, Changed]
  simp

/-! ### Where the loop stops -/

/-- The loop of a `vcont` that continues does not execute another instruction. -/
def halts (h : Handler M) : Bool :=
  h.atBreakpoint vm || !vm.running h.machine || (atWatchpoint vm h.machine h.watchpoints).1 != .ok false

/-- A loop that halts leaves the machine as it is. -/
theorem vcontRound_of_halts {h : Handler M} {d : Decoder} (stop : halts vm h = true) :
    ∃ answer watchpoints, vcontRound vm (fun _ => true) (h, d) =
      .leave (answer, { h with watchpoints := watchpoints }) := by
  simp only [halts, Bool.or_eq_true, Bool.not_eq_true', bne_iff_ne] at stop
  simp only [vcontRound, Bool.true_and]
  split
  next goes =>
    simp only [Bool.and_eq_true, Bool.not_eq_true'] at goes
    simp only [goes, Bool.false_eq_true, Bool.true_eq_false, false_or] at stop
    split
    · exact ⟨_, _, rfl⟩
    · exact ⟨_, _, rfl⟩
    next unchanged =>
      rw [unchanged] at stop
      exact absurd rfl stop
  · exact ⟨_, _, rfl⟩

/-- A loop that does not halt has looked at the watchpoints, and steps. -/
theorem vcontRound_of_not_halts {h : Handler M} {d : Decoder} (goes : halts vm h = false) :
    vcontRound vm (fun _ => true) (h, d) =
      match stepOn vm h.machine d with
      | (.error _, m, _) =>
        .leave (.ok (.signal 5), ⟨m, h.breakpoints, (atWatchpoint vm h.machine h.watchpoints).2⟩)
      | (.ok (), m, d) => .again (⟨m, h.breakpoints, (atWatchpoint vm h.machine h.watchpoints).2⟩, d) := by
  simp only [halts, Bool.or_eq_false_iff, Bool.not_eq_false', bne_eq_false_iff_eq] at goes
  obtain ⟨⟨away, running⟩, unchanged⟩ := goes
  cases looked : atWatchpoint vm h.machine h.watchpoints with
  | mk result watchpoints =>
    rw [looked] at unchanged
    simp only at unchanged
    simp only [vcontRound, away, running, looked, unchanged]
    rfl

/-! ### The fresh watchpoint among the others -/

/-- A look at all watchpoints is a look at the others and then at the last one. -/
theorem atWatchpoint_append (m : M) (others : List WatchPointStatus) (status : WatchPointStatus) :
    atWatchpoint vm m (others ++ [status]) =
      match atWatchpoint vm m others, status.hasChange vm m with
      | (.error e, others), _ => (.error e, others ++ [status])
      | (.ok _, others), (.error e, status) => (.error e, others ++ [status])
      | (.ok fired, others), (.ok changed, status) => (.ok (fired || changed), others ++ [status]) := by
  -- an error among the others keeps the last one from being looked at
  induction others with
  | nil =>
    simp only [List.nil_append, atWatchpoint]
    cases status.hasChange vm m with
    | mk result status => cases result <;> simp
  | cons first rest ih =>
    simp only [List.cons_append, atWatchpoint, ih]
    cases first.hasChange vm m with
    | mk result first =>
      cases result with
      | error e => rfl
      | ok changed =>
        cases atWatchpoint vm m rest with
        | mk result rest =>
          cases result with
          | error e => rfl
          | ok fired =>
            cases status.hasChange vm m with
            | mk result status => cases result <;> simp [Bool.or_assoc]

/-- Another reason to stop than the last watchpoint: a breakpoint, the exit, another
watchpoint, or a region that cannot be read any more. -/
def StopsOtherwise (wp : Watchpoint) (h : Handler M) : Prop :=
  h.atBreakpoint vm = true ∨ vm.running h.machine = false ∨
    (atWatchpoint vm h.machine h.watchpoints.dropLast).1 ≠ .ok false ∨
    ∃ e, read vm wp h.machine = .error e

/-- The last watchpoint has seen the given contents, or nothing yet. -/
def Holds (wp : Watchpoint) (seen : Option (List UInt8)) (h : Handler M) : Prop :=
  ∃ others data, h.watchpoints = others ++ [⟨wp, data, seen.isSome⟩] ∧ ∀ bytes ∈ seen, data = bytes

theorem hasChange_eq (wp : Watchpoint) (data : List UInt8) (hasData : Bool) (m : M) :
    WatchPointStatus.hasChange vm ⟨wp, data, hasData⟩ m =
      match read vm wp m with
      | .error e => (.error e, ⟨wp, data, hasData⟩)
      | .ok bytes => (.ok (hasData && bytes != data), ⟨wp, bytes, true⟩) := rfl

/-- The loop halts for another reason, or because of what the last watchpoint has seen. -/
theorem halts_iff {wp : Watchpoint} {seen : Option (List UInt8)} {h : Handler M} (holds : Holds wp seen h) :
    halts vm h = true ↔ StopsOtherwise vm wp h ∨
      ∃ bytes old, read vm wp h.machine = .ok bytes ∧ seen = some old ∧ bytes ≠ old := by
  obtain ⟨others, data, same, known⟩ := holds
  simp only [halts, StopsOtherwise, same, List.dropLast_concat, atWatchpoint_append, hasChange_eq,
    Bool.or_eq_true, Bool.not_eq_true', bne_iff_ne]
  cases atWatchpoint vm h.machine others with
  | mk result others =>
    cases result with
    | error e => simp
    | ok fired =>
      cases read vm wp h.machine with
      | error e => simp
      | ok bytes =>
        cases seen with
        -- what has not been looked at yet cannot have changed
        | none => cases fired <;> simp
        | some old =>
          obtain rfl := known old rfl
          cases fired <;> simp [or_assoc]

/-- A round that goes on has made the last watchpoint see the contents of its region. -/
theorem holds_next {wp : Watchpoint} {seen : Option (List UInt8)} {h next : Handler M} {d d' : Decoder}
    (holds : Holds wp seen h) (went : vcontRound vm (fun _ => true) (h, d) = .again (next, d')) :
    halts vm h = false ∧ ∃ bytes, read vm wp h.machine = .ok bytes ∧ Holds wp (some bytes) next := by
  have goes : halts vm h = false := by
    cases stop : halts vm h with
    | false => rfl
    | true =>
      obtain ⟨answer, watchpoints, left⟩ := @vcontRound_of_halts _ vm h d stop
      rw [left] at went
      cases went
  rw [vcontRound_of_not_halts vm goes] at went
  obtain ⟨others, data, same, _⟩ := holds
  -- the round goes on, so no watchpoint has fired in it
  have unchanged : (atWatchpoint vm h.machine h.watchpoints).1 = .ok false := by
    simp only [halts, Bool.or_eq_false_iff, bne_eq_false_iff_eq] at goes
    exact goes.2
  rw [same, atWatchpoint_append, hasChange_eq] at unchanged went
  split at went
  · cases went
  next m d'' stepped =>
    cases looked : atWatchpoint vm h.machine others with
    | mk result others =>
      rw [looked] at unchanged went
      cases result with
      | error e => cases unchanged
      | ok fired =>
        cases now : read vm wp h.machine with
        | error e =>
          rw [now] at unchanged
          cases unchanged
        | ok bytes =>
          rw [now] at went
          cases went
          exact ⟨goes, bytes, rfl, others, bytes, rfl, fun _ member => Option.some.inj member⟩

/-! ### A resume -/

/-- The handler with a fresh watchpoint, after the first instruction of a resume. -/
def Handler.resumed (h : Handler M) (wp : Watchpoint) (m : M) : Handler M :=
  { h.insertWriteWatchpoint wp with machine := m }

/-- After every instruction of a resume with a fresh watchpoint, the first one included,
the loop stops if and only if there is another reason to, or the region is not as it
was at the resume. -/
def StopsExactly (h : Handler M) (wp : Watchpoint) : Prop :=
  ∀ m d, stepOn vm h.machine .build = (.ok (), m, d) →
    ∀ s, Loop.Reaches (vcontRound vm fun _ => true) (h.resumed wp m, d) s →
      (halts vm s.1 = true ↔ StopsOtherwise vm wp s.1 ∨ Changed vm wp h.machine s.1.machine)

/-- The first instruction fails, leaves the region as it is, or ends where the loop stops
anyway. -/
def FirstKeeps (h : Handler M) (wp : Watchpoint) : Prop :=
  ∀ m d, stepOn vm h.machine .build = (.ok (), m, d) →
    StopsOtherwise vm wp (h.resumed wp m) ∨ ¬Changed vm wp h.machine m

/-- Where the loop halts, the request to continue is answered, with the machine of that
moment. -/
theorem vcont_stops {h : Handler M} {wp : Watchpoint} {m : M} {d : Decoder} {s : Handler M × Decoder}
    (stepped : stepOn vm h.machine .build = (.ok (), m, d))
    (reached : Loop.Reaches (vcontRound vm fun _ => true) (h.resumed wp m, d) s)
    (stop : halts vm s.1 = true) (thread : Option ThreadId) :
    ∃ rounds answer watchpoints, (h.insertWriteWatchpoint wp).vcont vm rounds [(.continue, thread)] =
      some (some (answer, { s.1 with watchpoints := watchpoints })) := by
  obtain ⟨answer, watchpoints, left⟩ := @vcontRound_of_halts _ vm s.1 s.2 stop
  obtain ⟨rounds, returned⟩ := (Loop.exists_run_iff _ _).mpr ⟨s, reached, left⟩
  refine ⟨rounds, answer, watchpoints, ?_⟩
  have resumes : stepOn vm (h.insertWriteWatchpoint wp).machine .build = (.ok (), m, d) := stepped
  simp only [Handler.vcont, vcontLoop, resumes]
  exact congrArg (Option.map some) returned

theorem resumed_holds (h : Handler M) (wp : Watchpoint) (m : M) : Holds wp none (h.resumed wp m) :=
  ⟨h.watchpoints, _, rfl, nofun⟩

/-- The first look at the region finds no change. -/
theorem resumed_halts_iff (h : Handler M) (wp : Watchpoint) (m : M) :
    halts vm (h.resumed wp m) = true ↔ StopsOtherwise vm wp (h.resumed wp m) := by
  rw [halts_iff vm (resumed_holds h wp m)]
  simp

section Resume

variable {h : Handler M} {wp : Watchpoint} {old : List UInt8}
  (fits : wp.addr.toNat + wp.nBytes.toNat < 2 ^ 64) (first : read vm wp h.machine = .ok old)

include fits first

/-- A watchpoint that has seen the contents at the resume stops the loop as it should. -/
theorem halts_iff_changed {s : Handler M} (holds : Holds wp (some old) s) :
    halts vm s = true ↔ StopsOtherwise vm wp s ∨ Changed vm wp h.machine s.machine := by
  rw [halts_iff vm holds]
  cases now : read vm wp s.machine with
  | error e =>
    have otherwise : StopsOtherwise vm wp s := .inr (.inr (.inr ⟨e, now⟩))
    simp [otherwise]
  | ok bytes =>
    rw [changed_iff vm fits now first]
    simp

/-- Unless the first instruction changes the region unseen, the watchpoint has seen the
contents at the resume in every later round. -/
theorem reached_holds {m : M} {d : Decoder} (kept : StopsOtherwise vm wp (h.resumed wp m) ∨
    ¬Changed vm wp h.machine m) {s : Handler M × Decoder}
    (reached : Loop.Reaches (vcontRound vm fun _ => true) (h.resumed wp m, d) s) :
    s.1 = h.resumed wp m ∨ Holds wp (some old) s.1 := by
  -- over the rounds: the first look takes the contents at the resume, and the later
  -- ones find the same as long as the loop goes on
  induction reached with
  | start => exact .inl rfl
  | again _ went ih =>
    rename_i s next _
    obtain ⟨s, ds⟩ := s
    obtain ⟨next, dn⟩ := next
    have seen : ∀ before, Holds wp before s → ¬Changed vm wp h.machine s.machine →
        Holds wp (some old) next := by
      intro before holds unchanged
      obtain ⟨_, bytes, now, holds⟩ := holds_next vm holds went
      rw [changed_iff vm fits now first, not_not] at unchanged
      rw [← unchanged]
      exact holds
    rcases ih with rfl | holds
    · have goes := (holds_next vm (resumed_holds h wp m) went).1
      rcases kept with otherwise | unchanged
      · rw [(resumed_halts_iff vm h wp m).mpr otherwise] at goes
        cases goes
      · exact .inr (seen none (resumed_holds h wp m) unchanged)
    · have goes := (holds_next vm holds went).1
      refine .inr (seen (some old) holds fun changed => ?_)
      rw [(halts_iff_changed vm fits first holds).mpr (.inr changed)] at goes
      cases goes

end Resume

/-- A resume misses no change of a freshly watched region if and only if its first
instruction makes none that the loop goes on after. -/
theorem fresh_watchpoint_exact_iff (h : Handler M) (wp : Watchpoint)
    (readable : Readable vm h.machine wp) : StopsExactly vm h wp ↔ FirstKeeps vm h wp := by
  obtain ⟨old, first⟩ := read_ok vm readable
  constructor
  · intro exact m d stepped
    -- the state right after the first instruction, which the loop has not left yet
    have start := exact m d stepped _ .start
    rw [resumed_halts_iff] at start
    by_cases otherwise : StopsOtherwise vm wp (h.resumed wp m)
    · exact .inl otherwise
    · exact .inr fun changed => otherwise (start.mpr (.inr changed))
  · intro keeps m d stepped s reached
    rcases reached_holds vm readable.1 first (keeps m d stepped) reached with same | holds
    · rw [same, resumed_halts_iff]
      rcases keeps m d stepped with otherwise | unchanged
      · exact ⟨.inl, fun _ => otherwise⟩
      · exact ⟨.inl, fun either => either.resolve_right unchanged⟩
    · exact halts_iff_changed vm readable.1 first holds

end Machine

/-! ### A store by the first instruction -/

/-- A program that stores 1 at `0x2000` with its instruction at `0x1000`, and otherwise does
nothing; the machine is the program counter and the byte. -/
def storeOnce : Vm (UInt64 × UInt8) where
  pc := Prod.fst
  registers := fun _ _ => 0
  isa := fun _ => 0
  version := fun _ => 2
  running := fun _ => true
  setRunning := fun _ m => m
  exitCode := fun _ => 0
  resetSignal := fun m => (false, m)
  load8 := fun m addr => if addr = 0x2000 then .ok m.2 else .ok 0
  instructionCycleFunc := fun _ => 1
  addCycles := fun _ m => (.ok (), m)
  fetch := fun _ _ => .ok ⟨.other, 4, 0, CkbVm.ZERO, 0x23⟩
  execute := fun _ m => (.ok (), (m.1 + 4, if m.1 = 0x1000 then 1 else m.2))
  slot := UInt64.toNat
  execs := fun _ => 0

/-- The store by the first instruction of the resume goes unnoticed. -/
theorem first_store_unnoticed :
    Readable storeOnce (0x1000, 0) ⟨0x2000, 1⟩ ∧
    ¬StopsExactly storeOnce ⟨(0x1000, 0), [], []⟩ ⟨0x2000, 1⟩ := by
  refine ⟨⟨by decide, fun i below => ?_⟩, fun exact => ?_⟩
  · obtain rfl : i = 0 := Nat.lt_one_iff.mp below
    exact ⟨0, rfl⟩
  · have changed : Changed storeOnce ⟨0x2000, 1⟩ (0x1000, 0) (0x1004, 1) := ⟨0, by decide, by decide⟩
    have stop := (exact (0x1004, 1) _ rfl _ .start).mpr (.inr changed)
    cases stop

/-- The store by an instruction after the first one stops the program. -/
theorem second_store_noticed :
    Readable storeOnce (0xffc, 0) ⟨0x2000, 1⟩ ∧ StopsExactly storeOnce ⟨(0xffc, 0), [], []⟩ ⟨0x2000, 1⟩ ∧
    ∃ m d s, stepOn storeOnce (0xffc, 0) .build = (.ok (), m, d) ∧
      Loop.Reaches (vcontRound storeOnce fun _ => true) (Handler.resumed ⟨(0xffc, 0), [], []⟩ ⟨0x2000, 1⟩ m, d) s ∧
      s.1.machine = (0x1004, 1) ∧ halts storeOnce s.1 = true := by
  have readable : Readable storeOnce (0xffc, 0) ⟨0x2000, 1⟩ := by
    refine ⟨by decide, fun i below => ?_⟩
    obtain rfl : i = 0 := Nat.lt_one_iff.mp below
    exact ⟨0, rfl⟩
  have exactly : StopsExactly storeOnce ⟨(0xffc, 0), [], []⟩ ⟨0x2000, 1⟩ := by
    refine (fresh_watchpoint_exact_iff storeOnce _ _ readable).mpr ?_
    intro m d stepped
    cases stepped
    exact .inr (by decide)
  obtain ⟨m, d, s, stepped, reached, machine⟩ : ∃ m d s, stepOn storeOnce (0xffc, 0) .build = (.ok (), m, d) ∧
      Loop.Reaches (vcontRound storeOnce fun _ => true)
        (Handler.resumed ⟨(0xffc, 0), [], []⟩ ⟨0x2000, 1⟩ m, d) s ∧ s.1.machine = (0x1004, 1) :=
    ⟨_, _, _, rfl, .again .start rfl, rfl⟩
  have changed : Changed storeOnce ⟨0x2000, 1⟩ (0xffc, 0) s.1.machine := by
    rw [machine]
    exact ⟨0, by decide, by decide⟩
  exact ⟨readable, exactly, m, d, s, stepped, reached, machine,
    (exactly m d stepped s reached).mpr (.inr changed)⟩

end GdbServer
