import CkbDebugger.GdbStub.Watch

/-!
# Polling for data of the debugger

`execute` asks from time to time whether the debugger has sent something, and returns early if it
has; the caller then calls it again. What has been executed up to the next real event is compared
with a loop that never asks.
-/
namespace GdbStub

open CkbVm (Machine Op Error)

/-- The test of the program counter after a step: whether the mode goes on. -/
def ExecMode.inRange : ExecMode → UInt64 → Bool
  | .step, _ => false
  | .continue, _ => true
  | .rangeStep start stop, pc => start ≤ pc ∧ pc < stop

section Machine

variable {M : Type} (vm : Machine M)

/-! ### Calls of `execute` -/

section Poll

variable {Ω : Type} (poll : Ω → Bool × Ω)

/-- The handlers on which a call of `execute` calls `step`, one after the other. -/
def Handler.stepCalls (rounds : Nat) (h : Handler M) (polled : Ω) : List (Handler M) :=
  match poll polled with
  | (true, _) => []
  | (false, polled) =>
    match h.execMode with
    | .step => [h]
    | .continue => (Loop.states (continueRound vm poll) rounds ⟨h, 0, polled⟩).map Executing.handler
    | .rangeStep start stop =>
      (Loop.states (rangeStepRound vm poll start stop) rounds ⟨h, 0, polled⟩).map Executing.handler

/-- `execute` is called until it returns another event than `IncomingData`, with the answers of
the poll as they come: the calls of `step` on the way, the event, and the handler that is left. -/
inductive Driven : Handler M → Ω → List (Handler M) → VmEvent → Handler M → Prop where
  | stops {h last : Handler M} {polled left : Ω} {event : VmEvent} (rounds : Nat)
      (returned : h.execute vm poll rounds polled = some (event, last, left))
      (real : event ≠ .incomingData) : Driven h polled (h.stepCalls vm poll rounds polled) event last
  | again {h next last : Handler M} {polled left : Ω} {calls : List (Handler M)} {event : VmEvent}
      (rounds : Nat) (returned : h.execute vm poll rounds polled = some (.incomingData, next, left))
      (rest : Driven next left calls event last) :
      Driven h polled (h.stepCalls vm poll rounds polled ++ calls) event last

end Poll

/-! ### The loop that does not poll -/

/-- One step, and the test of the mode. -/
def unpolledRound (mode : ExecMode) (h : Handler M) : Loop.Round (Handler M) (VmEvent × Handler M) :=
  match h.step vm with
  | (some event, next) => .leave (event, next)
  | (none, next) => if mode.inRange (vm.pc next.machine) then .again next else .leave (.doneStep, next)

/-- The calls of `step` without polling, with the event and the handler that they end with. -/
def Unpolled (mode : ExecMode) (h : Handler M) (calls : List (Handler M)) (event : VmEvent)
    (last : Handler M) : Prop :=
  ∃ rounds, Loop.run (unpolledRound vm mode) rounds h = some (event, last) ∧
    Loop.states (unpolledRound vm mode) rounds h = calls

variable {vm}

theorem Unpolled.unique {mode : ExecMode} {h first second : Handler M} {calls others : List (Handler M)}
    {event other : VmEvent} (one : Unpolled vm mode h calls event first)
    (two : Unpolled vm mode h others other second) :
    calls = others ∧ event = other ∧ first = second := by
  obtain ⟨rounds, ran, rfl⟩ := one
  obtain ⟨more, again, rfl⟩ := two
  obtain ⟨same, visited⟩ := Loop.run_unique ran again
  exact ⟨visited, Prod.mk.inj same⟩

theorem Unpolled.leave {mode : ExecMode} {h last : Handler M} {event : VmEvent}
    (left : unpolledRound vm mode h = .leave (event, last)) : Unpolled vm mode h [h] event last :=
  ⟨1, by simp only [Loop.run, left], by simp only [Loop.states, left]⟩

theorem Unpolled.cons {mode : ExecMode} {h next last : Handler M} {calls : List (Handler M)} {event : VmEvent}
    (went : unpolledRound vm mode h = .again next) (rest : Unpolled vm mode next calls event last) :
    Unpolled vm mode h (h :: calls) event last := by
  obtain ⟨rounds, ran, rfl⟩ := rest
  exact ⟨rounds + 1, by simp only [Loop.run, went, ran], by simp only [Loop.states, went]⟩

variable (vm)

/-! ### A step -/

theorem perform_execMode (op : Op) (h : Handler M) :
    (Handler.perform vm op h).2.execMode = h.execMode := by
  cases op with
  | load width addr =>
    simp only [Handler.perform]
    split <;> rfl
  | store width addr value =>
    simp only [Handler.perform]
    split <;> rfl
  | _ => rfl

theorem stepInner_execMode (h : Handler M) : (h.stepInner vm).2.execMode = h.execMode := by
  simp only [Handler.stepInner]
  split
  · rfl
  · split
    · rfl
    · exact Interface.run_keeps Handler.execMode (perform_execMode vm) _ _

theorem nextOpcode_execMode (h : Handler M) : (h.nextOpcode vm).2.execMode = h.execMode := by
  simp only [Handler.nextOpcode]
  split <;> rfl

/-- What follows an instruction keeps the mode, and none of its events is `IncomingData`. -/
theorem stopEvent_execMode (h : Handler M) :
    (h.stopEvent vm).2.execMode = h.execMode ∧ (h.stopEvent vm).1 ≠ some .incomingData := by
  have mode := nextOpcode_execMode vm h
  simp only [Handler.stopEvent]
  split
  · exact ⟨mode, by simp⟩
  · split
    · exact ⟨mode, by simp⟩
    · split
      · exact ⟨mode, by simp⟩
      · split
        · exact ⟨mode, by simp⟩
        · exact ⟨mode, by simp⟩

theorem step_execMode (h : Handler M) :
    (h.step vm).2.execMode = h.execMode ∧ (h.step vm).1 ≠ some .incomingData := by
  simp only [Handler.step]
  split
  · have inner := stepInner_execMode vm (h.refresh vm)
    split
    next after stepped =>
      rw [stepped] at inner
      exact ⟨(stopEvent_execMode vm after).1.trans inner, (stopEvent_execMode vm after).2⟩
    next e after failed =>
      rw [failed] at inner
      exact ⟨inner, by simp⟩
  · exact ⟨rfl, by simp⟩

theorem unpolledRound_again {mode : ExecMode} {h next : Handler M}
    (went : unpolledRound vm mode h = .again next) : next.execMode = h.execMode := by
  have kept := (step_execMode vm h).1
  simp only [unpolledRound] at went
  split at went
  · cases went
  next after stepped =>
    rw [stepped] at kept
    split at went
    · cases went
      exact kept
    · cases went

/-! ### Polling rounds -/

section Rounds

variable {Ω : Type} (poll : Ω → Bool × Ω)

/-- What a round that may poll does, beside the one that does not: both go on, or both stop with
the same event, or only the poll has ended the loop, where the other one goes on. -/
theorem executeRound_cases (mode : ExecMode) (s : Executing M Ω) :
    (∃ next, executeRound vm poll mode.inRange s = .again next ∧
      unpolledRound vm mode s.handler = .again next.handler) ∨
    (∃ event last left, executeRound vm poll mode.inRange s = .leave (event, last, left) ∧
      event ≠ .incomingData ∧ unpolledRound vm mode s.handler = .leave (event, last)) ∨
    (∃ next left, executeRound vm poll mode.inRange s = .leave (.incomingData, next, left) ∧
      unpolledRound vm mode s.handler = .again next) := by
  have other := (step_execMode vm s.handler).2
  simp only [executeRound, unpolledRound]
  rcases stepped : s.handler.step vm with ⟨event, h⟩
  rw [stepped] at other
  cases event with
  | some event => exact .inr (.inl ⟨event, h, s.polled, rfl, fun same => other (congrArg some same), rfl⟩)
  | none =>
    simp only
    cases inside : mode.inRange (vm.pc h.machine) with
    | false => exact .inr (.inl ⟨.doneStep, h, s.polled, rfl, by simp, rfl⟩)
    | true =>
      -- the range is left before the poll, so a poll never hides the end of the range
      simp only [Bool.not_true, Bool.false_eq_true, if_false, if_true]
      by_cases due : (s.executed + 1) % 1024 = 0
      · rw [if_pos due]
        rcases poll s.polled with ⟨ready, left⟩
        cases ready with
        | true => exact .inr (.inr ⟨h, left, rfl, rfl⟩)
        | false => exact .inl ⟨⟨h, s.executed + 1, left⟩, rfl, rfl⟩
      · rw [if_neg due]
        exact .inl ⟨⟨h, s.executed + 1, s.polled⟩, rfl, rfl⟩

/-- A call has made the first steps of the loop that does not poll, or all of them. -/
def Follows (mode : ExecMode) (h : Handler M) (calls : List (Handler M)) (event : VmEvent)
    (last : Handler M) : Prop :=
  (event ≠ .incomingData ∧ Unpolled vm mode h calls event last) ∨
  (event = .incomingData ∧ last.execMode = h.execMode ∧ ∀ rest final e,
    Unpolled vm mode last rest e final → Unpolled vm mode h (calls ++ rest) e final)

theorem run_follows (mode : ExecMode) {rounds : Nat} {s : Executing M Ω} {event : VmEvent} {last : Handler M}
    {left : Ω} (ran : Loop.run (executeRound vm poll mode.inRange) rounds s = some (event, last, left)) :
    Follows vm mode s.handler
      ((Loop.states (executeRound vm poll mode.inRange) rounds s).map Executing.handler) event last := by
  induction rounds generalizing s with
  | zero => cases ran
  | succ rounds ih =>
    obtain ⟨next, went, same⟩ | ⟨event', last', left', went, real, same⟩ | ⟨next, left', went, same⟩ :=
      executeRound_cases vm poll mode s
    · simp only [Loop.run, went] at ran
      simp only [Loop.states, went, List.map_cons]
      rcases ih ran with ⟨real, rest⟩ | ⟨incoming, kept, ahead⟩
      · exact .inl ⟨real, .cons same rest⟩
      · refine .inr ⟨incoming, kept.trans (unpolledRound_again vm same), fun rest final e run => ?_⟩
        exact .cons same (ahead rest final e run)
    · simp only [Loop.run, went] at ran
      cases ran
      simp only [Loop.states, went, List.map_cons, List.map_nil]
      exact .inl ⟨real, .leave same⟩
    · simp only [Loop.run, went] at ran
      cases ran
      simp only [Loop.states, went, List.map_cons, List.map_nil]
      exact .inr ⟨rfl, unpolledRound_again vm same, fun rest final e run => .cons same run⟩

theorem execute_follows {rounds : Nat} {h last : Handler M} {polled left : Ω} {event : VmEvent}
    (returned : h.execute vm poll rounds polled = some (event, last, left)) :
    Follows vm h.execMode h (h.stepCalls vm poll rounds polled) event last := by
  simp only [Handler.execute, Handler.stepCalls] at returned ⊢
  rcases first : poll polled with ⟨ready, polled'⟩
  simp only [first] at returned ⊢
  cases ready with
  | true =>
    -- nothing has been executed
    cases returned
    exact .inr ⟨rfl, rfl, fun rest final e run => run⟩
  | false =>
    cases mode : h.execMode with
    | step =>
      simp only [mode] at returned ⊢
      cases returned
      have other := (step_execMode vm h).2
      have round : unpolledRound vm .step h = .leave ((h.step vm).1.getD .doneStep, (h.step vm).2) := by
        simp only [unpolledRound, ExecMode.inRange]
        rcases h.step vm with ⟨event, next⟩
        cases event <;> rfl
      refine .inl ⟨?_, .leave round⟩
      cases stepped : (h.step vm).1 with
      | none => simp
      | some event =>
        rw [stepped] at other
        exact fun same => other (congrArg some same)
    | «continue» =>
      simp only [mode] at returned ⊢
      exact run_follows vm poll .continue returned
    | rangeStep start stop =>
      simp only [mode] at returned ⊢
      exact run_follows vm poll (.rangeStep start stop) returned

theorem driven_unpolled {h last : Handler M} {polled : Ω} {calls : List (Handler M)} {event : VmEvent}
    (driven : Driven vm poll h polled calls event last) : Unpolled vm h.execMode h calls event last := by
  induction driven with
  | stops rounds returned real =>
    rcases execute_follows vm poll returned with ⟨_, run⟩ | ⟨incoming, _⟩
    · exact run
    · exact absurd incoming real
  | again rounds returned rest ih =>
    rcases execute_follows vm poll returned with ⟨real, _⟩ | ⟨_, kept, ahead⟩
    · exact absurd rfl real
    · rw [kept] at ih
      exact ahead _ _ _ ih

end Rounds

/-- Whatever the two sources of polls answer, `execute` called until a real event calls `step` on
the same handlers, and ends with the same event and the same handler. -/
theorem polling_invisible {Ω₁ Ω₂ : Type} (poll₁ : Ω₁ → Bool × Ω₁) (poll₂ : Ω₂ → Bool × Ω₂)
    (h last₁ last₂ : Handler M) (polled₁ : Ω₁) (polled₂ : Ω₂) (calls₁ calls₂ : List (Handler M))
    (event₁ event₂ : VmEvent) (first : Driven vm poll₁ h polled₁ calls₁ event₁ last₁)
    (second : Driven vm poll₂ h polled₂ calls₂ event₂ last₂) :
    calls₁ = calls₂ ∧ event₁ = event₂ ∧ last₁ = last₂ :=
  (driven_unpolled vm poll₁ first).unique (driven_unpolled vm poll₂ second)

end Machine

/-- A load under a debugger that is silent, and under one that has sent something when the program
is started. -/
theorem interrupted_load_same : ∃ calls₁ calls₂ last₁ last₂,
    Driven oneLoad (fun _ : Unit => (false, ())) (.new (0x1000, 7)) () calls₁ (.watchRead 0x2000) last₁ ∧
    Driven oneLoad (fun sent : Bool => (sent, false)) (.new (0x1000, 7)) true calls₂ (.watchRead 0x2000) last₂ ∧
    calls₁ = calls₂ ∧ last₁ = last₂ := by
  have silent : Driven oneLoad (fun _ : Unit => (false, ())) (.new (0x1000, 7)) ()
      ((Handler.new (0x1000, 7)).stepCalls oneLoad (fun _ => (false, ())) 1 ()) (.watchRead 0x2000)
      ((Handler.new (0x1000, 7)).step oneLoad).2 := .stops 1 rfl (by simp)
  have interrupted : Driven oneLoad (fun sent : Bool => (sent, false)) (.new (0x1000, 7)) true
      ([] ++ (Handler.new (0x1000, 7)).stepCalls oneLoad (fun sent => (sent, false)) 1 false)
      (.watchRead 0x2000) ((Handler.new (0x1000, 7)).step oneLoad).2 :=
    .again 0 rfl (.stops 1 rfl (by simp))
  obtain ⟨calls, _, last⟩ := polling_invisible oneLoad _ _ _ _ _ _ _ _ _ _ _ silent interrupted
  exact ⟨_, _, _, _, silent, interrupted, calls, last⟩

end GdbStub
