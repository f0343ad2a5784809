import CkbDebugger.History.Basic
import CkbDebugger.GdbStub.Handler

/-!
# The tables of the gdbstub backend

The breakpoints and the watchpoints of `GdbStubHandler` under any sequence of calls that
add and remove them. A watchpoint is looked up in its own table and then taken out of
the other one, and a table may hold an entry twice, so that the tables say what was last
asked for only as long as no removal runs into either.
-/
namespace GdbStub

open History (Edit Added Always Admitted sinceRemoval)

inductive TableCall where
  | addSwBreakpoint (addr : UInt64)
  | removeSwBreakpoint (addr : UInt64)
  | addHwWatchpoint (addr len : UInt64) (kind : WatchKind)
  | removeHwWatchpoint (addr len : UInt64) (kind : WatchKind)
  deriving Repr, DecidableEq

section Tables

variable {M : Type}

/-- The answer of a call and the handler after it; `none` is a panic. -/
def Handler.tableCall (h : Handler M) : TableCall → Option (Bool × Handler M)
  | .addSwBreakpoint addr => some (h.addSwBreakpoint addr)
  | .removeSwBreakpoint addr => some (h.removeSwBreakpoint addr)
  | .addHwWatchpoint addr len kind => some (h.addHwWatchpoint addr len kind)
  | .removeHwWatchpoint addr len kind => h.removeHwWatchpoint addr len kind

/-- A call with the handler that got it and the answer that it gave. -/
structure Served (M : Type) where
  before : Handler M
  call : TableCall
  answer : Bool

/-- Calls one after the other, up to a panic. -/
def Handler.tableCalls (h : Handler M) : List TableCall → Option (List (Served M) × Handler M)
  | [] => some ([], h)
  | call :: calls =>
    match h.tableCall call with
    | none => none
    | some (answer, after) =>
      match after.tableCalls calls with
      | none => none
      | some (served, final) => some (⟨h, call, answer⟩ :: served, final)

/-! ### What the tables should say -/

def TableCall.breakpointEdit : TableCall → Option (Edit UInt64)
  | .addSwBreakpoint addr => some (.add addr)
  | .removeSwBreakpoint addr => some (.remove addr)
  | _ => none

def TableCall.watchpointEdit : TableCall → Option (Edit (UInt64 × WatchKind))
  | .addHwWatchpoint addr _ kind => some (.add (addr, kind))
  | .removeHwWatchpoint addr _ kind => some (.remove (addr, kind))
  | _ => none

def breakpointEdits (calls : List TableCall) : List (Edit UInt64) :=
  calls.filterMap TableCall.breakpointEdit

def watchpointEdits (calls : List TableCall) : List (Edit (UInt64 × WatchKind)) :=
  calls.filterMap TableCall.watchpointEdit

/-- A removal says whether there was something to remove. -/
def Served.Truthful (served : Served M) : Prop :=
  match served.call with
  | .removeSwBreakpoint addr => served.answer = true ↔ addr ∈ served.before.breakpoints
  | .removeHwWatchpoint addr _ kind => served.answer = true ↔ (addr, kind) ∈ served.before.watchpoints
  | _ => True

/-- The calls are served without a panic, every removal answers truthfully, and the
tables hold what was added last. -/
def TablesFaithful (machine : M) (calls : List TableCall) : Prop :=
  ∃ served h, (Handler.new machine).tableCalls calls = some (served, h) ∧
    (∀ s ∈ served, s.Truthful) ∧
    (∀ addr, addr ∈ h.breakpoints ↔ Added (breakpointEdits calls) addr) ∧
    (∀ addr kind, (addr, kind) ∈ h.watchpoints ↔ Added (watchpointEdits calls) (addr, kind))

/-- What the source gets right: removing a breakpoint that has been added at most once
since it was last removed, and removing a watchpoint that is not there. -/
def Removable (made : List TableCall) : TableCall → Prop
  | .removeSwBreakpoint addr => sinceRemoval (breakpointEdits made) addr ≤ 1
  | .removeHwWatchpoint addr _ kind => ¬Added (watchpointEdits made) (addr, kind)
  | _ => True

/-! ### One call -/

/-- Calls followed by one more. -/
theorem tableCalls_snoc (h : Handler M) (calls : List TableCall) (call : TableCall) :
    h.tableCalls (calls ++ [call]) =
      match h.tableCalls calls with
      | none => none
      | some (served, middle) =>
        match middle.tableCall call with
        | none => none
        | some (answer, final) => some (served ++ [⟨middle, call, answer⟩], final) := by
  induction calls generalizing h with
  | nil =>
    simp only [List.nil_append, Handler.tableCalls]
  | cons first calls ih =>
    simp only [List.cons_append, Handler.tableCalls]
    cases h.tableCall first with
    | none => rfl
    | some result =>
      obtain ⟨answer, after⟩ := result
      simp only [ih]
      cases after.tableCalls calls with
      | none => rfl
      | some rest =>
        obtain ⟨served, middle⟩ := rest
        dsimp only
        cases middle.tableCall call <;> rfl

theorem removeSwBreakpoint_eq (h : Handler M) (addr : UInt64) :
    h.removeSwBreakpoint addr =
      (decide (addr ∈ h.breakpoints), { h with breakpoints := h.breakpoints.erase addr }) := by
  have position : h.breakpoints.findIdx? (· == addr) = h.breakpoints.idxOf? addr := rfl
  rw [Handler.removeSwBreakpoint, position, List.erase_eq_eraseIdx]
  by_cases present : addr ∈ h.breakpoints
  · obtain ⟨pos, found⟩ := Option.ne_none_iff_exists'.mp
      (fun absent => List.idxOf?_eq_none_iff.mp absent present)
    simp only [found, present, decide_true]
  · simp only [List.idxOf?_eq_none_iff.mpr present, present, decide_false]

/-- A watchpoint that is not there is not removed. -/
theorem removeHwWatchpoint_absent (h : Handler M) (addr len : UInt64) (kind : WatchKind)
    (absent : (addr, kind) ∉ h.watchpoints) :
    h.removeHwWatchpoint addr len kind = some (false, h) := by
  have position : h.watchpoints.findIdx? (· == (addr, kind)) = none := List.idxOf?_eq_none_iff.mpr absent
  simp only [Handler.removeHwWatchpoint, position]

/-- No call takes anything out of the watchpoints. -/
theorem removeHwWatchpoint_watchpoints {h after : Handler M} {addr len : UInt64} {kind : WatchKind}
    {answer : Bool} (served : h.removeHwWatchpoint addr len kind = some (answer, after)) :
    after.watchpoints = h.watchpoints := by
  unfold Handler.removeHwWatchpoint at served
  split at served
  · cases served
    rfl
  · split at served
    · cases served
      rfl
    · cases served

/-! ### Every sequence -/

/-- The tables after calls that the source gets right, with the number of times that each
breakpoint is in its table. -/
def TablesCounted (machine : M) (calls : List TableCall) : Prop :=
  ∃ served h, (Handler.new machine).tableCalls calls = some (served, h) ∧
    (∀ s ∈ served, s.Truthful) ∧
    (∀ addr, h.breakpoints.count addr = sinceRemoval (breakpointEdits calls) addr) ∧
    (∀ addr kind, (addr, kind) ∈ h.watchpoints ↔ Added (watchpointEdits calls) (addr, kind))

theorem tablesCounted_nil (machine : M) : TablesCounted machine [] := by
  refine ⟨[], Handler.new machine, rfl, ?_, ?_, ?_⟩ <;> simp [Handler.new, breakpointEdits, watchpointEdits]

theorem tablesCounted_faithful {machine : M} {calls : List TableCall}
    (counted : TablesCounted machine calls) : TablesFaithful machine calls := by
  obtain ⟨served, h, ran, truthful, counts, watch⟩ := counted
  refine ⟨served, h, ran, truthful, fun addr => ?_, watch⟩
  rw [← History.sinceRemoval_pos_iff, ← counts, List.count_pos_iff]

/-- One more call, of which only the outcome is still to be looked at. -/
theorem tablesCounted_snoc {machine : M} {calls : List TableCall} {call : TableCall}
    {served : List (Served M)} {h after : Handler M} {answer : Bool}
    (ran : (Handler.new machine).tableCalls calls = some (served, h)) (truthful : ∀ s ∈ served, s.Truthful)
    (answered : h.tableCall call = some (answer, after)) (told : Served.Truthful ⟨h, call, answer⟩)
    (counts : ∀ addr, after.breakpoints.count addr = sinceRemoval (breakpointEdits (calls ++ [call])) addr)
    (watch : ∀ addr kind, (addr, kind) ∈ after.watchpoints ↔
      Added (watchpointEdits (calls ++ [call])) (addr, kind)) :
    TablesCounted machine (calls ++ [call]) := by
  refine ⟨served ++ [⟨h, call, answer⟩], after, ?_, ?_, counts, watch⟩
  · simp only [tableCalls_snoc, ran, answered]
  · intro s member
    rcases List.mem_append.mp member with earlier | last
    · exact truthful s earlier
    · rw [List.mem_singleton.mp last]
      exact told

theorem breakpointEdits_snoc (calls : List TableCall) (call : TableCall) :
    breakpointEdits (calls ++ [call]) = breakpointEdits calls ++ call.breakpointEdit.toList := by
  cases edit : call.breakpointEdit <;> simp [breakpointEdits, List.filterMap_append, edit]

theorem watchpointEdits_snoc (calls : List TableCall) (call : TableCall) :
    watchpointEdits (calls ++ [call]) = watchpointEdits calls ++ call.watchpointEdit.toList := by
  cases edit : call.watchpointEdit <;> simp [watchpointEdits, List.filterMap_append, edit]

/-- A call for the other table is no edit of this one. -/
theorem breakpointEdits_snoc_other {calls : List TableCall} {call : TableCall}
    (other : call.breakpointEdit = none) : breakpointEdits (calls ++ [call]) = breakpointEdits calls := by
  rw [breakpointEdits_snoc, other, Option.toList_none, List.append_nil]

theorem watchpointEdits_snoc_other {calls : List TableCall} {call : TableCall}
    (other : call.watchpointEdit = none) : watchpointEdits (calls ++ [call]) = watchpointEdits calls := by
  rw [watchpointEdits_snoc, other, Option.toList_none, List.append_nil]

theorem tablesCounted_keeps (machine : M) (calls : List TableCall) (call : TableCall)
    (counted : TablesCounted machine calls) (removable : Removable calls call) :
    TablesCounted machine (calls ++ [call]) := by
  obtain ⟨served, h, ran, truthful, counts, watch⟩ := counted
  cases call with
  | addSwBreakpoint addr =>
    have answered : h.tableCall (.addSwBreakpoint addr) = some (h.addSwBreakpoint addr) := rfl
    refine tablesCounted_snoc ran truthful answered trivial (fun a => ?_) (fun a kind => ?_)
    · simp only [breakpointEdits_snoc, TableCall.breakpointEdit, Option.toList_some,
        History.sinceRemoval_snoc_add, ← counts, List.count_append,
        List.count_singleton, beq_iff_eq]
    · rw [watchpointEdits_snoc_other rfl]
      exact watch a kind
  | removeSwBreakpoint addr =>
    have answered : h.tableCall (.removeSwBreakpoint addr) = some (h.removeSwBreakpoint addr) := rfl
    rw [removeSwBreakpoint_eq] at answered
    refine tablesCounted_snoc ran truthful answered decide_eq_true_iff (fun a => ?_) (fun a kind => ?_)
    · -- erasing takes out one copy, and there was at most one
      have once : h.breakpoints.count addr ≤ 1 := by rw [counts]; exact removable
      rw [breakpointEdits_snoc]
      simp only [TableCall.breakpointEdit, Option.toList_some, History.sinceRemoval_snoc_remove, ← counts]
      split
      next same =>
        subst same
        rw [List.count_erase_self]
        omega
      next other => rw [List.count_erase_of_ne (Ne.symm other)]
    · rw [watchpointEdits_snoc_other rfl]
      exact watch a kind
  | addHwWatchpoint addr len kind =>
    have answered : h.tableCall (.addHwWatchpoint addr len kind) =
        some (h.addHwWatchpoint addr len kind) := rfl
    refine tablesCounted_snoc ran truthful answered trivial (fun a => ?_) (fun a k => ?_)
    · rw [breakpointEdits_snoc_other rfl]
      exact counts a
    · simp only [watchpointEdits_snoc, TableCall.watchpointEdit, Option.toList_some,
        History.added_snoc_add, ← watch, List.mem_append, List.mem_singleton]
      exact or_comm.trans (or_congr_left eq_comm)
  | removeHwWatchpoint addr len kind =>
    -- only the removal of a watchpoint that is not there goes right
    have absent : (addr, kind) ∉ h.watchpoints := fun present => removable ((watch addr kind).mp present)
    have answered : h.tableCall (.removeHwWatchpoint addr len kind) = some (false, h) :=
      removeHwWatchpoint_absent h addr len kind absent
    have told : Served.Truthful ⟨h, .removeHwWatchpoint addr len kind, false⟩ := by
      simpa [Served.Truthful] using absent
    refine tablesCounted_snoc ran truthful answered told (fun a => ?_) (fun a k => ?_)
    · rw [breakpointEdits_snoc_other rfl]
      exact counts a
    · simp only [watchpointEdits_snoc, TableCall.watchpointEdit, Option.toList_some,
        History.added_snoc_remove, ← watch]
      exact ⟨fun present => ⟨fun same => absent (same ▸ present), present⟩, fun both => both.2⟩

/-- A removal that the source gets wrong leaves its entry in the table, or panics. -/
theorem tablesFaithful_breaks (machine : M) (calls : List TableCall) (call : TableCall)
    (counted : TablesCounted machine calls) (faithful : TablesFaithful machine (calls ++ [call])) :
    Removable calls call := by
  obtain ⟨served, h, ran, truthful, counts, watch⟩ := counted
  obtain ⟨servedAll, after, ranAll, -, breakpoints, watchpoints⟩ := faithful
  simp only [tableCalls_snoc, ran] at ranAll
  cases call with
  | addSwBreakpoint addr => trivial
  | addHwWatchpoint addr len kind => trivial
  | removeSwBreakpoint addr =>
    simp only [Handler.tableCall, removeSwBreakpoint_eq] at ranAll
    cases ranAll
    -- after a removal the address must be gone, which takes out a single copy only
    have gone : addr ∉ h.breakpoints.erase addr := by
      intro present
      have added := (breakpoints addr).mp present
      simp [breakpointEdits_snoc, TableCall.breakpointEdit] at added
    have none := List.count_eq_zero.mpr gone
    rw [List.count_erase_self, counts] at none
    simp only [Removable]
    omega
  | removeHwWatchpoint addr len kind =>
    intro added
    cases answered : h.removeHwWatchpoint addr len kind with
    | none => simp [Handler.tableCall, answered] at ranAll
    | some result =>
      obtain ⟨answer, final⟩ := result
      simp only [Handler.tableCall, answered, Option.some.injEq, Prod.mk.injEq] at ranAll
      obtain ⟨-, rfl⟩ := ranAll
      -- the call has left the watchpoint where it was
      have present : (addr, kind) ∈ final.watchpoints := by
        rw [removeHwWatchpoint_watchpoints answered]
        exact (watch addr kind).mpr added
      have still := (watchpoints addr kind).mp present
      simp [watchpointEdits_snoc, TableCall.watchpointEdit] at still

/-- The tables are faithful after every call of a sequence exactly if each removal of a
breakpoint finds it added at most once since its last removal, and no removal names a
watchpoint that was added. -/
theorem tables_faithful_iff (machine : M) (calls : List TableCall) :
    Always (TablesFaithful machine) calls ↔ Admitted Removable calls :=
  History.always_iff_admitted (tablesCounted_nil machine) (fun _ => tablesCounted_faithful)
    (tablesCounted_keeps machine) (tablesFaithful_breaks machine) calls

end Tables

/-- Removing a watchpoint deletes a breakpoint somewhere else. -/
theorem watchpoint_removal_deletes_breakpoint :
    ¬TablesFaithful () [.addSwBreakpoint 0x1000, .addHwWatchpoint 0x2000 8 .write,
      .removeHwWatchpoint 0x2000 8 .write] := by
  rintro ⟨served, h, ran, -, breakpoints, -⟩
  -- the position that was found among the watchpoints is used in the table of breakpoints
  have empty : h.breakpoints = [] := by
    simp [Handler.tableCalls, Handler.tableCall, Handler.new, Handler.addSwBreakpoint,
      Handler.addHwWatchpoint, Handler.removeHwWatchpoint] at ran
    rw [← ran.2]
  have added : (0x1000 : UInt64) ∈ h.breakpoints := (breakpoints 0x1000).mpr (by decide)
  rw [empty] at added
  cases added

end GdbStub
