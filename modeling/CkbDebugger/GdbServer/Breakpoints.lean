import CkbDebugger.History.Basic
import CkbDebugger.GdbRemote.BreakpointPacket
import CkbDebugger.GdbServer.Requests

/-!
# Breakpoints that a client sets and clears

Breakpoint packets served by `GdbHandler`. The handler keeps whole breakpoints, with
their conditions and commands, and clears those equal to the one in the packet; but the
packet that clears a breakpoint has no conditions or commands. So a breakpoint that was set with
them stays for ever.
-/
namespace GdbServer

open CkbVm (Vm)
open GdbRemote (BreakpointPacket Breakpoint Service Server handlePacket)
open History (Edit Added)

variable {M : Type} (target : Target M) (rounds : Nat)

/-- Packets one after the other. -/
def handlePackets {σ : Type} (handler : GdbRemote.Handler σ) : List BreakpointPacket → Service σ Unit
  | [] => pure ()
  | packet :: packets => do
    let _ ← handlePacket handler packet.text
    handlePackets handler packets

/-! ### What packets ask for -/

/-- The change of the set of breakpoints by address and kind. -/
def edit (packet : BreakpointPacket) : Edit Breakpoint :=
  match packet.action with
  | .insert => .add packet.breakpoint
  | .remove => .remove packet.breakpoint

def location (breakpoint : Breakpoint) : UInt64 × UInt64 := (breakpoint.addr, breakpoint.kind)

/-- The changes that packets ask for, by address and kind. -/
def edits (packets : List BreakpointPacket) : List (Edit (UInt64 × UInt64)) :=
  (packets.map edit).map (Edit.map location)

/-- Some packet sets a breakpoint at the address that has conditions or commands. -/
def SetWithLists (packets : List BreakpointPacket) (addr : UInt64) : Prop :=
  ∃ packet ∈ packets, packet.action = .insert ∧ packet.breakpoint.addr = addr ∧
    (packet.breakpoint.conditions ≠ none ∨ packet.breakpoint.commands ≠ none)

/-! ### Serving them -/

def Handler.served (h : Handler M) (packet : BreakpointPacket) : Handler M :=
  match packet.action with
  | .insert => h.insertSoftwareBreakpoint packet.breakpoint
  | .remove => h.removeSoftwareBreakpoint packet.breakpoint

theorem handlePacket_served (packet : BreakpointPacket) (server : Server (Handler M)) :
    ∃ server', (handlePacket (gdbHandler target rounds) packet.text).runOn server = (some false, server') ∧
      server'.handler = server.handler.served packet := by
  unfold handlePacket
  rw [GdbRemote.command_text]
  obtain ⟨action, addr, kind, lists, breakpoint, addrNumber, kindNumber, accepted⟩ := packet
  cases action
  · exact ⟨_, rfl, rfl⟩
  · exact ⟨_, rfl, rfl⟩

theorem handlePackets_served (packets : List BreakpointPacket) (server : Server (Handler M)) :
    ∃ server', (handlePackets (gdbHandler target rounds) packets).runOn server = (some (), server') ∧
      server'.handler = packets.foldl Handler.served server.handler := by
  induction packets generalizing server with
  | nil => exact ⟨server, rfl, rfl⟩
  | cons packet packets ih =>
    obtain ⟨middle, first, handled⟩ := handlePacket_served target rounds packet server
    obtain ⟨final, rest, served⟩ := ih middle
    refine ⟨final, ?_, by rw [served, handled, List.foldl_cons]⟩
    rw [handlePackets, GdbRemote.runOn_bind, first]
    exact rest

/-- The breakpoints that are left are the whole values that were added last. -/
theorem mem_breakpoints_served (packets : List BreakpointPacket) (machine : M) (b : Breakpoint) :
    b ∈ (packets.foldl Handler.served (Handler.new machine)).breakpoints ↔ Added (packets.map edit) b := by
  -- on the last packet, since that is the one that decides
  induction packets using List.reverseRecOn with
  | nil => simp [Handler.new]
  | append_singleton packets packet ih =>
    rw [List.foldl_append, List.foldl_cons, List.foldl_nil, List.map_append, List.map_singleton]
    cases action : packet.action with
    | insert =>
      simp only [Handler.served, edit, action, Handler.insertSoftwareBreakpoint, List.mem_append, ih,
        List.mem_singleton, History.added_snoc_add]
      exact or_comm.trans (or_congr_left eq_comm)
    | remove =>
      simp only [Handler.served, edit, action, Handler.removeSoftwareBreakpoint, List.mem_filter, ih,
        bne_iff_ne, History.added_snoc_remove]
      exact and_comm.trans (and_congr_left' ne_comm)

/-! ### Conditions and commands -/

/-- Removals name breakpoints without conditions and commands. -/
theorem removed_plain {packets : List BreakpointPacket} {b : Breakpoint}
    (removed : .remove b ∈ packets.map edit) : b.conditions = none ∧ b.commands = none := by
  obtain ⟨packet, -, edited⟩ := List.mem_map.mp removed
  have accepted := packet.listsAccepted
  cases action : packet.action with
  | insert => simp only [edit, action, reduceCtorEq] at edited
  | remove =>
    simp only [edit, action, Edit.remove.injEq] at edited
    rw [action] at accepted
    exact edited ▸ accepted.2

/-- A breakpoint is at an address if one with conditions or commands was ever set there, or
if the address is asked for. -/
theorem breakpoint_at_iff (packets : List BreakpointPacket) (addr : UInt64) :
    (∃ b, b.addr = addr ∧ Added (packets.map edit) b) ↔
      SetWithLists packets addr ∨ ∃ kind, Added (edits packets) (addr, kind) := by
  constructor
  · rintro ⟨b, rfl, added⟩
    by_cases lists : b.conditions = none ∧ b.commands = none
    · -- a plain breakpoint is cleared by every packet that names it
      right
      refine ⟨b.kind, History.added_map_of_added location added fun k removed same => ?_⟩
      obtain ⟨conditions, commands⟩ := removed_plain removed
      obtain ⟨sameAddr, sameKind⟩ := Prod.mk.inj same
      cases k
      cases b
      simp_all
    · left
      obtain ⟨packet, member, edited⟩ := List.mem_map.mp (History.mem_of_added added)
      cases action : packet.action with
      | insert =>
        simp only [edit, action, Edit.add.injEq] at edited
        subst edited
        exact ⟨packet, member, action, rfl, not_and_or.mp lists⟩
      | remove => simp only [edit, action, reduceCtorEq] at edited
  · rintro (⟨packet, member, action, rfl, lists⟩ | ⟨kind, added⟩)
    · -- no packet can clear it
      refine ⟨packet.breakpoint, rfl, History.added_of_not_removed ?_ fun removed => ?_⟩
      · exact List.mem_map.mpr ⟨packet, member, by simp only [edit, action]⟩
      · obtain ⟨conditions, commands⟩ := removed_plain removed
        exact lists.elim (fun some => some conditions) (fun some => some commands)
    · obtain ⟨b, named, added⟩ := History.added_of_added_map location added
      exact ⟨b, (Prod.mk.inj named).1, added⟩

/-! ### The set of breakpoints -/

/-- The packets are served, and then there is a breakpoint at the program counter exactly if for
some kind the last packet that names the two sets it. -/
def BreakpointsFaithful (start m : M) (packets : List BreakpointPacket) : Prop :=
  ∃ server, (handlePackets (gdbHandler target rounds) packets).runOn ⟨Handler.new start, [], []⟩ =
      (some (), server) ∧
    (Handler.atBreakpoint target.toVm { server.handler with machine := m } = true ↔
      ∃ kind, Added (edits packets) (target.pc m, kind))

/-- The set is right at an address exactly if the address is still asked for whenever a
breakpoint with conditions or commands was set there. -/
theorem breakpoints_faithful_iff (start m : M) (packets : List BreakpointPacket) :
    BreakpointsFaithful target rounds start m packets ↔
      (SetWithLists packets (target.pc m) → ∃ kind, Added (edits packets) (target.pc m, kind)) := by
  obtain ⟨server, ran, served⟩ := handlePackets_served target rounds packets ⟨Handler.new start, [], []⟩
  have hit : Handler.atBreakpoint target.toVm { server.handler with machine := m } = true ↔
      SetWithLists packets (target.pc m) ∨ ∃ kind, Added (edits packets) (target.pc m, kind) := by
    simp only [Handler.atBreakpoint, List.any_eq_true, beq_iff_eq, served, mem_breakpoints_served,
      ← breakpoint_at_iff, and_comm]
  constructor
  · rintro ⟨final, ranAgain, faithful⟩ lists
    rw [ran] at ranAgain
    obtain rfl : server = final := congrArg Prod.snd ranAgain
    exact faithful.mp (hit.mpr (Or.inl lists))
  · intro asked
    refine ⟨server, ran, hit.trans ⟨?_, Or.inr⟩⟩
    rintro (lists | added)
    · exact asked lists
    · exact added

/-! ### A breakpoint with a condition -/

/-- A machine that is only a program counter. -/
def standing : Target UInt64 where
  pc := id
  registers := fun _ _ => 0
  isa := fun _ => 0
  version := fun _ => 2
  running := fun _ => true
  setRunning := fun _ m => m
  exitCode := fun _ => 0
  resetSignal := fun m => (false, m)
  load8 := fun _ _ => .ok 0
  instructionCycleFunc := fun _ => 1
  addCycles := fun _ m => (.ok (), m)
  fetch := fun _ _ => .ok ⟨.other, 4, 0, CkbVm.ZERO, 0x13⟩
  execute := fun _ m => (.ok (), m + 4)
  slot := UInt64.toNat
  execs := fun _ => 0
  setRegister := fun _ _ m => m
  setPc := fun pc _ => pc
  storeBytes := fun _ _ m => (.ok (), m)

theorem addr1000 : GdbRemote.Digits (Nom.ascii "1000") 0x1000 :=
  ⟨by decide, List.all_eq_true.mp (by decide), by decide⟩

theorem kind4 : GdbRemote.Digits (Nom.ascii "4") 4 :=
  ⟨by decide, List.all_eq_true.mp (by decide), by decide⟩

/-- `Z0,1000,4;X1,Q`, a breakpoint with a condition of one byte. -/
def setConditional : BreakpointPacket where
  action := .insert
  addr := Nom.ascii "1000"
  kind := Nom.ascii "4"
  lists := Nom.ascii ";X1,Q"
  breakpoint := ⟨0x1000, 4, some [⟨Nom.ascii "Q"⟩], none⟩
  addrNumber := addr1000
  kindNumber := kind4
  listsAccepted := rfl

/-- `z0,1000,4`. -/
def clear1000 : BreakpointPacket := .plain .remove _ _ _ _ addr1000 kind4

/-- The breakpoint is still there after it has been cleared. -/
theorem conditional_breakpoint_stays :
    setConditional.text = Nom.ascii "Z0,1000,4;X1,Q" ∧ clear1000.text = Nom.ascii "z0,1000,4" ∧
      ¬BreakpointsFaithful standing 0 0 0x1000 [setConditional, clear1000] := by
  refine ⟨by decide, by decide, ?_⟩
  rintro ⟨server, ran, faithful⟩
  -- the second packet removes a breakpoint without a condition, and there is none
  have breakpoints : server.handler.breakpoints = [setConditional.breakpoint] := by
    obtain rfl := congrArg Prod.snd ran
    rfl
  have hit : Handler.atBreakpoint standing.toVm { server.handler with machine := 0x1000 } = true := by
    simp only [Handler.atBreakpoint, breakpoints]
    rfl
  obtain ⟨kind, added⟩ := faithful.mp hit
  have named : kind = 4 := by
    have member := History.mem_of_added added
    simp [edits, edit, setConditional, clear1000, BreakpointPacket.plain, Edit.map, location] at member
    exact member.2
  subst named
  exact absurd added (by decide)

end GdbServer
