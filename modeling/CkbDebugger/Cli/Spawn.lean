import CkbDebugger.Cli.Loops

/-!
# Callers of spawned processes

A run of `machine_sget` is a tree of processes: a spawn suspends its caller and starts a
child, and the child's exit resumes the caller. The loop keeps the callers on a stack, but the
data of the spawns in one variable. Here every process on the way to the running one is kept
with its own data, beside the variables of the loop.
-/
namespace Cli

open CkbVm (Vm Decoder Error A7)

section Machine

variable {M S : Type} (vm : Vm M) (host : Host M S)

/-! ### The two halves of a round -/

/-- Where a round goes: out of the loops, on with them, or to the code after the inner loop,
with the caller and the data of the spawn on the way there. -/
inductive Advance (M S : Type) where
  | leave (result : Option (Except Error M))
  | again (state : Sget M S)
  | ended (state : Sget M S) (spawn : Option (M × S))

def Advance.finish : Advance M S → Loop.Round (Sget M S) (Option (Except Error M))
  | .leave result => .leave result
  | .again state => .again state
  | .ended state _ => state.afterInner vm host

/-- `Sget.onExec` up to the code after the inner loop. -/
def Sget.advanceExec (s : Sget M S) (d : Decoder) : Advance M S :=
  match vm.step s.machine d with
  | (.error e, _, _) => .leave (some (.error e))
  | (.ok (), m, d) =>
    .ended
      { s with
        machine := (CkbVm.refresh vm m d).1
        decoder := (CkbVm.refresh vm m d).2
        specify := s.specify - 1
        suspendedMachines := host.suspends s.machine ++ s.suspendedMachines } none

/-- `Sget.onSpawn` up to the code after the inner loop. -/
def Sget.advanceSpawn (s : Sget M S) (d : Decoder) : Advance M S :=
  let cyclesCurrent := host.cycles s.machine
  let limited := host.setCycles (host.maxCycles s.machine - 500) s.machine
  let cyclesDiff := host.cycles limited - cyclesCurrent
  let (_, stepped, d) := vm.step limited d
  let machine := host.setCycles (cyclesCurrent + 500) stepped
  match host.suspends limited ++ s.suspendedMachines with
  | [] => .leave none
  | .spawn child data :: suspended =>
    -- the data of an earlier spawn is overwritten here
    .ended
      { s with
        machine := host.setMaxCycles cyclesDiff child
        decoder := d
        specify := s.specify - 1
        machineVec := machine :: s.machineVec
        spawnData := some data
        suspendedMachines := suspended } (some (machine, data))
  | .initial _ :: suspended =>
    .ended
      { s with machine := machine, decoder := d, specify := s.specify - 1, suspendedMachines := suspended } none

/-- `sgetRound` up to the code after the inner loop. -/
def Sget.advance (s : Sget M S) : Advance M S :=
  if s.inner then
    if vm.running s.machine then
      match s.decoder.decode vm s.machine with
      | (.error e, _) => .leave (some (.error e))
      | (.ok inst, d) =>
        if inst.opcode = .ecall ∧ vm.registers s.machine A7 = execSyscall then s.advanceExec vm host d
        else if inst.opcode = .ecall ∧ vm.registers s.machine A7 = spawnSyscall then s.advanceSpawn vm host d
        else
          match vm.step s.machine d with
          | (.error e, _, _) => .leave (some (.error e))
          | (.ok (), m, d) =>
            .again { s with
              machine := m
              decoder := d
              suspendedMachines := host.suspends s.machine ++ s.suspendedMachines }
    else .ended s none
  else if s.specify = 0 then .leave (some (.ok s.machine))
  else .again { s with decoder := s.decoder.resetInstructionsCache, inner := true }

theorem onExec_eq (s : Sget M S) (d : Decoder) :
    s.onExec vm host d = (s.advanceExec vm host d).finish vm host := by
  unfold Sget.onExec Sget.advanceExec
  rcases vm.step s.machine d with ⟨result, m, d'⟩
  cases result with
  | error e => rfl
  | ok _ => rfl

theorem onSpawn_eq (s : Sget M S) (d : Decoder) :
    s.onSpawn vm host d = (s.advanceSpawn vm host d).finish vm host := by
  unfold Sget.onSpawn Sget.advanceSpawn
  simp only
  rcases host.suspends _ ++ s.suspendedMachines with _ | ⟨first, suspended⟩
  · rfl
  · cases first with
    | initial machine => rfl
    | spawn child data => rfl

/-- A round is its two halves. -/
theorem sgetRound_eq (s : Sget M S) : sgetRound vm host s = (s.advance vm host).finish vm host := by
  unfold sgetRound Sget.advance
  by_cases inner : s.inner = true
  · simp only [inner, if_true]
    by_cases running : vm.running s.machine = true
    · simp only [running, if_true]
      rcases decoded : s.decoder.decode vm s.machine with ⟨result, d⟩
      cases result with
      | error e => rfl
      | ok inst =>
        simp only
        by_cases exec : inst.opcode = .ecall ∧ vm.registers s.machine A7 = execSyscall
        · simp only [if_pos exec, onExec_eq]
        · by_cases spawn : inst.opcode = .ecall ∧ vm.registers s.machine A7 = spawnSyscall
          · simp only [if_neg exec, if_pos spawn, onSpawn_eq]
          · simp only [if_neg exec, if_neg spawn]
            rcases stepped : vm.step s.machine d with ⟨result, m, d'⟩
            cases result with
            | error e => rfl
            | ok _ => rfl
    · simp only [if_neg running]
      rfl
  · simp only [if_neg inner]
    by_cases last : s.specify = 0
    · simp only [if_pos last]
      rfl
    · simp only [if_neg last]
      rfl

/-- The variables of the loop before a spawn and after it. -/
def SpawnOf (s t : Sget M S) : Option (M × S) → Prop
  | none => t.machineVec = s.machineVec ∧ t.spawnData = s.spawnData
  | some (caller, data) => t.machineVec = caller :: s.machineVec ∧ t.spawnData = some data

/-- What the first half of a round does to the callers and the data: only a spawn changes
them. -/
def Advance.Tracks (s : Sget M S) : Advance M S → Prop
  | .leave _ => True
  | .again next => SpawnOf s next none
  | .ended t spawn => SpawnOf s t spawn

theorem advanceExec_tracks (s : Sget M S) (d : Decoder) : (s.advanceExec vm host d).Tracks s := by
  unfold Sget.advanceExec
  rcases vm.step s.machine d with ⟨result, m, d'⟩
  cases result with
  | error e => trivial
  | ok _ => exact ⟨rfl, rfl⟩

theorem advanceSpawn_tracks (s : Sget M S) (d : Decoder) : (s.advanceSpawn vm host d).Tracks s := by
  unfold Sget.advanceSpawn
  simp only
  rcases host.suspends _ ++ s.suspendedMachines with _ | ⟨first, suspended⟩
  · trivial
  · cases first with
    | initial machine => exact ⟨rfl, rfl⟩
    | spawn child data => exact ⟨rfl, rfl⟩

theorem advance_tracks (s : Sget M S) : (s.advance vm host).Tracks s := by
  unfold Sget.advance
  by_cases inner : s.inner = true
  · rw [if_pos inner]
    by_cases running : vm.running s.machine = true
    · rw [if_pos running]
      rcases s.decoder.decode vm s.machine with ⟨result, d⟩
      cases result with
      | error e => trivial
      | ok inst =>
        simp only
        by_cases exec : inst.opcode = .ecall ∧ vm.registers s.machine A7 = execSyscall
        · rw [if_pos exec]
          exact advanceExec_tracks vm host s d
        · rw [if_neg exec]
          by_cases spawn : inst.opcode = .ecall ∧ vm.registers s.machine A7 = spawnSyscall
          · rw [if_pos spawn]
            exact advanceSpawn_tracks vm host s d
          · rw [if_neg spawn]
            -- any other instruction, also another syscall
            rcases vm.step s.machine d with ⟨result, m, d'⟩
            cases result with
            | error e => trivial
            | ok _ => exact ⟨rfl, rfl⟩
    · rw [if_neg running]
      exact ⟨rfl, rfl⟩
  · rw [if_neg inner]
    by_cases last : s.specify = 0
    · rw [if_pos last]
      trivial
    · rw [if_neg last]
      exact ⟨rfl, rfl⟩

theorem advance_ended {s t : Sget M S} {spawn : Option (M × S)} (ended : s.advance vm host = .ended t spawn) :
    SpawnOf s t spawn := by
  have tracks := advance_tracks vm host s
  rwa [ended] at tracks

/-! ### The calls of `update_caller_machine` -/

/-- The arguments of a call. -/
structure Call (M S : Type) where
  caller : M
  exitCode : Int8
  cycles : UInt64
  data : S

/-- The call that the code after the inner loop makes. -/
def Sget.call (t : Sget M S) : Option (Call M S) :=
  if vm.running t.machine then none
  else
    match t.machineVec, t.spawnData with
    -- the exit code is the constant 0
    | caller :: _, some data => some ⟨caller, 0, 0, data⟩
    | _, _ => none

theorem afterInner_eq (t : Sget M S) : t.afterInner vm host =
    if vm.running t.machine then .again { t with inner := false }
    else
      match t.call vm with
      | none => .leave none
      | some call =>
        match host.updateCallerMachine call.caller call.exitCode call.cycles call.data with
        | (.ok (), caller) => .again { t with machine := caller, machineVec := t.machineVec.tail, inner := false }
        | (.error _, _) => .leave none := by
  unfold Sget.afterInner Sget.call
  by_cases running : vm.running t.machine = true
  · simp only [if_pos running]
  · simp only [if_neg running]
    rcases callers : t.machineVec with _ | ⟨caller, callers⟩
    · rfl
    · rcases known : t.spawnData with _ | data
      · rfl
      · rfl

/-! ### The tree of processes -/

/-- A process that was spawned: its caller, suspended at the spawn, the data of the spawn, and
the data of the last spawn below it, by it or by one of its descendants. -/
structure Process (M S : Type) where
  caller : M
  data : S
  lastBelow : Option S

/-- The processes from the running one up to the first, which nobody spawned, after a round. -/
def spawnInto (processes : List (Process M S)) : Option (M × S) → List (Process M S)
  | none => processes
  | some (caller, data) =>
    ⟨caller, data, none⟩ :: processes.map fun process => { process with lastBelow := some data }

/-- The states of a run, with the processes from the running one upwards. -/
inductive Sget.Reached (start : Sget M S) : Sget M S → List (Process M S) → Prop where
  | start : Reached start start []
  | again {s next : Sget M S} {processes : List (Process M S)} (reached : Reached start s processes)
      (went : s.advance vm host = .again next) : Reached start next processes
  | stays {s t next : Sget M S} {processes : List (Process M S)} {spawn : Option (M × S)}
      (reached : Reached start s processes) (ended : s.advance vm host = .ended t spawn)
      (running : vm.running t.machine = true) (went : t.afterInner vm host = .again next) :
      Reached start next (spawnInto processes spawn)
  | exits {s t next : Sget M S} {processes : List (Process M S)} {spawn : Option (M × S)}
      (reached : Reached start s processes) (ended : s.advance vm host = .ended t spawn)
      (exited : vm.running t.machine = false) (went : t.afterInner vm host = .again next) :
      Reached start next (spawnInto processes spawn).tail

/-- The processes can be told in every run of the loop. -/
theorem reached_iff_reaches (start s : Sget M S) :
    (∃ processes, Sget.Reached vm host start s processes) ↔ Loop.Reaches (sgetRound vm host) start s := by
  constructor
  · rintro ⟨processes, reached⟩
    induction reached with
    | start => exact .start
    | again _ went ih => exact .again ih (by rw [sgetRound_eq, went, Advance.finish])
    | stays _ ended _ went ih => exact .again ih (by rw [sgetRound_eq, ended, Advance.finish, went])
    | exits _ ended _ went ih => exact .again ih (by rw [sgetRound_eq, ended, Advance.finish, went])
  -- the run itself tells which processes there are: a round that ends one is told apart by `ended`
  · intro reaches
    induction reaches with
    | start => exact ⟨[], .start⟩
    | @again state next _ went ih =>
      obtain ⟨processes, reached⟩ := ih
      rw [sgetRound_eq] at went
      cases advanced : state.advance vm host with
      | leave result =>
        rw [advanced] at went
        cases went
      | again other =>
        rw [advanced] at went
        cases went
        exact ⟨processes, .again reached advanced⟩
      | ended t spawn =>
        rw [advanced, Advance.finish] at went
        cases running : vm.running t.machine with
        | true => exact ⟨_, .stays reached advanced running went⟩
        | false => exact ⟨_, .exits reached advanced running went⟩

/-- The stack of callers is that of the processes, and the one variable for the data of spawns
has the data of the last spawn below each of them. -/
structure TreeOf (s : Sget M S) (processes : List (Process M S)) : Prop where
  callers : s.machineVec = processes.map Process.caller
  latest : ∀ process ∈ processes, s.spawnData = some (process.lastBelow.getD process.data)

variable {vm host}

theorem TreeOf.spawnInto {s t : Sget M S} {processes : List (Process M S)} (tree : TreeOf s processes)
    {spawn : Option (M × S)} (spawned : SpawnOf s t spawn) : TreeOf t (spawnInto processes spawn) := by
  rcases spawn with _ | ⟨caller, data⟩
  · exact ⟨spawned.1.trans tree.callers, fun process member => spawned.2.trans (tree.latest process member)⟩
  · refine ⟨?_, ?_⟩
    · rw [spawned.1, tree.callers, Cli.spawnInto, List.map_cons, List.map_map]
      rfl
    · intro process member
      rw [spawned.2]
      rcases List.mem_cons.mp member with rfl | member
      · rfl
      · obtain ⟨above, _, rfl⟩ := List.mem_map.mp member
        rfl

theorem afterInner_stays {t next : Sget M S} {processes : List (Process M S)} (tree : TreeOf t processes)
    (running : vm.running t.machine = true) (went : t.afterInner vm host = .again next) :
    TreeOf next processes := by
  rw [afterInner_eq, if_pos running] at went
  cases went
  exact ⟨tree.callers, tree.latest⟩

theorem afterInner_exits {t next : Sget M S} {processes : List (Process M S)} (tree : TreeOf t processes)
    (exited : vm.running t.machine = false) (went : t.afterInner vm host = .again next) :
    TreeOf next processes.tail := by
  rw [afterInner_eq, if_neg (by rw [exited]; exact Bool.false_ne_true)] at went
  have latest : ∀ process ∈ processes.tail, t.spawnData = some (process.lastBelow.getD process.data) :=
    fun process member => tree.latest process (List.mem_of_mem_tail member)
  split at went
  · cases went
  · split at went
    · cases went
      refine ⟨?_, latest⟩
      simp only [tree.callers, List.map_tail]
    · cases went

theorem reached_treeOf {machine : M} {specify : Nat} {suspended : List (ResumableMachine M S)} {s : Sget M S}
    {processes : List (Process M S)}
    (reached : Sget.Reached vm host (.start machine specify suspended) s processes) : TreeOf s processes := by
  induction reached with
  | start => exact ⟨rfl, fun process member => absurd member List.not_mem_nil⟩
  | @again before next _ _ went tree =>
    have tracks := advance_tracks vm host before
    rw [went] at tracks
    obtain ⟨callers, data⟩ := tracks
    exact ⟨callers.trans tree.callers, fun process member => data.trans (tree.latest process member)⟩
  | stays _ ended running went tree =>
    exact afterInner_stays (tree.spawnInto (advance_ended vm host ended)) running went
  | exits _ ended exited went tree =>
    exact afterInner_exits (tree.spawnInto (advance_ended vm host ended)) exited went

/-! ### Callers are resumed -/

variable (vm host)

/-- The call resumes the caller of the process that has exited, with the data of the spawn that
made the process and with its exit code. -/
structure Call.Faithful (call : Call M S) (process : Process M S) (child : M) : Prop where
  caller : call.caller = process.caller
  data : call.data = process.data
  exitCode : call.exitCode = vm.exitCode child

/-- Whenever a process exits to its caller, it is the caller of that process that is resumed,
and it is resumed with the right data and exit code exactly if the process has exited with
0 and the last spawn below it, if there is one, had the same data as its own. -/
theorem callers_resumed_iff {machine : M} {specify : Nat} {suspended : List (ResumableMachine M S)}
    {s t : Sget M S} {processes : List (Process M S)} {spawn : Option (M × S)} {call : Call M S}
    (reached : Sget.Reached vm host (.start machine specify suspended) s processes)
    (ended : s.advance vm host = .ended t spawn) (called : t.call vm = some call) :
    ∃ process above, spawnInto processes spawn = process :: above ∧
      (call.Faithful vm process t.machine ↔
        vm.exitCode t.machine = 0 ∧ ∀ data, process.lastBelow = some data → data = process.data) := by
  have tree := (reached_treeOf reached).spawnInto (advance_ended vm host ended)
  -- a call is made only if the process has exited and a caller and some data are there
  unfold Sget.call at called
  split at called
  · cases called
  · split at called
    next caller callers data suspendedCallers known =>
      cases called
      cases list : spawnInto processes spawn with
      | nil =>
        rw [tree.callers, list] at suspendedCallers
        cases suspendedCallers
      | cons process above =>
        have callerOf := tree.callers
        rw [list, suspendedCallers] at callerOf
        -- the variable has the last data below the process, or the process's own if there is none
        have latest := tree.latest process (list ▸ List.mem_cons_self)
        rw [known] at latest
        refine ⟨process, above, rfl, ?_⟩
        constructor
        · rintro ⟨-, own, code⟩
          refine ⟨code.symm, ?_⟩
          intro last below
          rw [below] at latest
          exact (Option.some.inj latest).symm.trans own
        · rintro ⟨code, own⟩
          refine ⟨(List.cons.inj callerOf).1, ?_, code.symm⟩
          rw [Option.some.inj latest]
          cases below : process.lastBelow with
          | none => rfl
          | some last => exact own last below
    next => cases called

end Machine

/-! ### A process that spawns another one -/

/-- The processes A (0) and B (1) are at a spawn; C (2) and a process that goes on after its
spawn have exited. -/
def chain : Vm Nat where
  pc := fun _ => 0x1000
  registers := fun _ _ => spawnSyscall
  isa := fun _ => 0
  version := fun _ => 2
  running := fun m => decide (m < 2)
  setRunning := fun _ m => m
  exitCode := fun _ => 0
  resetSignal := fun m => (false, m)
  load8 := fun _ _ => .ok 0
  instructionCycleFunc := fun _ => 1
  addCycles := fun _ m => (.ok (), m)
  fetch := fun _ _ => .ok ⟨.ecall, 4, 0, CkbVm.ZERO, 0x73⟩
  execute := fun _ m => (.ok (), m)
  slot := UInt64.toNat
  execs := fun _ => 0

/-- A spawns B and B spawns C. -/
def chainHost : Host Nat String where
  cycles := fun _ => 0
  maxCycles := fun _ => 1000000
  setCycles := fun _ m => m
  setMaxCycles := fun _ m => m
  suspends := fun m => if m = 0 then [.spawn 1 "B"] else if m = 1 then [.spawn 2 "C"] else []
  updateCallerMachine := fun m _ _ _ => (.ok (), m + 2)

/-- The exit of C resumes B with the data of C. -/
theorem last_spawn_resumed : ∃ s processes t spawn call process above,
    Sget.Reached chain chainHost (.start 0 4 []) s processes ∧ s.advance chain chainHost = .ended t spawn ∧
    t.call chain = some call ∧ spawnInto processes spawn = process :: above ∧
    process.data = "C" ∧ call.Faithful chain process t.machine := by
  obtain ⟨s, processes, t, spawn, call, reached, ended, called, process, above, list, own, last⟩ :
      ∃ s processes t spawn call, Sget.Reached chain chainHost (.start 0 4 []) s processes ∧
        s.advance chain chainHost = .ended t spawn ∧ t.call chain = some call ∧
        ∃ process above, spawnInto processes spawn = process :: above ∧ process.data = "C" ∧
          process.lastBelow = none :=
    ⟨_, _, _, _, _, .again (.stays (.again .start rfl) rfl rfl rfl) rfl, rfl, rfl, _, _, rfl, rfl, rfl⟩
  obtain ⟨process', above', list', faithful⟩ := callers_resumed_iff chain chainHost reached ended called
  obtain ⟨rfl, rfl⟩ := List.cons.inj (list.symm.trans list')
  refine ⟨s, processes, t, spawn, call, process, above, reached, ended, called, list, own, faithful.mpr ⟨rfl, ?_⟩⟩
  intro data below
  rw [last] at below
  cases below

/-- The exit of B, which has spawned C, resumes A with the data of C. -/
theorem caller_resumed_with_other_data : ∃ s processes t spawn call process above,
    Sget.Reached chain chainHost (.start 0 4 []) s processes ∧ s.advance chain chainHost = .ended t spawn ∧
    t.call chain = some call ∧ spawnInto processes spawn = process :: above ∧
    process.data = "B" ∧ call.data = "C" ∧ ¬call.Faithful chain process t.machine := by
  -- A spawns B, B spawns C, C exits, and then B
  refine ⟨_, _, _, _, _, _, _, .again (.exits (.again (.stays (.again .start rfl) rfl rfl rfl) rfl) rfl rfl rfl) rfl,
    rfl, rfl, rfl, rfl, rfl, ?_⟩
  intro faithful
  exact absurd faithful.data (by decide)

end Cli
