import CkbDebugger.Bytes.LittleEndian
import CkbDebugger.MockTx.Resource

/-!
# The check of a mock transaction

Before a transaction is run, its JSON form is compared with the mock information that comes with it.
The types of the JSON form are those of the packed one, but for the type of a cell dep.
-/
namespace DebuggerApi

open MockTx (Byte32 OutPoint CellInput CellOutput HeaderView MockInput Packed)

/-! ### The JSON form -/

inductive DepType where
  | code
  | depGroup
  deriving Repr, DecidableEq

structure CellDep where
  outPoint : OutPoint
  depType : DepType
  deriving Repr, DecidableEq

structure Transaction where
  inputs : List CellInput
  cellDeps : List CellDep
  headerDeps : List Byte32
  deriving Repr, DecidableEq

structure ReprMockCellDep where
  cellDep : CellDep
  output : CellOutput
  data : List UInt8
  header : Option Byte32
  deriving Repr, DecidableEq

structure ReprMockInfo where
  inputs : List MockInput
  cellDeps : List ReprMockCellDep
  headerDeps : List HeaderView
  extensions : List (Byte32 × List UInt8)
  deriving Repr, DecidableEq

structure ReprMockTransaction where
  mockInfo : ReprMockInfo
  tx : Transaction
  deriving Repr, DecidableEq

def DepType.toByte : DepType → UInt8
  | .code => 0
  | .depGroup => MockTx.depGroup

def CellDep.pack (cellDep : CellDep) : MockTx.CellDep where
  outPoint := cellDep.outPoint
  depType := cellDep.depType.toByte

def ReprMockCellDep.toMock (dep : ReprMockCellDep) : MockTx.MockCellDep where
  cellDep := dep.cellDep.pack
  output := dep.output
  data := dep.data
  header := dep.header

/-- The transaction that is run. A header keeps the hash that was given for it. -/
def ReprMockTransaction.toMock (tx : ReprMockTransaction) : MockTx.MockTransaction where
  mockInfo := {
    inputs := tx.mockInfo.inputs
    cellDeps := tx.mockInfo.cellDeps.map ReprMockCellDep.toMock
    headerDeps := tx.mockInfo.headerDeps
    extensions := tx.mockInfo.extensions }
  tx := {
    inputs := tx.tx.inputs
    cellDeps := tx.tx.cellDeps.map CellDep.pack
    headerDeps := tx.tx.headerDeps }

/-! ### The check -/

/-- The two ways to print a cell dep: `serde_json::to_string` and `Debug`. -/
structure Printer where
  toJson : CellDep → String
  debug : CellDep → String

def parseDepGroupData (packed : Packed) (slice : List UInt8) : Except String (List OutPoint) :=
  if slice.isEmpty then .error "data is empty"
  else
    match packed.outPointVecFromSlice slice with
    | .ok v => if v.isEmpty then .error "dep group is empty" else .ok v
    | .error err => .error err

/-- A round of the loop that adds the members of the dep groups. -/
def extendDeps (packed : Packed) (cellDeps : List CellDep) (dep : ReprMockCellDep) :
    Except String (List CellDep) :=
  if dep.cellDep.depType = .depGroup then
    match parseDepGroupData packed dep.data with
    | .error err => .error err
    | .ok outpoints => .ok (cellDeps ++ outpoints.map fun o => { outPoint := o, depType := .code })
  else .ok cellDeps

/-- `compare`, as an order. -/
def Printer.le (printer : Printer) (a b : CellDep) : Bool := decide (printer.toJson a ≤ printer.toJson b)

def compareCellDeps (printer : Printer) (mockCellDeps cellDeps : List CellDep) : Except String Unit :=
  if mockCellDeps.length ≠ cellDeps.length then
    .error ("mock_cell_deps.len() != cell_deps.len(), " ++ toString mockCellDeps.length ++ " != " ++
      toString cellDeps.length)
  else
    match (mockCellDeps.zip cellDeps).find? fun pair => pair.1 ≠ pair.2 with
    | some (a, b) => .error ("CellDeps " ++ printer.debug a ++ " != " ++ printer.debug b)
    | none => .ok ()

def compareInputs (mockInputs : List MockInput) (inputs : List CellInput) : Except String Unit :=
  if mockInputs.length ≠ inputs.length then .error "tx.mock_info.inputs.len() != tx.tx.inputs.len() "
  else
    match (mockInputs.zip inputs).zipIdx.find? fun entry => entry.1.1.input ≠ entry.1.2 with
    | some (_, i) => .error ("inputs at index " ++ toString i ++ " is mismatched")
    | none => .ok ()

/-- Of the headers only the number is compared. -/
def compareHeaderDeps (mockHeaderDeps : List HeaderView) (headerDeps : List Byte32) : Except String Unit :=
  if mockHeaderDeps.length ≠ headerDeps.length then
    .error "tx.mock_info.header_deps.len() != tx.tx.header_deps.len() "
  else .ok ()

def check (printer : Printer) (packed : Packed) (tx : ReprMockTransaction) : Except String Unit := do
  let mockCellDeps := tx.mockInfo.cellDeps.map ReprMockCellDep.cellDep
  let cellDeps ← tx.mockInfo.cellDeps.foldlM (extendDeps packed) tx.tx.cellDeps
  compareCellDeps printer (mockCellDeps.mergeSort printer.le) (cellDeps.mergeSort printer.le)
  compareInputs tx.mockInfo.inputs tx.tx.inputs
  compareHeaderDeps tx.mockInfo.headerDeps tx.tx.headerDeps

/-! ### What the check ensures -/

theorem bind_ok {α β : Type} {first : Except String α} {next : α → Except String β} {last : β} :
    (first >>= next) = .ok last ↔ ∃ mid, first = .ok mid ∧ next mid = .ok last := by
  rcases first with e | mid
  · simp [Bind.bind, Except.bind]
  · simp [Bind.bind, Except.bind]

/-- Two lists of one length whose pairs are equal. -/
theorem eq_of_zip {α : Type} {xs ys : List α} (length : xs.length = ys.length)
    (pairs : ∀ pair ∈ xs.zip ys, pair.1 = pair.2) : xs = ys := by
  induction xs generalizing ys with
  | nil => exact (List.length_eq_zero_iff.mp length.symm).symm
  | cons x xs ih =>
    rcases ys with _ | ⟨y, ys⟩
    · simp at length
    · rw [List.zip_cons_cons, List.forall_mem_cons] at pairs
      rw [show x = y from pairs.1, ih (Nat.succ.inj length) pairs.2]

theorem eq_of_compareCellDeps {printer : Printer} {mockCellDeps cellDeps : List CellDep}
    (same : compareCellDeps printer mockCellDeps cellDeps = .ok ()) : mockCellDeps = cellDeps := by
  unfold compareCellDeps at same
  split at same
  · simp at same
  next length =>
    split at same
    · simp at same
    next none =>
      apply eq_of_zip (not_not.mp length)
      simpa using none

theorem eq_of_compareInputs {mockInputs : List MockInput} {inputs : List CellInput}
    (same : compareInputs mockInputs inputs = .ok ()) : mockInputs.map MockInput.input = inputs := by
  unfold compareInputs at same
  split at same
  · simp at same
  next length =>
    split at same
    · simp at same
    next none =>
      apply eq_of_zip (by simpa using length)
      intro pair mem
      rw [List.zip_map_left, List.mem_map] at mem
      obtain ⟨entry, mem, rfl⟩ := mem
      obtain ⟨i, indexed⟩ := List.mem_iff_getElem?.mp mem
      have counted : (entry, i) ∈ (mockInputs.zip inputs).zipIdx := List.mem_zipIdx_iff_getElem?.mpr indexed
      simpa using List.find?_eq_none.mp none _ counted

/-- The members that the check reads in a mock cell dep. -/
def groupDeps (packed : Packed) (dep : ReprMockCellDep) : List CellDep :=
  if dep.cellDep.depType = .depGroup then
    (((packed.outPointVecFromSlice dep.data).toOption).getD []).map fun o => { outPoint := o, depType := .code }
  else []

theorem parseDepGroupData_ok {packed : Packed} {slice : List UInt8} {members : List OutPoint}
    (ok : parseDepGroupData packed slice = .ok members) : packed.outPointVecFromSlice slice = .ok members := by
  unfold parseDepGroupData at ok
  split at ok
  · simp at ok
  · split at ok
    next v read =>
      split at ok
      · simp at ok
      · rw [read, ok]
    · simp at ok

/-- A mock dep group that the check accepts can be read. -/
theorem extendDeps_ok {packed : Packed} {cellDeps last : List CellDep} {dep : ReprMockCellDep}
    (ok : extendDeps packed cellDeps dep = .ok last) :
    (dep.cellDep.depType = .depGroup → ∃ members, packed.outPointVecFromSlice dep.data = .ok members) ∧
      last = cellDeps ++ groupDeps packed dep := by
  unfold extendDeps at ok
  by_cases group : dep.cellDep.depType = .depGroup
  · rw [if_pos group] at ok
    rcases parsed : parseDepGroupData packed dep.data with err | members
    · simp [parsed] at ok
    · have read := parseDepGroupData_ok parsed
      simp only [parsed, Except.ok.injEq] at ok
      exact ⟨fun _ => ⟨members, read⟩, by simp [groupDeps, group, read, Except.toOption, ← ok]⟩
  · rw [if_neg group] at ok
    exact ⟨fun isGroup => absurd isGroup group, by simpa [groupDeps, group] using ok.symm⟩

theorem foldlM_extendDeps {packed : Packed} {deps : List ReprMockCellDep} {cellDeps last : List CellDep}
    (ok : deps.foldlM (extendDeps packed) cellDeps = .ok last) :
    (∀ dep ∈ deps, dep.cellDep.depType = .depGroup →
      ∃ members, packed.outPointVecFromSlice dep.data = .ok members) ∧
      last = cellDeps ++ deps.flatMap (groupDeps packed) := by
  induction deps generalizing cellDeps with
  | nil =>
    have done : cellDeps = last := Except.ok.inj ok
    simp [done]
  | cons dep deps ih =>
    rw [List.foldlM_cons, bind_ok] at ok
    obtain ⟨mid, first, rest⟩ := ok
    obtain ⟨readable, rfl⟩ := extendDeps_ok first
    obtain ⟨readableRest, rfl⟩ := ih rest
    rw [List.flatMap_cons, List.append_assoc]
    exact ⟨List.forall_mem_cons.mpr ⟨readable, readableRest⟩, rfl⟩

/-- The mock cell deps are those of the transaction with the members of all mock dep groups, and the
inputs are the mock inputs one by one. -/
structure Checked (packed : Packed) (tx : ReprMockTransaction) : Prop where
  readable : ∀ dep ∈ tx.mockInfo.cellDeps, dep.cellDep.depType = .depGroup →
    ∃ members, packed.outPointVecFromSlice dep.data = .ok members
  cellDeps : (tx.mockInfo.cellDeps.map ReprMockCellDep.cellDep).Perm
    (tx.tx.cellDeps ++ tx.mockInfo.cellDeps.flatMap (groupDeps packed))
  inputs : tx.mockInfo.inputs.map MockInput.input = tx.tx.inputs

theorem checked_of_check {printer : Printer} {packed : Packed} {tx : ReprMockTransaction}
    (ok : check printer packed tx = .ok ()) : Checked packed tx := by
  unfold check at ok
  simp only [bind_ok] at ok
  obtain ⟨cellDeps, extended, ⟨⟩, sameDeps, ⟨⟩, sameInputs, -⟩ := ok
  obtain ⟨readable, rfl⟩ := foldlM_extendDeps extended
  have perm := (List.mergeSort_perm (tx.mockInfo.cellDeps.map ReprMockCellDep.cellDep) printer.le).symm
  rw [eq_of_compareCellDeps sameDeps] at perm
  exact {
    readable := readable
    cellDeps := perm.trans (List.mergeSort_perm _ _)
    inputs := eq_of_compareInputs sameInputs }

section Checked

variable {packed : Packed} {tx : ReprMockTransaction}

/-- Every cell dep of the transaction is a mock cell dep. -/
theorem Checked.mem_mock (checked : Checked packed tx) {cellDep : CellDep} (mem : cellDep ∈ tx.tx.cellDeps) :
    ∃ dep ∈ tx.mockInfo.cellDeps, dep.cellDep = cellDep :=
  List.mem_map.mp (checked.cellDeps.mem_iff.mpr (List.mem_append_left _ mem))

/-- Every member of a mock dep group is a mock cell dep. -/
theorem Checked.member_mock (checked : Checked packed tx) {dep : ReprMockCellDep}
    (depMem : dep ∈ tx.mockInfo.cellDeps) (group : dep.cellDep.depType = .depGroup) {members : List OutPoint}
    (read : packed.outPointVecFromSlice dep.data = .ok members) {member : OutPoint} (mem : member ∈ members) :
    ∃ other ∈ tx.mockInfo.cellDeps, other.cellDep.outPoint = member := by
  have inGroup : { outPoint := member, depType := .code } ∈ groupDeps packed dep := by
    simp [groupDeps, group, read, Except.toOption, mem]
  obtain ⟨other, otherMem, same⟩ := List.mem_map.mp (checked.cellDeps.mem_iff.mpr
    (List.mem_append_right _ (List.mem_flatMap.mpr ⟨dep, depMem, inGroup⟩)))
  exact ⟨other, otherMem, by rw [same]⟩

/-! ### The check and the resource -/

/-- The first mock cell dep with the given out point. -/
def firstMock (tx : ReprMockTransaction) (outPoint : OutPoint) : Option ReprMockCellDep :=
  tx.mockInfo.cellDeps.find? fun dep => outPoint = dep.cellDep.outPoint

theorem firstDep_toMock (outPoint : OutPoint) :
    MockTx.firstDep tx.toMock outPoint = (firstMock tx outPoint).map ReprMockCellDep.toMock := by
  simp only [MockTx.firstDep, ReprMockTransaction.toMock, firstMock, List.find?_map]
  rfl

theorem toByte_eq_depGroup {depType : DepType} : depType.toByte = MockTx.depGroup ↔ depType = .depGroup := by
  cases depType <;> decide

theorem exists_mem_toMock {outPoint : OutPoint} :
    (∃ mock ∈ tx.toMock.mockInfo.cellDeps, mock.cellDep.outPoint = outPoint) ↔
      ∃ dep ∈ tx.mockInfo.cellDeps, dep.cellDep.outPoint = outPoint := by
  simp [ReprMockTransaction.toMock, ReprMockCellDep.toMock, CellDep.pack]

variable (packed tx) in
/-- What the check leaves open: the hashes of the headers, and a dep group that stands behind a mock
cell dep of another type with the same out point. -/
structure Covered : Prop where
  headerDeps : ∀ blockHash ∈ tx.tx.headerDeps, ∃ header ∈ tx.mockInfo.headerDeps, header.hash = blockHash
  groups : ∀ cellDep ∈ tx.tx.cellDeps, cellDep.depType = .depGroup →
    ∀ dep, firstMock tx cellDep.outPoint = some dep → dep.cellDep.depType = .code →
      ∃ members, packed.outPointVecFromSlice dep.data = .ok members ∧
        ∀ member ∈ members, ∃ other ∈ tx.mockInfo.cellDeps, other.cellDep.outPoint = member

theorem Checked.resolvable_iff (checked : Checked packed tx) :
    MockTx.Resolvable packed tx.toMock ↔ Covered packed tx := by
  constructor
  · intro resolvable
    refine ⟨resolvable.headerDeps, fun cellDep mem group dep first _ => ?_⟩
    have packedFirst : MockTx.firstDep tx.toMock cellDep.pack.outPoint = some dep.toMock := by
      rw [firstDep_toMock, show firstMock tx cellDep.pack.outPoint = some dep from first, Option.map_some]
    obtain ⟨members, read, found⟩ := resolvable.groups cellDep.pack (List.mem_map_of_mem mem)
      (toByte_eq_depGroup.mpr group) dep.toMock packedFirst
    exact ⟨members, read, fun member mem => exists_mem_toMock.mp (found member mem)⟩
  · intro covered
    refine ⟨?inputs, ?cellDeps, ?groups, covered.headerDeps⟩
    case inputs =>
      intro input mem
      rw [show tx.toMock.tx.inputs = tx.tx.inputs from rfl, ← checked.inputs] at mem
      exact List.mem_map.mp mem
    case cellDeps =>
      intro cellDep mem
      obtain ⟨own, ownMem, rfl⟩ := List.mem_map.mp mem
      obtain ⟨dep, depMem, rfl⟩ := checked.mem_mock ownMem
      exact exists_mem_toMock.mpr ⟨dep, depMem, rfl⟩
    case groups =>
      intro cellDep mem group mock first
      obtain ⟨own, ownMem, rfl⟩ := List.mem_map.mp mem
      rw [firstDep_toMock] at first
      obtain ⟨dep, firstDep, rfl⟩ := Option.map_eq_some_iff.mp first
      simp only [exists_mem_toMock]
      rcases type : dep.cellDep.depType with _ | _
      · exact covered.groups own ownMem (toByte_eq_depGroup.mp group) dep firstDep type
      -- `check` has already read the group that the first cell dep of the out point declares
      · have depMem := List.mem_of_find?_eq_some firstDep
        obtain ⟨members, read⟩ := checked.readable dep depMem type
        exact ⟨members, read, fun member memberMem => checked.member_mock depMem type read memberMem⟩

end Checked

/-- A transaction that passes the check is resolved if and only if its headers are there and no dep
group is hidden behind a cell that is none. -/
theorem check_sound_iff (printer : Printer) (packed : Packed) (tx : ReprMockTransaction)
    (ok : check printer packed tx = .ok ()) :
    (∃ resource, MockTx.fromMockTx packed tx.toMock = .ok resource) ↔ Covered packed tx := by
  rw [MockTx.exists_fromMockTx_iff]
  exact (checked_of_check ok).resolvable_iff

/-! ### Transactions -/

/-- The encoding of out points: their number and 36 bytes for each. -/
def outPointVec (slice : List UInt8) : Except String (List OutPoint) :=
  let count := Bytes.leValue (slice.take 4)
  if slice.length < 4 then .error "HeaderIsBroken"
  else if slice.length ≠ 4 + 36 * count then .error "TotalSizeNotMatch"
  else .ok ((List.range count).map fun i => {
    txHash := BitVec.ofNat 256 (Bytes.field (4 + 36 * i) 32 slice)
    index := UInt32.ofNat (Bytes.field (36 + 36 * i) 4 slice) })

def molecule : Packed where
  outPointVecFromSlice := outPointVec
  calcDataHash _ := 0
  showInput _ := "CellInput"
  showDep _ := "CellDep"
  showOutPoint _ := "OutPoint"
  debugOutPoint _ := "OutPoint"
  hexHash _ := "00"

def printer : Printer where
  toJson cellDep := match cellDep.depType with | .code => "code" | .depGroup => "dep_group"
  debug _ := "CellDep"

def lock : MockTx.Script := { codeHash := 0, hashType := 0, args := [] }

def output : CellOutput := { capacity := 0, lock := lock, type := none }

/-- A dep group with one member. -/
def grouped : ReprMockTransaction where
  mockInfo := {
    inputs := []
    cellDeps := [
      { cellDep := ⟨⟨1, 0⟩, .depGroup⟩, output := output, data := [1, 0, 0, 0, 2] ++ List.replicate 35 0,
        header := none },
      { cellDep := ⟨⟨2, 0⟩, .code⟩, output := output, data := [], header := none }]
    headerDeps := []
    extensions := [] }
  tx := { inputs := [], cellDeps := [⟨⟨1, 0⟩, .depGroup⟩], headerDeps := [] }

theorem compareCellDeps_self (printer : Printer) (cellDeps : List CellDep) :
    compareCellDeps printer cellDeps cellDeps = .ok () := by
  have equal : (cellDeps.zip cellDeps).find? (fun pair => pair.1 ≠ pair.2) = none := by
    rw [List.zip, List.zipWith_self]
    simp
  rw [compareCellDeps, if_neg (not_not.mpr rfl), equal]

theorem check_grouped : check printer molecule grouped = .ok () := by
  have extended : grouped.mockInfo.cellDeps.foldlM (extendDeps molecule) grouped.tx.cellDeps =
      .ok (grouped.mockInfo.cellDeps.map ReprMockCellDep.cellDep) := by decide
  simp only [check, extended]
  exact bind_ok.mpr ⟨_, rfl, bind_ok.mpr ⟨(), compareCellDeps_self _ _, by decide⟩⟩

/-- It passes the check and is resolved. -/
theorem grouped_resolved : ∃ resource, MockTx.fromMockTx molecule grouped.toMock = .ok resource := by
  apply (check_sound_iff printer molecule grouped check_grouped).mpr
  refine ⟨fun blockHash mem => absurd mem List.not_mem_nil, fun cellDep mem _ dep first code => ?_⟩
  -- the dep group is the first with its out point
  obtain rfl : cellDep = ⟨⟨1, 0⟩, .depGroup⟩ := List.mem_singleton.mp mem
  have group : (firstMock grouped ⟨1, 0⟩).map (fun dep => dep.cellDep.depType) = some .depGroup := by decide
  rw [show firstMock grouped ⟨1, 0⟩ = some dep from first] at group
  cases code.symm.trans (Option.some.inj group)

/-- One header, which is not the one of the transaction. -/
def otherHeader : ReprMockTransaction where
  mockInfo := {
    inputs := []
    cellDeps := []
    headerDeps := [{ data := List.replicate 208 0, hash := 2 }]
    extensions := [] }
  tx := { inputs := [], cellDeps := [], headerDeps := [1] }

/-- It passes the check, and is not resolved. -/
theorem otherHeader_unresolved :
    check printer molecule otherHeader = .ok () ∧
      ¬ ∃ resource, MockTx.fromMockTx molecule otherHeader.toMock = .ok resource := by
  constructor
  · exact bind_ok.mpr ⟨[], rfl, bind_ok.mpr ⟨(), compareCellDeps_self _ _, by decide⟩⟩
  · intro resolved
    have found := (MockTx.exists_fromMockTx_iff.mp resolved).headerDeps 1 (by decide)
    revert found
    decide

end DebuggerApi
