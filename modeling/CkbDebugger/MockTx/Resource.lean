import CkbDebugger.Table.Basic

/-!
# The resources of a mock transaction

A transaction comes with the cells and headers that it uses. `Resource` looks each of them up and
puts it into maps by out point and by hash.

The packed types have no more values than their fields, and `H256` is `Byte32`.
-/
namespace MockTx

abbrev Byte32 : Type := BitVec 256

structure OutPoint where
  txHash : Byte32
  index : UInt32
  deriving Repr, DecidableEq

structure CellInput where
  since : UInt64
  previousOutput : OutPoint
  deriving Repr, DecidableEq

/-- A packed `CellDep`; its type is a byte. -/
structure CellDep where
  outPoint : OutPoint
  depType : UInt8
  deriving Repr, DecidableEq

/-- `DepType::DepGroup.into()`. -/
def depGroup : UInt8 := 1

structure Script where
  codeHash : Byte32
  hashType : UInt8
  args : List UInt8
  deriving Repr, DecidableEq

structure CellOutput where
  capacity : UInt64
  lock : Script
  type : Option Script
  deriving Repr, DecidableEq

/-- A header with the hash that goes with it, which may be a fake one. -/
structure HeaderView where
  data : List UInt8
  hash : Byte32
  deriving Repr, DecidableEq

/-- What a transaction has here. -/
structure Transaction where
  inputs : List CellInput
  cellDeps : List CellDep
  headerDeps : List Byte32
  deriving Repr, DecidableEq

structure MockCellDep where
  cellDep : CellDep
  output : CellOutput
  data : List UInt8
  header : Option Byte32
  deriving Repr, DecidableEq

structure MockInput where
  input : CellInput
  output : CellOutput
  data : List UInt8
  header : Option Byte32
  deriving Repr, DecidableEq

structure MockInfo where
  inputs : List MockInput
  cellDeps : List MockCellDep
  headerDeps : List HeaderView
  extensions : List (Byte32 × List UInt8)
  deriving Repr, DecidableEq

structure MockTransaction where
  mockInfo : MockInfo
  tx : Transaction
  deriving Repr, DecidableEq

structure TransactionInfo where
  blockNumber : UInt64
  /-- Number, index and length. -/
  blockEpoch : UInt64 × UInt64 × UInt64
  blockHash : Byte32
  index : Nat
  deriving Repr, DecidableEq

structure CellMeta where
  cellOutput : CellOutput
  outPoint : OutPoint
  transactionInfo : Option TransactionInfo
  dataBytes : UInt64
  memCellData : Option (List UInt8)
  memCellDataHash : Option Byte32
  deriving Repr, DecidableEq

/-- What the types of CKB provide: parsing, with the text of an error, the hash of data, and the
ways to print them. -/
structure Packed where
  outPointVecFromSlice : List UInt8 → Except String (List OutPoint)
  calcDataHash : List UInt8 → Byte32
  showInput : CellInput → String
  showDep : CellDep → String
  showOutPoint : OutPoint → String
  debugOutPoint : OutPoint → String
  hexHash : Byte32 → String

/-- A cell as it is looked up: output, data and the hash of its block. -/
abbrev Cell : Type := CellOutput × List UInt8 × Option Byte32

/-! ### Lookups -/

/-- What a loader with states `L` does, until it fails. -/
abbrev Loading (L : Type) : Type → Type := StateT L (Except String)

structure MockResourceLoader (L : Type) where
  getHeader : Byte32 → Loading L (Option HeaderView)
  getLiveCell : OutPoint → Loading L (Option Cell)

def dummyResourceLoader (packed : Packed) : MockResourceLoader Unit where
  getHeader hash := throw ("Header " ++ packed.hexHash hash ++ " is missing!")
  getLiveCell outPoint := throw ("Cell: " ++ packed.debugOutPoint outPoint ++ " is missing!")

section Lookups

variable {L : Type} (mockTx : MockTransaction)

/-- The first mock input that is the given one. -/
def firstInput (input : CellInput) : Option MockInput :=
  mockTx.mockInfo.inputs.find? fun mockInput => input = mockInput.input

/-- The first mock cell dep with the given out point. -/
def firstDep (outPoint : OutPoint) : Option MockCellDep :=
  mockTx.mockInfo.cellDeps.find? fun mockCell => outPoint = mockCell.cellDep.outPoint

/-- The first mock header with the given hash. -/
def firstHeader (blockHash : Byte32) : Option HeaderView :=
  mockTx.mockInfo.headerDeps.find? fun mockHeader => blockHash = mockHeader.hash

def getInputCell (input : CellInput) (liveCellGetter : OutPoint → Loading L (Option Cell)) :
    Loading L (Option Cell) :=
  match firstInput mockTx input with
  | some mockInput => pure (some (mockInput.output, mockInput.data, mockInput.header))
  | none => liveCellGetter input.previousOutput

def getDepCell (outPoint : OutPoint) (liveCellGetter : OutPoint → Loading L (Option Cell)) :
    Loading L (Option Cell) :=
  match firstDep mockTx outPoint with
  | some mockCell => pure (some (mockCell.output, mockCell.data, mockCell.header))
  | none => liveCellGetter outPoint

def getHeader (blockHash : Byte32) (headerGetter : Byte32 → Loading L (Option HeaderView)) :
    Loading L (Option HeaderView) :=
  match firstHeader mockTx blockHash with
  | some mockHeader => pure (some mockHeader)
  | none => headerGetter blockHash

end Lookups

/-! ### The resource -/

structure Resource where
  requiredCells : OutPoint → Option CellMeta
  requiredHeaders : Byte32 → Option HeaderView
  blockExtensions : Byte32 → Option (List UInt8)

def buildTransactionInfo (header : Option Byte32) : TransactionInfo where
  blockNumber := 0
  blockEpoch := (0, 0, 1800)
  blockHash := header.getD 0
  index := 0

/-- `CellMetaBuilder`, as it is used. -/
def cellMeta (packed : Packed) (outPoint : OutPoint) (cell : Cell) : CellMeta where
  cellOutput := cell.1
  outPoint := outPoint
  transactionInfo := some (buildTransactionInfo cell.2.2)
  dataBytes := .ofNat cell.2.1.length
  memCellData := some cell.2.1
  memCellDataHash := some (packed.calcDataHash cell.2.1)

/-- `ok_or_else` and `?`. -/
def okOr {L α : Type} (found : Option α) (text : String) : Loading L α :=
  match found with
  | some value => pure value
  | none => throw text

section FromLoader

variable {L : Type} (packed : Packed) (mockTx : MockTransaction) (loader : MockResourceLoader L)

/-- A round of the loop over the inputs. -/
def insertInput (requiredCells : OutPoint → Option CellMeta) (input : CellInput) :
    Loading L (OutPoint → Option CellMeta) := do
  let found ← getInputCell mockTx input loader.getLiveCell
  let cell ← okOr found ("Can not get CellOutput by input=" ++ packed.showInput input)
  return Table.insert requiredCells input.previousOutput (cellMeta packed input.previousOutput cell)

/-- A round of the loop over the members of a dep group. -/
def insertMember (requiredCells : OutPoint → Option CellMeta) (subOutPoint : OutPoint) :
    Loading L (OutPoint → Option CellMeta) := do
  let found ← getDepCell mockTx subOutPoint loader.getLiveCell
  let cell ← okOr found
    ("(dep group) Can not get CellOutput by out_point=" ++ packed.showOutPoint subOutPoint)
  return Table.insert requiredCells subOutPoint (cellMeta packed subOutPoint cell)

/-- The dep group of a round of the loop over the cell deps. -/
def insertGroup (requiredCells : OutPoint → Option CellMeta) (data : List UInt8) :
    Loading L (OutPoint → Option CellMeta) :=
  match packed.outPointVecFromSlice data with
  | .error err => throw ("Parse dep group data error: " ++ err)
  | .ok members => members.foldlM (insertMember packed mockTx loader) requiredCells

/-- A round of the loop over the cell deps. -/
def insertDep (requiredCells : OutPoint → Option CellMeta) (cellDep : CellDep) :
    Loading L (OutPoint → Option CellMeta) := do
  let found ← getDepCell mockTx cellDep.outPoint loader.getLiveCell
  let cell ← okOr found ("Can not get CellOutput by dep=" ++ packed.showDep cellDep)
  let requiredCells ←
    if cellDep.depType = depGroup then insertGroup packed mockTx loader requiredCells cell.2.1
    else pure requiredCells
  return Table.insert requiredCells cellDep.outPoint (cellMeta packed cellDep.outPoint cell)

/-- A round of the loop over the header deps. -/
def insertHeader (requiredHeaders : Byte32 → Option HeaderView) (blockHash : Byte32) :
    Loading L (Byte32 → Option HeaderView) := do
  let found ← getHeader mockTx blockHash loader.getHeader
  let header ← okOr found ("Can not get header: " ++ packed.hexHash blockHash)
  return Table.insert requiredHeaders blockHash header

def fromLoaderAndBlockExtensions (blockExtensions : Byte32 → Option (List UInt8)) : Loading L Resource := do
  let requiredCells ← mockTx.tx.inputs.foldlM (insertInput packed mockTx loader) fun _ => none
  let requiredCells ← mockTx.tx.cellDeps.foldlM (insertDep packed mockTx loader) requiredCells
  let requiredHeaders ← mockTx.tx.headerDeps.foldlM (insertHeader packed mockTx loader) fun _ => none
  let extensions := Table.fill (fun _ => none) mockTx.mockInfo.extensions
  return {
    requiredCells := requiredCells
    requiredHeaders := requiredHeaders
    blockExtensions := fun hash => (blockExtensions hash).or (extensions hash) }

def fromBoth (s : L) : Except String Resource :=
  (fromLoaderAndBlockExtensions packed mockTx loader fun _ => none).run' s

end FromLoader

def fromMockTx (packed : Packed) (mockTx : MockTransaction) : Except String Resource :=
  fromBoth packed mockTx (dummyResourceLoader packed) ()

/-! ### What the loops insert -/

section Entries

variable (packed : Packed) (mockTx : MockTransaction)

def inputEntries (input : CellInput) : List (OutPoint × CellMeta) :=
  (firstInput mockTx input).toList.map fun mock =>
    (input.previousOutput, cellMeta packed input.previousOutput (mock.output, mock.data, mock.header))

def depEntries (outPoint : OutPoint) : List (OutPoint × CellMeta) :=
  (firstDep mockTx outPoint).toList.map fun mock =>
    (outPoint, cellMeta packed outPoint (mock.output, mock.data, mock.header))

/-- The members of the dep group at an out point, if it is one that can be read. -/
def members (outPoint : OutPoint) : List OutPoint :=
  match firstDep mockTx outPoint with
  | none => []
  | some mock => ((packed.outPointVecFromSlice mock.data).toOption).getD []

/-- The members come before the group itself. -/
def cellDepEntries (cellDep : CellDep) : List (OutPoint × CellMeta) :=
  (if cellDep.depType = depGroup then
    (members packed mockTx cellDep.outPoint).flatMap (depEntries packed mockTx) else []) ++
    depEntries packed mockTx cellDep.outPoint

def headerEntries (blockHash : Byte32) : List (Byte32 × HeaderView) :=
  (firstHeader mockTx blockHash).toList.map fun header => (blockHash, header)

/-- A cell dep that is found and, if it is a dep group, whose members can be read and are found. -/
def Found (cellDep : CellDep) : Prop :=
  ∃ mock, firstDep mockTx cellDep.outPoint = some mock ∧
    (cellDep.depType = depGroup → ∃ members, packed.outPointVecFromSlice mock.data = .ok members ∧
      ∀ member ∈ members, (firstDep mockTx member).isSome)

variable {packed mockTx}

/-! The dummy loader fails, so that a lookup is one in the mock information alone. -/

theorem run_lookup {L α β : Type} {first : Option α} {value : α → β} {lookup : Loading L (Option β)}
    {text : String} {s : L} {found : Option β × L}
    (hit : ∀ mock, first = some mock → lookup = pure (some (value mock)))
    (missing : first = none → lookup = throw text) :
    lookup.run s = .ok found ↔ ∃ mock, first = some mock ∧ found = (some (value mock), s) := by
  rcases first with _ | mock
  · rw [missing rfl]
    simp only [Table.run_throw_ok, reduceCtorEq, false_and, exists_false]
  · rw [hit mock rfl]
    simp only [Table.run_pure_ok, Option.some.injEq, exists_eq_left']

theorem run_getInputCell {input : CellInput} {s : Unit} {found : Option Cell × Unit} :
    (getInputCell mockTx input (dummyResourceLoader packed).getLiveCell).run s = .ok found ↔
      ∃ mock, firstInput mockTx input = some mock ∧ found = (some (mock.output, mock.data, mock.header), s) := by
  apply run_lookup
  · intro mock first
    rw [getInputCell, first]
  · intro missing
    rw [getInputCell, missing]
    rfl

theorem run_getDepCell {outPoint : OutPoint} {s : Unit} {found : Option Cell × Unit} :
    (getDepCell mockTx outPoint (dummyResourceLoader packed).getLiveCell).run s = .ok found ↔
      ∃ mock, firstDep mockTx outPoint = some mock ∧ found = (some (mock.output, mock.data, mock.header), s) := by
  apply run_lookup
  · intro mock first
    rw [getDepCell, first]
  · intro missing
    rw [getDepCell, missing]
    rfl

theorem run_getHeader {blockHash : Byte32} {s : Unit} {found : Option HeaderView × Unit} :
    (getHeader mockTx blockHash (dummyResourceLoader packed).getHeader).run s = .ok found ↔
      ∃ header, firstHeader mockTx blockHash = some header ∧ found = (some header, s) := by
  apply run_lookup
  · intro header first
    rw [getHeader, first]
  · intro missing
    rw [getHeader, missing]
    rfl

theorem run_okOr {L α : Type} {found : Option α} {text : String} {s : L} {last : α × L} :
    (okOr found text : Loading L α).run s = .ok last ↔ ∃ value, found = some value ∧ last = (value, s) := by
  unfold okOr
  rcases found with _ | value
  · simp only [Table.run_throw_ok, reduceCtorEq, false_and, exists_false]
  · simp only [Table.run_pure_ok, Option.some.injEq, exists_eq_left']

theorem run_insertInput (map : OutPoint → Option CellMeta) (input : CellInput) (s : Unit)
    (last : (OutPoint → Option CellMeta) × Unit) :
    (insertInput packed mockTx (dummyResourceLoader packed) map input).run s = .ok last ↔
      (firstInput mockTx input).isSome ∧ last = (Table.fill map (inputEntries packed mockTx input), s) := by
  unfold insertInput inputEntries
  simp only [Table.run_bind_ok, run_getInputCell, run_okOr, Table.run_pure_ok]
  rcases firstInput mockTx input with _ | mock
  · simp
  · simp [Table.fill]

theorem run_insertMember (map : OutPoint → Option CellMeta) (member : OutPoint) (s : Unit)
    (last : (OutPoint → Option CellMeta) × Unit) :
    (insertMember packed mockTx (dummyResourceLoader packed) map member).run s = .ok last ↔
      (firstDep mockTx member).isSome ∧ last = (Table.fill map (depEntries packed mockTx member), s) := by
  unfold insertMember depEntries
  simp only [Table.run_bind_ok, run_getDepCell, run_okOr, Table.run_pure_ok]
  rcases firstDep mockTx member with _ | mock
  · simp
  · simp [Table.fill]

/-- The members that are read here are those of the out point. -/
theorem members_eq {outPoint : OutPoint} {mock : MockCellDep} {found : List OutPoint}
    (first : firstDep mockTx outPoint = some mock) (read : packed.outPointVecFromSlice mock.data = .ok found) :
    members packed mockTx outPoint = found := by
  simp [members, first, read, Except.toOption]

theorem run_insertGroup {map : OutPoint → Option CellMeta} {data : List UInt8} {s : Unit}
    {last : (OutPoint → Option CellMeta) × Unit} :
    (insertGroup packed mockTx (dummyResourceLoader packed) map data).run s = .ok last ↔
      ∃ members, packed.outPointVecFromSlice data = .ok members ∧
        (∀ member ∈ members, (firstDep mockTx member).isSome) ∧
          last = (Table.fill map (members.flatMap (depEntries packed mockTx)), s) := by
  unfold insertGroup
  rcases packed.outPointVecFromSlice data with err | members
  · simp only [Table.run_throw_ok, reduceCtorEq, false_and, exists_false]
  · simp only [Table.foldlM_ok_iff run_insertMember, Except.ok.injEq, exists_eq_left']

theorem run_insertDep (map : OutPoint → Option CellMeta) (cellDep : CellDep) (s : Unit)
    (last : (OutPoint → Option CellMeta) × Unit) :
    (insertDep packed mockTx (dummyResourceLoader packed) map cellDep).run s = .ok last ↔
      Found packed mockTx cellDep ∧ last = (Table.fill map (cellDepEntries packed mockTx cellDep), s) := by
  unfold insertDep cellDepEntries Found
  simp only [Table.run_bind_ok, run_getDepCell, run_okOr, Table.fill_append]
  rcases first : firstDep mockTx cellDep.outPoint with _ | mock
  · simp
  · have self (map : OutPoint → Option CellMeta) : Table.fill map (depEntries packed mockTx cellDep.outPoint) =
        Table.insert map cellDep.outPoint
          (cellMeta packed cellDep.outPoint (mock.output, mock.data, mock.header)) := by
      simp [depEntries, first, Table.fill]
    by_cases group : cellDep.depType = depGroup
    · simp only [if_pos group, Table.run_bind_ok, run_insertGroup, Table.run_pure_ok, self]
      constructor
      · rintro ⟨_, ⟨_, ⟨rfl⟩, rfl⟩, _, ⟨_, ⟨rfl⟩, rfl⟩, _, ⟨found, read, all, rfl⟩, rfl⟩
        exact ⟨⟨mock, rfl, fun _ => ⟨found, read, all⟩⟩, by rw [members_eq first read]⟩
      · rintro ⟨⟨_, ⟨rfl⟩, readable⟩, rfl⟩
        obtain ⟨found, read, all⟩ := readable group
        exact ⟨_, ⟨mock, rfl, rfl⟩, _, ⟨_, rfl, rfl⟩, _, ⟨found, read, all, rfl⟩, by rw [members_eq first read]⟩
    · simp only [if_neg group, Table.run_bind_ok, Table.run_pure_ok, self]
      constructor
      · rintro ⟨_, ⟨_, ⟨rfl⟩, rfl⟩, _, ⟨_, ⟨rfl⟩, rfl⟩, _, rfl, rfl⟩
        exact ⟨⟨mock, rfl, fun isGroup => absurd isGroup group⟩, rfl⟩
      · rintro ⟨-, rfl⟩
        exact ⟨_, ⟨mock, rfl, rfl⟩, _, ⟨_, rfl, rfl⟩, _, rfl, rfl⟩

theorem run_insertHeader (map : Byte32 → Option HeaderView) (blockHash : Byte32) (s : Unit)
    (last : (Byte32 → Option HeaderView) × Unit) :
    (insertHeader packed mockTx (dummyResourceLoader packed) map blockHash).run s = .ok last ↔
      (firstHeader mockTx blockHash).isSome ∧ last = (Table.fill map (headerEntries mockTx blockHash), s) := by
  unfold insertHeader headerEntries
  simp only [Table.run_bind_ok, run_getHeader, run_okOr, Table.run_pure_ok]
  rcases firstHeader mockTx blockHash with _ | header
  · simp
  · simp [Table.fill]

/-- The resource of a mock transaction: it exists if all lookups succeed, and the maps hold what the
loops insert. -/
theorem fromMockTx_ok_iff {resource : Resource} :
    fromMockTx packed mockTx = .ok resource ↔
      ((∀ input ∈ mockTx.tx.inputs, (firstInput mockTx input).isSome) ∧
        (∀ cellDep ∈ mockTx.tx.cellDeps, Found packed mockTx cellDep) ∧
        ∀ blockHash ∈ mockTx.tx.headerDeps, (firstHeader mockTx blockHash).isSome) ∧
      resource = {
        requiredCells := Table.fill (Table.fill (fun _ => none)
          (mockTx.tx.inputs.flatMap (inputEntries packed mockTx)))
          (mockTx.tx.cellDeps.flatMap (cellDepEntries packed mockTx))
        requiredHeaders := Table.fill (fun _ => none) (mockTx.tx.headerDeps.flatMap (headerEntries mockTx))
        blockExtensions := Table.fill (fun _ => none) mockTx.mockInfo.extensions } := by
  have started : fromMockTx packed mockTx = .ok resource ↔
      (fromLoaderAndBlockExtensions packed mockTx (dummyResourceLoader packed) fun _ => none).run () =
        .ok (resource, ()) := by
    unfold fromMockTx fromBoth StateT.run'
    simp only [StateT.run]
    rcases fromLoaderAndBlockExtensions packed mockTx (dummyResourceLoader packed) (fun _ => none) () with e | ⟨r, ⟨⟩⟩
    · simp [Functor.map, Except.map]
    · simp [Functor.map, Except.map]
  rw [started]
  unfold fromLoaderAndBlockExtensions
  simp only [Table.run_bind_ok, Table.foldlM_ok_iff run_insertInput, Table.foldlM_ok_iff run_insertDep,
    Table.foldlM_ok_iff run_insertHeader, Table.run_pure_ok]
  constructor
  · rintro ⟨_, ⟨inputs, rfl⟩, _, ⟨cellDeps, rfl⟩, _, ⟨headerDeps, rfl⟩, same⟩
    exact ⟨⟨inputs, cellDeps, headerDeps⟩, congrArg Prod.fst same⟩
  · rintro ⟨⟨inputs, cellDeps, headerDeps⟩, rfl⟩
    exact ⟨_, ⟨inputs, rfl⟩, _, ⟨cellDeps, rfl⟩, _, ⟨headerDeps, rfl⟩, rfl⟩

/-! ### Resolution -/

theorem isSome_firstInput {input : CellInput} :
    (firstInput mockTx input).isSome ↔ ∃ mock ∈ mockTx.mockInfo.inputs, mock.input = input := by
  simp only [firstInput, List.find?_isSome, decide_eq_true_eq]
  exact exists_congr fun mock => and_congr_right fun _ => eq_comm

theorem isSome_firstDep {outPoint : OutPoint} :
    (firstDep mockTx outPoint).isSome ↔ ∃ mock ∈ mockTx.mockInfo.cellDeps, mock.cellDep.outPoint = outPoint := by
  simp only [firstDep, List.find?_isSome, decide_eq_true_eq]
  exact exists_congr fun mock => and_congr_right fun _ => eq_comm

theorem isSome_firstHeader {blockHash : Byte32} :
    (firstHeader mockTx blockHash).isSome ↔ ∃ header ∈ mockTx.mockInfo.headerDeps, header.hash = blockHash := by
  simp only [firstHeader, List.find?_isSome, decide_eq_true_eq]
  exact exists_congr fun mock => and_congr_right fun _ => eq_comm

variable (packed mockTx) in
/-- Everything that the transaction uses is in the mock information. -/
structure Resolvable : Prop where
  inputs : ∀ input ∈ mockTx.tx.inputs, ∃ mock ∈ mockTx.mockInfo.inputs, mock.input = input
  cellDeps : ∀ cellDep ∈ mockTx.tx.cellDeps,
    ∃ mock ∈ mockTx.mockInfo.cellDeps, mock.cellDep.outPoint = cellDep.outPoint
  groups : ∀ cellDep ∈ mockTx.tx.cellDeps, cellDep.depType = depGroup →
    ∀ mock, firstDep mockTx cellDep.outPoint = some mock →
      ∃ members, packed.outPointVecFromSlice mock.data = .ok members ∧
        ∀ member ∈ members, ∃ other ∈ mockTx.mockInfo.cellDeps, other.cellDep.outPoint = member
  headerDeps : ∀ blockHash ∈ mockTx.tx.headerDeps,
    ∃ header ∈ mockTx.mockInfo.headerDeps, header.hash = blockHash

theorem resolvable_iff :
    Resolvable packed mockTx ↔
      (∀ input ∈ mockTx.tx.inputs, (firstInput mockTx input).isSome) ∧
        (∀ cellDep ∈ mockTx.tx.cellDeps, Found packed mockTx cellDep) ∧
        ∀ blockHash ∈ mockTx.tx.headerDeps, (firstHeader mockTx blockHash).isSome := by
  simp only [Found, isSome_firstInput, isSome_firstDep, isSome_firstHeader]
  constructor
  · rintro ⟨inputs, cellDeps, groups, headerDeps⟩
    refine ⟨inputs, fun cellDep mem => ?_, headerDeps⟩
    obtain ⟨mock, first⟩ := Option.isSome_iff_exists.mp (isSome_firstDep.mpr (cellDeps cellDep mem))
    exact ⟨mock, first, fun group => groups cellDep mem group mock first⟩
  · rintro ⟨inputs, found, headerDeps⟩
    refine ⟨inputs, fun cellDep mem => ?_, fun cellDep mem group mock first => ?_, headerDeps⟩
    · obtain ⟨mock, first, -⟩ := found cellDep mem
      exact isSome_firstDep.mp (Option.isSome_iff_exists.mpr ⟨mock, first⟩)
    · obtain ⟨same, firstSame, readable⟩ := found cellDep mem
      obtain rfl : same = mock := Option.some.inj (firstSame.symm.trans first)
      exact readable group

theorem exists_fromMockTx_iff :
    (∃ resource, fromMockTx packed mockTx = .ok resource) ↔ Resolvable packed mockTx := by
  rw [resolvable_iff]
  constructor
  · rintro ⟨resource, ok⟩
    exact (fromMockTx_ok_iff.mp ok).1
  · intro resolved
    exact ⟨_, fromMockTx_ok_iff.mpr ⟨resolved, rfl⟩⟩

variable (packed mockTx) in
/-- A member of one of the dep groups of the transaction. -/
def GroupMember (outPoint : OutPoint) : Prop :=
  ∃ cellDep ∈ mockTx.tx.cellDeps, cellDep.depType = depGroup ∧
    ∃ mock, firstDep mockTx cellDep.outPoint = some mock ∧
      ∃ members, packed.outPointVecFromSlice mock.data = .ok members ∧ outPoint ∈ members

variable (packed mockTx) in
/-- A cell dep of the transaction, or a member of a dep group. -/
def DepKey (outPoint : OutPoint) : Prop :=
  (∃ cellDep ∈ mockTx.tx.cellDeps, cellDep.outPoint = outPoint) ∨ GroupMember packed mockTx outPoint

variable (packed mockTx) in
/-- The maps have the keys that the transaction uses. A dep has the cell of the first mock cell dep
there, another key that of the first mock input for the last input that uses it. -/
structure Exact (resource : Resource) : Prop where
  cellKeys : ∀ outPoint, (resource.requiredCells outPoint).isSome ↔
    (∃ input ∈ mockTx.tx.inputs, input.previousOutput = outPoint) ∨ DepKey packed mockTx outPoint
  depCells : ∀ outPoint, DepKey packed mockTx outPoint →
    ∃ mock, firstDep mockTx outPoint = some mock ∧
      resource.requiredCells outPoint = some (cellMeta packed outPoint (mock.output, mock.data, mock.header))
  inputCells : ∀ outPoint, ¬ DepKey packed mockTx outPoint →
    ∀ input, mockTx.tx.inputs.findRev? (fun input => input.previousOutput = outPoint) = some input →
      ∃ mock, firstInput mockTx input = some mock ∧
        resource.requiredCells outPoint = some (cellMeta packed outPoint (mock.output, mock.data, mock.header))
  headerKeys : ∀ blockHash, (resource.requiredHeaders blockHash).isSome ↔ blockHash ∈ mockTx.tx.headerDeps
  headers : ∀ blockHash ∈ mockTx.tx.headerDeps,
    ∃ header, firstHeader mockTx blockHash = some header ∧ resource.requiredHeaders blockHash = some header

/-! The entries of the loops. -/

theorem mem_depEntries {outPoint : OutPoint} {entry : OutPoint × CellMeta} :
    entry ∈ depEntries packed mockTx outPoint ↔ ∃ mock, firstDep mockTx outPoint = some mock ∧
      entry = (outPoint, cellMeta packed outPoint (mock.output, mock.data, mock.header)) := by
  simp only [depEntries, List.mem_map, Option.mem_toList]
  exact exists_congr fun mock => and_congr_right fun _ => eq_comm

/-- Every entry of a cell dep or a member is that of the first mock cell dep at its key. -/
theorem mem_cellDepEntries {cellDep : CellDep} {entry : OutPoint × CellMeta}
    (mem : entry ∈ cellDepEntries packed mockTx cellDep) :
    entry ∈ depEntries packed mockTx entry.1 := by
  have own {outPoint : OutPoint} (mem : entry ∈ depEntries packed mockTx outPoint) :
      entry ∈ depEntries packed mockTx entry.1 := by
    obtain ⟨mock, -, rfl⟩ := mem_depEntries.mp mem
    exact mem
  rcases List.mem_append.mp mem with members | self
  · split at members
    · obtain ⟨member, -, mem⟩ := List.mem_flatMap.mp members
      exact own mem
    · simp at members
  · exact own self

/-- The keys of the cell deps, if they are all found. -/
theorem exists_mem_cellDepEntries (found : ∀ cellDep ∈ mockTx.tx.cellDeps, Found packed mockTx cellDep)
    {outPoint : OutPoint} :
    (∃ entry ∈ mockTx.tx.cellDeps.flatMap (cellDepEntries packed mockTx), entry.1 = outPoint) ↔
      DepKey packed mockTx outPoint := by
  constructor
  · rintro ⟨entry, mem, rfl⟩
    obtain ⟨cellDep, depMem, mem⟩ := List.mem_flatMap.mp mem
    rcases List.mem_append.mp mem with inGroup | self
    · split at inGroup
      next group =>
        obtain ⟨member, memberMem, mem⟩ := List.mem_flatMap.mp inGroup
        obtain ⟨-, -, rfl⟩ := mem_depEntries.mp mem
        obtain ⟨mock, first, readable⟩ := found cellDep depMem
        obtain ⟨all, read, -⟩ := readable group
        rw [members_eq first read] at memberMem
        exact .inr ⟨cellDep, depMem, group, mock, first, all, read, memberMem⟩
      next => simp at inGroup
    · obtain ⟨-, -, rfl⟩ := mem_depEntries.mp self
      exact .inl ⟨cellDep, depMem, rfl⟩
  · rintro (⟨cellDep, depMem, rfl⟩ | ⟨cellDep, depMem, group, mock, first, all, read, memberMem⟩)
    · obtain ⟨mock, first, -⟩ := found cellDep depMem
      exact ⟨_, List.mem_flatMap.mpr ⟨cellDep, depMem,
        List.mem_append_right _ (mem_depEntries.mpr ⟨mock, first, rfl⟩)⟩, rfl⟩
    · obtain ⟨same, firstSame, readable⟩ := found cellDep depMem
      obtain rfl : same = mock := Option.some.inj (firstSame.symm.trans first)
      obtain ⟨again, readAgain, present⟩ := readable group
      obtain rfl : again = all := Except.ok.inj (readAgain.symm.trans read)
      obtain ⟨other, firstOther⟩ := Option.isSome_iff_exists.mp (present outPoint memberMem)
      refine ⟨(outPoint, cellMeta packed outPoint (other.output, other.data, other.header)),
        List.mem_flatMap.mpr ⟨cellDep, depMem, List.mem_append_left _ ?_⟩, rfl⟩
      rw [if_pos group, members_eq first read]
      exact List.mem_flatMap.mpr ⟨outPoint, memberMem, mem_depEntries.mpr ⟨other, firstOther, rfl⟩⟩

theorem fill_cellDepEntries (found : ∀ cellDep ∈ mockTx.tx.cellDeps, Found packed mockTx cellDep)
    (map : OutPoint → Option CellMeta) {outPoint : OutPoint} (key : DepKey packed mockTx outPoint) :
    ∃ mock, firstDep mockTx outPoint = some mock ∧
      Table.fill map (mockTx.tx.cellDeps.flatMap (cellDepEntries packed mockTx)) outPoint =
        some (cellMeta packed outPoint (mock.output, mock.data, mock.header)) := by
  have firstOf {entry : OutPoint × CellMeta}
      (mem : entry ∈ mockTx.tx.cellDeps.flatMap (cellDepEntries packed mockTx)) :
      entry ∈ depEntries packed mockTx entry.1 := by
    obtain ⟨cellDep, -, mem⟩ := List.mem_flatMap.mp mem
    exact mem_cellDepEntries mem
  have present := (exists_mem_cellDepEntries found).mpr key
  obtain ⟨entry, mem, rfl⟩ := present
  obtain ⟨mock, first, -⟩ := mem_depEntries.mp (firstOf mem)
  refine ⟨mock, first, Table.fill_of_forall_eq ⟨entry, mem, rfl⟩ fun other otherMem same => ?_⟩
  -- two entries for one key are of the same mock cell dep
  obtain ⟨_, firstSame, value⟩ := mem_depEntries.mp (same ▸ firstOf otherMem)
  rw [Option.some.inj (first.symm.trans firstSame)]
  exact congrArg Prod.snd value

/-- What is no dep stays as it is. -/
theorem fill_cellDepEntries_of_not (found : ∀ cellDep ∈ mockTx.tx.cellDeps, Found packed mockTx cellDep)
    (map : OutPoint → Option CellMeta) {outPoint : OutPoint} (other : ¬ DepKey packed mockTx outPoint) :
    Table.fill map (mockTx.tx.cellDeps.flatMap (cellDepEntries packed mockTx)) outPoint = map outPoint :=
  Table.fill_of_forall_ne fun entry mem same =>
    other ((exists_mem_cellDepEntries found).mp ⟨entry, mem, same⟩)

theorem keys_inputEntries (input : CellInput) :
    ∀ entry ∈ inputEntries packed mockTx input, entry.1 = input.previousOutput := by
  intro entry mem
  obtain ⟨mock, -, rfl⟩ := List.mem_map.mp mem
  rfl

theorem keys_headerEntries (blockHash : Byte32) :
    ∀ entry ∈ headerEntries mockTx blockHash, entry.1 = blockHash := by
  intro entry mem
  obtain ⟨header, -, rfl⟩ := List.mem_map.mp mem
  rfl

variable (packed) in
theorem fill_inputEntries (inputs : ∀ input ∈ mockTx.tx.inputs, (firstInput mockTx input).isSome)
    (map : OutPoint → Option CellMeta) {outPoint : OutPoint} {input : CellInput}
    (last : mockTx.tx.inputs.findRev? (fun input => input.previousOutput = outPoint) = some input) :
    ∃ mock, firstInput mockTx input = some mock ∧
      Table.fill map (mockTx.tx.inputs.flatMap (inputEntries packed mockTx)) outPoint =
        some (cellMeta packed outPoint (mock.output, mock.data, mock.header)) := by
  have found := last
  rw [List.findRev?_eq_find?_reverse] at found
  have key : input.previousOutput = outPoint := by simpa using List.find?_some found
  obtain ⟨mock, first⟩ := Option.isSome_iff_exists.mp
    (inputs input (List.mem_reverse.mp (List.mem_of_find?_eq_some found)))
  refine ⟨mock, first, Table.fill_flatMap_last keys_inputEntries last ?_⟩
  simp [inputEntries, first, key]

theorem fill_headerEntries (headers : ∀ blockHash ∈ mockTx.tx.headerDeps, (firstHeader mockTx blockHash).isSome)
    (map : Byte32 → Option HeaderView) {blockHash : Byte32} (mem : blockHash ∈ mockTx.tx.headerDeps) :
    ∃ header, firstHeader mockTx blockHash = some header ∧
      Table.fill map (mockTx.tx.headerDeps.flatMap (headerEntries mockTx)) blockHash = some header := by
  obtain ⟨header, first⟩ := Option.isSome_iff_exists.mp (headers blockHash mem)
  have present : ∃ hash ∈ mockTx.tx.headerDeps, decide (hash = blockHash) = true :=
    ⟨blockHash, mem, decide_eq_true rfl⟩
  obtain ⟨last, found, -, same⟩ := Table.exists_findRev? present
  refine ⟨header, first, Table.fill_flatMap_last keys_headerEntries found ?_⟩
  obtain rfl : last = blockHash := of_decide_eq_true same
  simp [headerEntries, first]

/-- The maps that the loops fill are exact. -/
theorem exact_of_found (inputs : ∀ input ∈ mockTx.tx.inputs, (firstInput mockTx input).isSome)
    (found : ∀ cellDep ∈ mockTx.tx.cellDeps, Found packed mockTx cellDep)
    (headers : ∀ blockHash ∈ mockTx.tx.headerDeps, (firstHeader mockTx blockHash).isSome)
    (blockExtensions : Byte32 → Option (List UInt8)) :
    Exact packed mockTx {
      requiredCells := Table.fill (Table.fill (fun _ => none)
        (mockTx.tx.inputs.flatMap (inputEntries packed mockTx)))
        (mockTx.tx.cellDeps.flatMap (cellDepEntries packed mockTx))
      requiredHeaders := Table.fill (fun _ => none) (mockTx.tx.headerDeps.flatMap (headerEntries mockTx))
      blockExtensions := blockExtensions } where
  cellKeys := by
    intro outPoint
    by_cases key : DepKey packed mockTx outPoint
    · obtain ⟨mock, -, cell⟩ := fill_cellDepEntries found
        (Table.fill (fun _ => none) (mockTx.tx.inputs.flatMap (inputEntries packed mockTx))) key
      simp [cell, key]
    -- the cell deps are inserted after the inputs, so only other keys show the inputs
    · simp only [fill_cellDepEntries_of_not found _ key, key, or_false]
      constructor
      · exact Table.exists_of_isSome_fill keys_inputEntries
      · rintro ⟨input, mem, same⟩
        have present : ∃ input ∈ mockTx.tx.inputs, decide (input.previousOutput = outPoint) = true :=
          ⟨input, mem, decide_eq_true same⟩
        obtain ⟨last, isLast, -⟩ := Table.exists_findRev? present
        obtain ⟨mock, -, cell⟩ := fill_inputEntries packed inputs (fun _ => none) isLast
        simp [cell]
  depCells := fun outPoint key => fill_cellDepEntries found _ key
  inputCells := by
    intro outPoint other input last
    simp only [fill_cellDepEntries_of_not found _ other]
    exact fill_inputEntries packed inputs _ last
  headerKeys := by
    intro blockHash
    constructor
    · intro filled
      obtain ⟨hash, mem, rfl⟩ := Table.exists_of_isSome_fill keys_headerEntries filled
      exact mem
    · intro mem
      obtain ⟨header, -, found⟩ := fill_headerEntries headers (fun _ => none) mem
      simp [found]
  headers := fun blockHash mem => fill_headerEntries headers _ mem

/-- `Resource::from_mock_tx` succeeds if and only if everything is in the mock information, and then
the maps are exact. -/
theorem fromMockTx_exact (packed : Packed) (mockTx : MockTransaction) :
    ((∃ resource, fromMockTx packed mockTx = .ok resource) ↔ Resolvable packed mockTx) ∧
      ∀ resource, fromMockTx packed mockTx = .ok resource → Exact packed mockTx resource := by
  refine ⟨exists_fromMockTx_iff, fun resource ok => ?_⟩
  obtain ⟨⟨inputs, found, headers⟩, rfl⟩ := fromMockTx_ok_iff.mp ok
  exact exact_of_found inputs found headers _

end Entries

end MockTx
