import Mathlib.Data.List.Sort
import CkbDebugger.DebuggerApi.Json

/-!
# What the check decides

The check sorts two lists of cell deps by their texts and compares them pair by pair. When
different cell deps have different texts this decides whether the lists are equal up to their
order.
-/
namespace DebuggerApi

open MockTx (OutPoint MockInput Packed)

/-! ### Lists sorted by a text -/

section Sorting

variable {α : Type} {text : α → String}

/-- Lists sorted by a text that tells items apart are equal exactly if they have the same items. -/
theorem mergeSort_eq_iff_perm (injective : Function.Injective text) (xs ys : List α) :
    xs.mergeSort (fun a b => decide (text a ≤ text b)) = ys.mergeSort (fun a b => decide (text a ≤ text b)) ↔
      xs.Perm ys := by
  have sorted : ∀ zs : List α, (zs.mergeSort fun a b => decide (text a ≤ text b)).Pairwise
      fun a b => decide (text a ≤ text b) = true :=
    List.pairwise_mergeSort (fun a b c ab bc => by
        simp only [decide_eq_true_eq] at *
        exact String.le_trans ab bc)
      (fun a b => by simpa using String.le_total (text a) (text b))
  constructor
  · intro same
    exact (List.mergeSort_perm xs _).symm.trans (same ▸ List.mergeSort_perm ys _)
  · intro perm
    refine List.Perm.eq_of_pairwise ?_ (sorted xs) (sorted ys)
      ((List.mergeSort_perm xs _).trans (perm.trans (List.mergeSort_perm ys _).symm))
    intro a b _ _ ab ba
    simp only [decide_eq_true_eq] at ab ba
    exact injective (String.le_antisymm ab ba)

end Sorting

/-! ### The criterion -/

/-- A mock dep group has the out points of at least one member as its data. -/
def GroupParses (packed : Packed) (dep : ReprMockCellDep) : Prop :=
  dep.cellDep.depType = .depGroup → ∃ members, members ≠ [] ∧ packed.outPointVecFromSlice dep.data = .ok members

/-- What the check asks for. -/
structure Criterion (packed : Packed) (tx : ReprMockTransaction) : Prop where
  groups : ∀ dep ∈ tx.mockInfo.cellDeps, GroupParses packed dep
  cellDeps : (tx.mockInfo.cellDeps.map ReprMockCellDep.cellDep).Perm
    (tx.tx.cellDeps ++ tx.mockInfo.cellDeps.flatMap (groupDeps packed))
  inputs : tx.mockInfo.inputs.map MockInput.input = tx.tx.inputs
  headerDeps : tx.mockInfo.headerDeps.length = tx.tx.headerDeps.length

/-- The transaction with its two lists of cell deps replaced. -/
def ReprMockTransaction.withCellDeps (tx : ReprMockTransaction) (mocks : List ReprMockCellDep)
    (cellDeps : List CellDep) : ReprMockTransaction where
  mockInfo := { tx.mockInfo with cellDeps := mocks }
  tx := { tx.tx with cellDeps := cellDeps }

/-! ### The parts of the check -/

theorem Printer.mergeSort_eq_iff {printer : Printer} (injective : Function.Injective printer.toJson)
    {xs ys : List CellDep} : xs.mergeSort printer.le = ys.mergeSort printer.le ↔ xs.Perm ys :=
  mergeSort_eq_iff_perm injective xs ys

theorem compareCellDeps_ok_iff {printer : Printer} {mockCellDeps cellDeps : List CellDep} :
    compareCellDeps printer mockCellDeps cellDeps = .ok () ↔ mockCellDeps = cellDeps := by
  constructor
  · exact eq_of_compareCellDeps
  · rintro rfl
    exact compareCellDeps_self printer mockCellDeps

theorem compareInputs_ok_iff {mockInputs : List MockInput} {inputs : List MockTx.CellInput} :
    compareInputs mockInputs inputs = .ok () ↔ mockInputs.map MockInput.input = inputs := by
  constructor
  · exact eq_of_compareInputs
  · rintro rfl
    have equal : (mockInputs.zip (mockInputs.map MockInput.input)).zipIdx.find?
        (fun entry => entry.1.1.input ≠ entry.1.2) = none := by
      rw [List.find?_eq_none]
      intro entry member
      have pair : entry.1 ∈ mockInputs.zip (mockInputs.map MockInput.input) :=
        List.mem_of_getElem? (List.mem_zipIdx_iff_getElem?.mp member)
      -- both sides of a pair come from one mock input
      rw [List.zip, List.zipWith_map_right, List.zipWith_self, List.mem_map] at pair
      obtain ⟨mock, _, same⟩ := pair
      simp [← same]
    rw [compareInputs, if_neg (by simp), equal]

theorem compareHeaderDeps_ok_iff {mockHeaderDeps : List MockTx.HeaderView} {headerDeps : List MockTx.Byte32} :
    compareHeaderDeps mockHeaderDeps headerDeps = .ok () ↔ mockHeaderDeps.length = headerDeps.length := by
  unfold compareHeaderDeps
  by_cases same : mockHeaderDeps.length = headerDeps.length <;> simp [same]

section Groups

variable {packed : Packed} (rejectsEmpty : ∀ members, packed.outPointVecFromSlice [] ≠ .ok members)
include rejectsEmpty

theorem parseDepGroupData_ok_iff {slice : List UInt8} {members : List OutPoint} :
    parseDepGroupData packed slice = .ok members ↔
      members ≠ [] ∧ packed.outPointVecFromSlice slice = .ok members := by
  unfold parseDepGroupData
  -- the empty slice is an error of its own, before the vector is read
  by_cases empty : slice.isEmpty
  · rw [if_pos empty, List.isEmpty_iff.mp empty]
    exact iff_of_false (by simp) fun both => rejectsEmpty members both.2
  · rw [if_neg empty]
    rcases packed.outPointVecFromSlice slice with err | read
    · simp
    · by_cases none : read.isEmpty
      · rw [List.isEmpty_iff] at none
        simp only [none, List.isEmpty_nil, if_true]
        refine iff_of_false (by simp) ?_
        rintro ⟨some, same⟩
        exact some (Except.ok.inj same).symm
      · simp only [if_neg none, Except.ok.injEq]
        refine ⟨fun same => ⟨?_, same⟩, And.right⟩
        rintro rfl
        exact none (by simp [same])

theorem extendDeps_ok_iff {cellDeps last : List CellDep} {dep : ReprMockCellDep} :
    extendDeps packed cellDeps dep = .ok last ↔ GroupParses packed dep ∧ last = cellDeps ++ groupDeps packed dep := by
  constructor
  · intro ok
    refine ⟨fun group => ?_, (extendDeps_ok ok).2⟩
    unfold extendDeps at ok
    rw [if_pos group] at ok
    rcases parsed : parseDepGroupData packed dep.data with err | members
    · simp [parsed] at ok
    · exact ⟨members, (parseDepGroupData_ok_iff rejectsEmpty).mp parsed⟩
  · rintro ⟨parses, rfl⟩
    unfold extendDeps
    by_cases group : dep.cellDep.depType = .depGroup
    · obtain ⟨members, some, read⟩ := parses group
      rw [if_pos group, (parseDepGroupData_ok_iff rejectsEmpty).mpr ⟨some, read⟩]
      simp [groupDeps, group, read, Except.toOption]
    · simp [groupDeps, group]

theorem foldlM_extendDeps_ok_iff {deps : List ReprMockCellDep} {cellDeps last : List CellDep} :
    deps.foldlM (extendDeps packed) cellDeps = .ok last ↔
      (∀ dep ∈ deps, GroupParses packed dep) ∧ last = cellDeps ++ deps.flatMap (groupDeps packed) := by
  induction deps generalizing cellDeps with
  | nil =>
    rw [List.foldlM_nil]
    simp [pure, Except.pure, eq_comm]
  | cons dep deps ih =>
    rw [List.foldlM_cons, bind_ok, List.forall_mem_cons, List.flatMap_cons, ← List.append_assoc]
    simp only [extendDeps_ok_iff rejectsEmpty, ih]
    constructor
    · rintro ⟨_, ⟨parses, rfl⟩, rest, rfl⟩
      exact ⟨⟨parses, rest⟩, rfl⟩
    · rintro ⟨⟨parses, rest⟩, rfl⟩
      exact ⟨_, ⟨parses, rfl⟩, rest, rfl⟩

/-! ### The check as a whole -/

theorem check_ok_iff {printer : Printer} (injective : Function.Injective printer.toJson) {tx : ReprMockTransaction} :
    check printer packed tx = .ok () ↔ Criterion packed tx := by
  simp only [check, bind_ok, foldlM_extendDeps_ok_iff rejectsEmpty]
  constructor
  · rintro ⟨_, ⟨groups, rfl⟩, ⟨⟩, sorted, ⟨⟩, inputs, headerDeps⟩
    exact {
      groups := groups
      cellDeps := (Printer.mergeSort_eq_iff injective).mp (compareCellDeps_ok_iff.mp sorted)
      inputs := compareInputs_ok_iff.mp inputs
      headerDeps := compareHeaderDeps_ok_iff.mp headerDeps }
  · intro criterion
    have sorted := (Printer.mergeSort_eq_iff injective).mpr criterion.cellDeps
    exact ⟨_, ⟨criterion.groups, rfl⟩, (), compareCellDeps_ok_iff.mpr sorted, (),
      compareInputs_ok_iff.mpr criterion.inputs, compareHeaderDeps_ok_iff.mpr criterion.headerDeps⟩

/-- When all mock dep groups parse, the check goes on to compare. -/
theorem check_eq_of_parses {printer : Printer} {tx : ReprMockTransaction}
    (parses : ∀ dep ∈ tx.mockInfo.cellDeps, GroupParses packed dep) :
    check printer packed tx = (do
      compareCellDeps printer ((tx.mockInfo.cellDeps.map ReprMockCellDep.cellDep).mergeSort printer.le)
        ((tx.tx.cellDeps ++ tx.mockInfo.cellDeps.flatMap (groupDeps packed)).mergeSort printer.le)
      compareInputs tx.mockInfo.inputs tx.tx.inputs
      compareHeaderDeps tx.mockInfo.headerDeps tx.tx.headerDeps) := by
  have extended : tx.mockInfo.cellDeps.foldlM (extendDeps packed) tx.tx.cellDeps =
      .ok (tx.tx.cellDeps ++ tx.mockInfo.cellDeps.flatMap (groupDeps packed)) :=
    (foldlM_extendDeps_ok_iff rejectsEmpty).mpr ⟨parses, rfl⟩
  rw [check, extended]
  rfl

end Groups

/-! ### The order of the cell deps -/

section Order

variable {packed : Packed} {tx : ReprMockTransaction} {mocks : List ReprMockCellDep} {cellDeps : List CellDep}
  (sameMocks : mocks.Perm tx.mockInfo.cellDeps) (sameDeps : cellDeps.Perm tx.tx.cellDeps)
include sameMocks sameDeps

theorem withCellDeps_expected_perm (packed : Packed) :
    (cellDeps ++ mocks.flatMap (groupDeps packed)).Perm
      (tx.tx.cellDeps ++ tx.mockInfo.cellDeps.flatMap (groupDeps packed)) :=
  sameDeps.append (sameMocks.flatMap_right _)

theorem withCellDeps_criterion_iff : Criterion packed (tx.withCellDeps mocks cellDeps) ↔ Criterion packed tx := by
  have mockDeps := sameMocks.map ReprMockCellDep.cellDep
  have expected := withCellDeps_expected_perm sameMocks sameDeps packed
  constructor
  · intro criterion
    exact {
      groups := fun dep mem => criterion.groups dep (sameMocks.mem_iff.mpr mem)
      cellDeps := mockDeps.symm.trans (criterion.cellDeps.trans expected)
      inputs := criterion.inputs
      headerDeps := criterion.headerDeps }
  · intro criterion
    exact {
      groups := fun dep mem => criterion.groups dep (sameMocks.mem_iff.mp mem)
      cellDeps := mockDeps.trans (criterion.cellDeps.trans expected.symm)
      inputs := criterion.inputs
      headerDeps := criterion.headerDeps }

theorem check_withCellDeps (rejectsEmpty : ∀ members, packed.outPointVecFromSlice [] ≠ .ok members)
    {printer : Printer} (injective : Function.Injective printer.toJson)
    (parses : ∀ dep ∈ tx.mockInfo.cellDeps, GroupParses packed dep) :
    check printer packed (tx.withCellDeps mocks cellDeps) = check printer packed tx := by
  have mockDeps := (Printer.mergeSort_eq_iff injective).mpr (sameMocks.map ReprMockCellDep.cellDep)
  have expected := (Printer.mergeSort_eq_iff injective).mpr (withCellDeps_expected_perm sameMocks sameDeps packed)
  have parsesAlso : ∀ dep ∈ (tx.withCellDeps mocks cellDeps).mockInfo.cellDeps, GroupParses packed dep :=
    fun dep mem => parses dep (sameMocks.mem_iff.mp mem)
  rw [check_eq_of_parses rejectsEmpty parses, check_eq_of_parses rejectsEmpty parsesAlso]
  simp only [ReprMockTransaction.withCellDeps, mockDeps, expected]

end Order

/-- The check accepts a transaction exactly if it meets the criterion. The order of the cell deps
never decides whether it does, and it decides which error is returned only where the data of a dep
group does not parse. -/
theorem check_decides (printer : Printer) (packed : Packed) (injective : Function.Injective printer.toJson)
    (rejectsEmpty : ∀ members, packed.outPointVecFromSlice [] ≠ .ok members) (tx : ReprMockTransaction) :
    (check printer packed tx = .ok () ↔ Criterion packed tx) ∧
      ∀ mocks cellDeps, mocks.Perm tx.mockInfo.cellDeps → cellDeps.Perm tx.tx.cellDeps →
        (check printer packed (tx.withCellDeps mocks cellDeps) = .ok () ↔ check printer packed tx = .ok ()) ∧
        ((∀ dep ∈ tx.mockInfo.cellDeps, GroupParses packed dep) →
          check printer packed (tx.withCellDeps mocks cellDeps) = check printer packed tx) := by
  refine ⟨check_ok_iff rejectsEmpty injective, fun mocks cellDeps sameMocks sameDeps => ⟨?_, ?_⟩⟩
  · rw [check_ok_iff rejectsEmpty injective, check_ok_iff rejectsEmpty injective]
    exact withCellDeps_criterion_iff sameMocks sameDeps
  · exact check_withCellDeps sameMocks sameDeps rejectsEmpty injective

theorem molecule_rejectsEmpty (members : List OutPoint) : molecule.outPointVecFromSlice [] ≠ .ok members := by
  simp [molecule, outPointVec]

theorem grouped_criterion : Criterion molecule grouped where
  groups := by
    intro dep mem group
    rcases List.mem_cons.mp mem with rfl | rest
    · exact ⟨[⟨2, 0⟩], by decide, rfl⟩
    · obtain rfl := List.mem_singleton.mp rest
      cases group
  cellDeps := by decide
  inputs := rfl
  headerDeps := rfl

/-- The dep group is accepted before and after its member. -/
theorem grouped_decided : check jsonPrinter molecule grouped = .ok () ∧
    check jsonPrinter molecule (grouped.withCellDeps grouped.mockInfo.cellDeps.reverse grouped.tx.cellDeps) =
      .ok () := by
  have decided := check_decides jsonPrinter molecule jsonPrinter_injective molecule_rejectsEmpty grouped
  have accepted := decided.1.mpr grouped_criterion
  exact ⟨accepted, (decided.2 _ _ (List.reverse_perm _) (List.Perm.refl _)).1.mpr accepted⟩

/-- Two dep groups, one without data and one without members. -/
def twoEmptyGroups : ReprMockTransaction where
  mockInfo := {
    inputs := []
    cellDeps := [
      { cellDep := ⟨⟨1, 0⟩, .depGroup⟩, output := output, data := [], header := none },
      { cellDep := ⟨⟨2, 0⟩, .depGroup⟩, output := output, data := [0, 0, 0, 0], header := none }]
    headerDeps := []
    extensions := [] }
  tx := { inputs := [], cellDeps := [⟨⟨1, 0⟩, .depGroup⟩, ⟨⟨2, 0⟩, .depGroup⟩], headerDeps := [] }

/-- The first of them in the order of the mock cell deps decides which error is returned. -/
theorem twoEmptyGroups_order : Function.Injective jsonPrinter.toJson ∧
    check jsonPrinter molecule twoEmptyGroups = .error "data is empty" ∧
    check jsonPrinter molecule
      (twoEmptyGroups.withCellDeps twoEmptyGroups.mockInfo.cellDeps.reverse twoEmptyGroups.tx.cellDeps) =
        .error "dep group is empty" :=
  ⟨jsonPrinter_injective, rfl, rfl⟩

end DebuggerApi
