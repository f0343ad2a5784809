import CkbDebugger.DebuggerApi.Check
import CkbDebugger.Text.Split

/-!
# The JSON text of a cell dep

The check sorts cell deps by their JSON texts. Such a text has the hash of the out point in two digits a
byte, the index in as few digits as it needs, and the name of the type, so different cell deps have
different texts.
-/
namespace DebuggerApi

/-! ### Hexadecimal digits -/

theorem digitChar_inj : ∀ a < 16, ∀ b < 16, Nat.digitChar a = Nat.digitChar b → a = b := by decide

theorem toDigits_hex_injective : Function.Injective (Nat.toDigits 16) := by
  intro m n same
  induction m using Nat.strongRecOn generalizing n with
  | ind m ih =>
    have oneDigit : m < 16 ↔ n < 16 := by
      have count (k : Nat) := Nat.length_toDigits_le_iff (b := 16) (n := k) (k := 1) (by decide) (by decide)
      rw [← pow_one 16, ← count m, ← count n, same]
    rw [Nat.toDigits_eq_if (by decide), Nat.toDigits_eq_if (n := n) (by decide)] at same
    by_cases small : m < 16
    · rw [if_pos small, if_pos (oneDigit.mp small)] at same
      exact digitChar_inj m small n (oneDigit.mp small) (List.singleton_inj.mp same)
    · rw [if_neg small, if_neg (small ∘ oneDigit.mpr)] at same
      obtain ⟨front, last⟩ := List.append_inj' same rfl
      have quotient := ih (m / 16) (by omega) front
      have rest := digitChar_inj _ (Nat.mod_lt m (by decide)) _ (Nat.mod_lt n (by decide)) (List.singleton_inj.mp last)
      omega

theorem quote_not_mem_toDigits (n : Nat) : '"' ∉ Nat.toDigits 16 n := by
  have digits : ∀ d < 16, '"' ≠ Nat.digitChar d := by decide
  induction n using Nat.strongRecOn with
  | ind n ih =>
    rw [Nat.toDigits_eq_if (by decide)]
    by_cases small : n < 16
    · rw [if_pos small, List.mem_singleton]
      exact digits n small
    · rw [if_neg small, List.mem_append, List.mem_singleton, not_or]
      exact ⟨ih (n / 16) (by omega), digits _ (Nat.mod_lt n (by decide))⟩

/-! ### Texts -/

/-- A byte as two hexadecimal digits. -/
def byteText (b : UInt8) : List Char := [Nat.digitChar (b.toNat / 16), Nat.digitChar (b.toNat % 16)]

def hashText (hash : MockTx.Byte32) : List Char := (Bytes.leBytes 32 hash.toNat).flatMap byteText

def DepType.text : DepType → List Char
  | .code => "code".toList
  | .depGroup => "dep_group".toList

/-- `serde_json::to_string` of a cell dep. -/
def jsonText (cellDep : CellDep) : List Char :=
  "\x7b\"out_point\":\x7b\"tx_hash\":\"0x".toList ++ (hashText cellDep.outPoint.txHash ++
    ("\",\"index\":\"0x".toList ++ (Nat.toDigits 16 cellDep.outPoint.index.toNat ++
      '"' :: ("\x7d,\"dep_type\":\"".toList ++ (cellDep.depType.text ++ "\"\x7d".toList)))))

def jsonPrinter : Printer where
  toJson cellDep := String.ofList (jsonText cellDep)
  debug _ := "CellDep"

/-! ### Different cell deps have different texts -/

theorem byteText_injective : Function.Injective byteText := by
  intro a b same
  have smallA := a.toNat_lt
  have smallB := b.toNat_lt
  have front := digitChar_inj _ (by omega) _ (by omega) (List.cons.inj same).1
  have back := digitChar_inj _ (Nat.mod_lt _ (by decide)) _ (Nat.mod_lt _ (by decide))
    (List.singleton_inj.mp (List.cons.inj same).2)
  exact UInt8.toNat_inj.mp (by omega)

theorem flatMap_byteText_injective : Function.Injective (List.flatMap byteText) := by
  intro as bs same
  induction as generalizing bs with
  | nil =>
    cases bs with
    | nil => rfl
    | cons b bs => cases same
  | cons a as ih =>
    cases bs with
    | nil => cases same
    | cons b bs =>
      obtain ⟨first, rest⟩ := List.append_inj same rfl
      rw [byteText_injective first, ih rest]

theorem length_hashText (hash : MockTx.Byte32) : (hashText hash).length = 64 := by
  have pairs : ∀ bytes : List UInt8, (bytes.flatMap byteText).length = 2 * bytes.length := by
    intro bytes
    induction bytes with
    | nil => rfl
    | cons b bytes ih =>
      rw [List.flatMap_cons, List.length_append, ih, List.length_cons, byteText, List.length_cons, List.length_cons,
        List.length_nil]
      omega
  rw [hashText, pairs, Bytes.length_leBytes]

theorem hashText_injective : Function.Injective hashText := by
  intro a b same
  have bytes := congrArg Bytes.leValue (flatMap_byteText_injective same)
  rw [Bytes.leValue_leBytes_of_lt 32 (by simpa using a.isLt),
    Bytes.leValue_leBytes_of_lt 32 (by simpa using b.isLt)] at bytes
  exact BitVec.eq_of_toNat_eq bytes

theorem depTypeText_injective : Function.Injective DepType.text := by
  intro a b same
  cases a <;> cases b <;> first | rfl | cases same

/-- The texts of cell deps are told apart field by field. -/
theorem jsonText_injective : Function.Injective jsonText := by
  intro a b same
  obtain ⟨hash, rest⟩ := List.append_inj (List.append_cancel_left same)
    ((length_hashText _).trans (length_hashText _).symm)
  -- the digits of the index end at the first quote
  have cut := congrArg (Text.cutFirst '"') (List.append_cancel_left rest)
  rw [Text.cutFirst_append _ _ _ (quote_not_mem_toDigits _), Text.cutFirst_append _ _ _ (quote_not_mem_toDigits _),
    Option.some.injEq, Prod.mk.injEq] at cut
  have index := UInt32.toNat_inj.mp (toDigits_hex_injective cut.1)
  have depType := depTypeText_injective (List.append_cancel_right (List.append_cancel_left cut.2))
  obtain ⟨⟨hashA, indexA⟩, depTypeA⟩ := a
  obtain ⟨⟨hashB, indexB⟩, depTypeB⟩ := b
  rw [show hashA = hashB from hashText_injective hash, show indexA = indexB from index,
    show depTypeA = depTypeB from depType]

theorem jsonPrinter_injective : Function.Injective jsonPrinter.toJson := fun _ _ same =>
  jsonText_injective (String.ofList_injective same)

end DebuggerApi
