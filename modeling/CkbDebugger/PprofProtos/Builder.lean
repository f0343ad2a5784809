import Mathlib.Data.List.Basic
import Mathlib.Data.List.Forall2
import Mathlib.Data.List.Induction
import Mathlib.Data.List.Nodup
import CkbDebugger.Table.First

/-!
# Building a profile

The pprof converter and the signal profiler make a profile out of stacks of symbols in the
same way: all texts go into one table, and every name gets a function and a location the
first time it is seen. Table indices and ids are natural numbers, since a table has fewer
than `2 ^ 63` entries.
-/
namespace PprofProtos

/-! ### The messages -/

structure ValueType where
  fieldType : Nat
  unit : Nat
  deriving Repr, DecidableEq

structure Sample where
  locationId : List Nat
  value : List Int64
  deriving Repr, DecidableEq

structure Line where
  functionId : Nat
  line : Int64
  deriving Repr, DecidableEq

structure Location where
  id : Nat
  line : List Line
  deriving Repr, DecidableEq

structure Function where
  id : Nat
  name : Nat
  systemName : Nat
  filename : Nat
  deriving Repr, DecidableEq

structure Profile where
  sampleType : List ValueType
  sample : List Sample
  location : List Location
  function : List Function
  stringTable : List String
  timeNanos : Int64
  durationNanos : Int64
  periodType : Option ValueType
  period : Int64
  deriving Repr, DecidableEq

/-! ### Arithmetic -/

/-- The exact product of two `i64` is an `i64`. -/
def MulFits (a b : Int64) : Prop := (a * b).toInt = a.toInt * b.toInt

instance (a b : Int64) : Decidable (MulFits a b) := inferInstanceAs (Decidable (_ = _))

/-- `*`, which panics in a build with overflow checks and wraps in one without. -/
def mulI64 (overflowChecks : Bool) (a b : Int64) : Option Int64 :=
  if overflowChecks = true ∧ ¬MulFits a b then none else some (a * b)

/-- `/`, which panics in every build if the divisor is 0 or the quotient overflows. -/
def divI64 (a b : Int64) : Option Int64 :=
  if b = 0 ∨ a = Int64.minValue ∧ b = -1 then none else some (a / b)

/-! ### The builder -/

def COUNT : String := "count"

def NANOSECONDS : String := "nanoseconds"

/-- What the two builders do not share: how a symbol is read, and the texts of the two
values. -/
structure Source (σ : Type) where
  name : σ → String
  file : σ → String
  line : σ → Int64
  countType : String
  timeType : String

/-- `HashMap::insert`. -/
def insert (map : String → Option Nat) (key : String) (value : Nat) : String → Option Nat :=
  fun s => if s = key then some value else map s

/-- `strings`: the index of each text, the last one if there are two. -/
def stringMap (strTbl : List String) : String → Option Nat :=
  strTbl.zipIdx.foldl (fun strings entry => insert strings entry.1 entry.2) fun _ => none

/-- `fn_tbl` and `loc_tbl`, and the id of each name that has been seen. -/
structure Tables where
  fnTbl : List Function
  locTbl : List Location
  functions : String → Option Nat

def Tables.empty : Tables := ⟨[], [], fun _ => none⟩

namespace Source

variable {σ : Type} (source : Source σ)

/-- The texts that are put into `dedup_str`. -/
def dedupStr (frames : List (List σ × UInt64)) : List String :=
  (frames.flatMap fun frame => frame.1.flatMap fun symbol => [source.name symbol, source.file symbol]) ++
    [source.countType, COUNT, source.timeType, NANOSECONDS]

/-- The location of a symbol. `none` is the panic of a lookup that fails. -/
def addSymbol (strings : String → Option Nat) (tables : Tables) (symbol : σ) : Option (Tables × Nat) :=
  match tables.functions (source.name symbol) with
  | some locIdx => some (tables, locIdx)
  | none =>
    -- a function and its location share the id
    let functionId := tables.fnTbl.length + 1
    match strings (source.name symbol), strings (source.file symbol) with
    | some name, some filename =>
      some ({ fnTbl := tables.fnTbl ++ [⟨functionId, name, name, filename⟩]
              locTbl := tables.locTbl ++ [⟨functionId, [⟨functionId, source.line symbol⟩]⟩]
              functions := insert tables.functions (source.name symbol) functionId }, functionId)
    | _, _ => none

/-- The locations of a stack. -/
def addStack (strings : String → Option Nat) (tables : Tables) : List σ → Option (Tables × List Nat)
  | [] => some (tables, [])
  | symbol :: stack =>
    match source.addSymbol strings tables symbol with
    | none => none
    | some (tables, loc) =>
      (addStack strings tables stack).map fun (tables, locs) => (tables, loc :: locs)

/-- The values of a sample: the count, and the time it stands for. -/
def values (overflowChecks : Bool) (frequency : Int64) (count : UInt64) : Option (List Int64) :=
  match mulI64 overflowChecks count.toInt64 1000000000 with
  | none => none
  | some product => (divI64 product frequency).map fun nanos => [count.toInt64, nanos]

/-- The samples of the frames. -/
def addFrames (overflowChecks : Bool) (frequency : Int64) (strings : String → Option Nat) (tables : Tables) :
    List (List σ × UInt64) → Option (Tables × List Sample)
  | [] => some (tables, [])
  | (stack, count) :: frames =>
    match source.addStack strings tables stack, values overflowChecks frequency count with
    | some (tables, locs), some value =>
      (addFrames overflowChecks frequency strings tables frames).map fun (tables, samples) =>
        (tables, ⟨locs, value⟩ :: samples)
    | _, _ => none

def valueType (strings : String → Option Nat) (fieldType unit : String) : Option ValueType :=
  match strings fieldType, strings unit with
  | some fieldType, some unit => some ⟨fieldType, unit⟩
  | _, _ => none

/-- The profile of some frames. `order` is the order in which the set of texts is iterated. -/
def build (overflowChecks : Bool) (order : List String) (frames : List (List σ × UInt64))
    (frequency timeNanos durationNanos : Int64) : Option Profile :=
  -- the first text must be the empty one; `order` may have it again
  let strTbl := "" :: order
  let strings := stringMap strTbl
  match source.addFrames overflowChecks frequency strings .empty frames,
    valueType strings source.countType COUNT, valueType strings source.timeType NANOSECONDS,
    divI64 1000000000 frequency with
  | some (tables, samples), some samplesValue, some timeValue, some period =>
    some {
      sampleType := [samplesValue, timeValue]
      sample := samples
      stringTable := strTbl
      function := tables.fnTbl
      location := tables.locTbl
      timeNanos := timeNanos
      durationNanos := durationNanos
      periodType := some timeValue
      period := period }
  | _, _, _, _ => none

end Source

/-! ### What a profile says -/

/-- The text at an index of the string table. -/
def Profile.text (profile : Profile) (index : Nat) : Option String := profile.stringTable[index]?

/-- A location id leads over its one line to a function with the given name. -/
def Profile.Resolves (profile : Profile) (loc : Nat) (name : String) : Prop :=
  ∃ location ∈ profile.location, location.id = loc ∧ ∃ line, location.line = [line] ∧
    ∃ function ∈ profile.function, function.id = line.functionId ∧ profile.text function.name = some name

/-- The profile is well formed and stands for the given frames. -/
structure Valid {σ : Type} (source : Source σ) (frames : List (List σ × UInt64)) (profile : Profile) : Prop where
  emptyText : profile.text 0 = some ""
  valueTypes : ∃ samples time, profile.sampleType = [samples, time] ∧ profile.periodType = some time ∧
    profile.text samples.fieldType = some source.countType ∧ profile.text samples.unit = some COUNT ∧
    profile.text time.fieldType = some source.timeType ∧ profile.text time.unit = some NANOSECONDS
  functionTexts : ∀ function ∈ profile.function, ∃ symbol ∈ frames.flatMap Prod.fst,
    profile.text function.name = some (source.name symbol) ∧
    profile.text function.systemName = some (source.name symbol) ∧
    profile.text function.filename = some (source.file symbol)
  functionIds : profile.function.map Function.id = List.range' 1 profile.function.length
  locationIds : profile.location.map Location.id = List.range' 1 profile.function.length
  oneFunction : ∀ symbol ∈ frames.flatMap Prod.fst, ∃! function, function ∈ profile.function ∧
    profile.text function.name = some (source.name symbol)
  lines : ∀ location ∈ profile.location, ∃ line, location.line = [line] ∧ line.functionId = location.id
  samples : List.Forall₂ (fun frame sample =>
    List.Forall₂ (fun symbol loc => profile.Resolves loc (source.name symbol)) frame.1 sample.locationId ∧
    sample.value.length = 2 ∧ sample.value.length = profile.sampleType.length) frames profile.sample

/-- `order` is a set of texts in some order. -/
structure IterationOf (order texts : List String) : Prop where
  distinct : order.Nodup
  same : ∀ s, s ∈ order ↔ s ∈ texts

theorem iterationOf_of_subset {order texts : List String} (distinct : order.Nodup)
    (sub : ∀ s ∈ order, s ∈ texts) (sup : ∀ s ∈ texts, s ∈ order) : IterationOf order texts where
  distinct := distinct
  same := fun s => ⟨sub s, sup s⟩

/-! ### The string table -/

theorem insert_self (map : String → Option Nat) (key : String) (value : Nat) :
    insert map key value key = some value := if_pos rfl

theorem insert_of_ne (map : String → Option Nat) {key s : String} (value : Nat) (other : s ≠ key) :
    insert map key value s = map s := if_neg other

theorem stringMap_append (strTbl : List String) (text : String) :
    stringMap (strTbl ++ [text]) = insert (stringMap strTbl) text strTbl.length := by
  simp [stringMap, List.zipIdx_append]

/-- An index that the map gives is one of the text. -/
theorem getElem_of_stringMap (strTbl : List String) (s : String) (index : Nat)
    (known : stringMap strTbl s = some index) : strTbl[index]? = some s := by
  induction strTbl using List.reverseRecOn with
  | nil => cases known
  | append_singleton strTbl text ih =>
    rw [stringMap_append] at known
    -- the last entry hides an earlier one of the same text
    by_cases same : s = text
    · rw [same, insert_self] at known
      cases known
      rw [same, List.getElem?_concat_length]
    · rw [insert_of_ne _ _ same] at known
      have before := ih known
      have inside := (List.getElem?_eq_some_iff.mp before).1
      rw [List.getElem?_append_left inside, before]

/-- Every text of the table has an index. -/
theorem stringMap_of_mem (strTbl : List String) (s : String) (member : s ∈ strTbl) :
    ∃ index, stringMap strTbl s = some index := by
  induction strTbl using List.reverseRecOn with
  | nil => cases member
  | append_singleton strTbl text ih =>
    rw [stringMap_append]
    by_cases same : s = text
    · exact ⟨_, by rw [same, insert_self]⟩
    · rw [insert_of_ne _ _ same]
      rcases List.mem_append.mp member with member | member
      · exact ih member
      · exact absurd (List.mem_singleton.mp member) same

/-! ### The tables of functions and locations -/

section Interning

open Table (see seeAll place see_of_mem see_of_not_mem seeAll_cons seeAll_append place_seeAll key_mem_see
  key_mem_seeAll nodup_seeAll mem_of_mem_seeAll)

variable {σ : Type} (source : Source σ) (strTbl : List String)

/-- The id of a name is its place among the names, counted from 1. -/
def IdOf (names : List String) (loc : Nat) (name : String) : Prop := ∃ i, loc = i + 1 ∧ names[i]? = some name

/-- After the symbols `seen`, the tables have one entry for each of their names. -/
structure Interned (seen : List σ) (names : List String) (tables : Tables) : Prop where
  distinct : names.Nodup
  known : ∀ s, s ∈ names ↔ ∃ symbol ∈ seen, source.name symbol = s
  ids : ∀ s loc, tables.functions s = some loc ↔ IdOf names loc s
  functionCount : tables.fnTbl.length = names.length
  locationCount : tables.locTbl.length = names.length
  functions : ∀ i function, tables.fnTbl[i]? = some function → function.id = i + 1 ∧
    function.systemName = function.name ∧ ∃ symbol ∈ seen, names[i]? = some (source.name symbol) ∧
      strTbl[function.name]? = some (source.name symbol) ∧ strTbl[function.filename]? = some (source.file symbol)
  locations : ∀ i location, tables.locTbl[i]? = some location → location.id = i + 1 ∧
    ∃ line, location.line = [line] ∧ line.functionId = i + 1

variable {source strTbl}

/-- The index of a text, which is in the table wherever this is used. -/
def textIndex (strTbl : List String) (s : String) : Nat := (stringMap strTbl s).getD 0

theorem stringMap_eq_textIndex {s : String} (member : s ∈ strTbl) :
    stringMap strTbl s = some (textIndex strTbl s) := by
  obtain ⟨index, known⟩ := stringMap_of_mem strTbl s member
  rw [textIndex, known, Option.getD_some]

theorem getElem_textIndex {s : String} (member : s ∈ strTbl) : strTbl[textIndex strTbl s]? = some s :=
  getElem_of_stringMap strTbl s _ (stringMap_eq_textIndex member)

/-- The id of a name when these are the first symbols of their names. -/
def nameId (source : Source σ) (firsts : List σ) (name : String) : Nat := place source.name firsts name + 1

/-- The tables when these are the first symbols of their names. -/
def tablesOf (source : Source σ) (strTbl : List String) (firsts : List σ) : Tables where
  fnTbl := firsts.mapIdx fun i first =>
    ⟨i + 1, textIndex strTbl (source.name first), textIndex strTbl (source.name first),
      textIndex strTbl (source.file first)⟩
  locTbl := firsts.mapIdx fun i first => ⟨i + 1, [⟨i + 1, source.line first⟩]⟩
  functions := fun name => if name ∈ firsts.map source.name then some (nameId source firsts name) else none

theorem nameId_concat {firsts : List σ} {symbol : σ} (new : source.name symbol ∉ firsts.map source.name) :
    nameId source (firsts ++ [symbol]) (source.name symbol) = firsts.length + 1 := by
  rw [nameId, place, List.map_append, List.idxOf_append_of_notMem new]
  simp

/-- The first symbol of a new name gets the next id, a function and a location. -/
theorem tablesOf_concat {firsts : List σ} {symbol : σ} (new : source.name symbol ∉ firsts.map source.name) :
    tablesOf source strTbl (firsts ++ [symbol]) =
      { fnTbl := (tablesOf source strTbl firsts).fnTbl ++
          [⟨firsts.length + 1, textIndex strTbl (source.name symbol), textIndex strTbl (source.name symbol),
            textIndex strTbl (source.file symbol)⟩]
        locTbl := (tablesOf source strTbl firsts).locTbl ++
          [⟨firsts.length + 1, [⟨firsts.length + 1, source.line symbol⟩]⟩]
        functions := insert (tablesOf source strTbl firsts).functions (source.name symbol)
          (firsts.length + 1) } := by
  have names : (tablesOf source strTbl (firsts ++ [symbol])).functions =
      insert (tablesOf source strTbl firsts).functions (source.name symbol) (firsts.length + 1) := by
    funext name
    simp only [tablesOf, List.map_append, List.map_singleton]
    by_cases same : name = source.name symbol
    · rw [same, insert_self, if_pos (by simp), nameId_concat new]
    -- the other names keep their ids
    · rw [insert_of_ne _ _ same]
      by_cases before : name ∈ firsts.map source.name
      · rw [if_pos before, if_pos (List.mem_append_left _ before), nameId, nameId, place, place,
          List.map_append, List.idxOf_append_of_mem before]
      · rw [if_neg before, if_neg]
        rw [List.mem_append, List.mem_singleton]
        exact fun member => member.elim before same
  rw [← names]
  simp only [tablesOf, List.mapIdx_concat]

/-- A symbol is looked up by its name, and kept when it is the first of the name. -/
theorem addSymbol_tablesOf (firsts : List σ) (symbol : σ)
    (nameIn : source.name symbol ∈ strTbl) (fileIn : source.file symbol ∈ strTbl) :
    source.addSymbol (stringMap strTbl) (tablesOf source strTbl firsts) symbol =
      some (tablesOf source strTbl (see source.name firsts symbol),
        nameId source (see source.name firsts symbol) (source.name symbol)) := by
  unfold Source.addSymbol
  by_cases known : source.name symbol ∈ firsts.map source.name
  · have found : (tablesOf source strTbl firsts).functions (source.name symbol) =
        some (nameId source firsts (source.name symbol)) := if_pos known
    rw [found, see_of_mem known]
  · have missing : (tablesOf source strTbl firsts).functions (source.name symbol) = none := if_neg known
    have size : (tablesOf source strTbl firsts).fnTbl.length = firsts.length := List.length_mapIdx
    rw [missing, stringMap_eq_textIndex nameIn, stringMap_eq_textIndex fileIn, see_of_not_mem known,
      tablesOf_concat known, nameId_concat known]
    simp only [size]

theorem addStack_tablesOf (firsts stack : List σ)
    (texts : ∀ symbol ∈ stack, source.name symbol ∈ strTbl ∧ source.file symbol ∈ strTbl) :
    source.addStack (stringMap strTbl) (tablesOf source strTbl firsts) stack =
      some (tablesOf source strTbl (seeAll source.name firsts stack),
        stack.map fun symbol => nameId source (seeAll source.name firsts stack) (source.name symbol)) := by
  induction stack generalizing firsts with
  | nil => rfl
  | cons symbol stack ih =>
    obtain ⟨nameIn, fileIn⟩ := texts symbol List.mem_cons_self
    have rest := ih (see source.name firsts symbol) fun other member => texts other (List.mem_cons_of_mem _ member)
    have known : source.name symbol ∈ (see source.name firsts symbol).map source.name := key_mem_see firsts symbol
    -- later symbols leave the id of this one alone
    rw [Source.addStack, addSymbol_tablesOf firsts symbol nameIn fileIn]
    simp only [rest, Option.map_some, seeAll_cons, List.map_cons, nameId, place_seeAll known]

theorem divI64_of_pos (a b : Int64) (positive : 0 < b) : divI64 a b = some (a / b) := by
  apply if_neg
  rintro (rfl | ⟨-, rfl⟩)
  · exact absurd positive (by decide)
  · exact absurd positive (by decide)

theorem values_of_fits (overflowChecks : Bool) {frequency : Int64} (positive : 0 < frequency) (count : UInt64)
    (fits : MulFits count.toInt64 1000000000) :
    Source.values overflowChecks frequency count =
      some [count.toInt64, count.toInt64 * 1000000000 / frequency] := by
  have product : mulI64 overflowChecks count.toInt64 1000000000 = some (count.toInt64 * 1000000000) :=
    if_neg fun overflows => overflows.2 fits
  simp only [Source.values, product, divI64_of_pos _ _ positive, Option.map_some]

/-- The sample of a frame when these are the first symbols of all frames. -/
def sampleOf (source : Source σ) (overflowChecks : Bool) (frequency : Int64) (firsts : List σ)
    (frame : List σ × UInt64) : Option Sample :=
  (Source.values overflowChecks frequency frame.2).map fun value =>
    ⟨frame.1.map fun symbol => nameId source firsts (source.name symbol), value⟩

/-- The ids of the symbols that have been seen do not change. -/
theorem nameId_seeAll (source : Source σ) (firsts stack more : List σ) :
    (stack.map fun symbol => nameId source (seeAll source.name (seeAll source.name firsts stack) more)
      (source.name symbol)) =
    stack.map fun symbol => nameId source (seeAll source.name firsts stack) (source.name symbol) := by
  apply List.map_congr_left
  intro symbol member
  rw [nameId, place_seeAll (key_mem_seeAll (.inr member)), nameId]

theorem addFrames_tablesOf (overflowChecks : Bool) (frequency : Int64) (firsts : List σ)
    (frames : List (List σ × UInt64))
    (texts : ∀ frame ∈ frames, ∀ symbol ∈ frame.1, source.name symbol ∈ strTbl ∧ source.file symbol ∈ strTbl) :
    source.addFrames overflowChecks frequency (stringMap strTbl) (tablesOf source strTbl firsts) frames =
      (frames.mapM (sampleOf source overflowChecks frequency
        (seeAll source.name firsts (frames.flatMap Prod.fst)))).map fun samples =>
          (tablesOf source strTbl (seeAll source.name firsts (frames.flatMap Prod.fst)), samples) := by
  induction frames generalizing firsts with
  | nil => rfl
  | cons frame frames ih =>
    obtain ⟨stack, count⟩ := frame
    have added := addStack_tablesOf firsts stack (texts _ List.mem_cons_self)
    have rest := ih (seeAll source.name firsts stack) fun other member => texts other (List.mem_cons_of_mem _ member)
    have ids := nameId_seeAll source firsts stack (frames.flatMap Prod.fst)
    rw [Source.addFrames, added, List.flatMap_cons, seeAll_append, List.mapM_cons, sampleOf]
    cases value : Source.values overflowChecks frequency count with
    | none => rfl
    | some value =>
      simp only [rest, ids, Option.map_some, Option.bind_eq_bind, Option.bind_some]
      -- the other frames may still fail
      cases frames.mapM (sampleOf source overflowChecks frequency
        (seeAll source.name (seeAll source.name firsts stack) (frames.flatMap Prod.fst))) <;> rfl

/-! ### The profile -/

theorem map_eq_range {α : Type} (l : List α) (id : α → Nat) (n : Nat) (size : l.length = n)
    (numbered : ∀ i x, l[i]? = some x → id x = i + 1) : l.map id = List.range' 1 n := by
  apply List.ext_getElem
  · simp [size]
  · intro i inside _
    rw [List.getElem_map, List.getElem_range', numbered i _ (List.getElem?_eq_getElem _), Nat.one_mul,
      Nat.add_comm]

theorem valueType_eq {fieldType unit : String} (typeIn : fieldType ∈ strTbl) (unitIn : unit ∈ strTbl) :
    Source.valueType (stringMap strTbl) fieldType unit =
      some ⟨textIndex strTbl fieldType, textIndex strTbl unit⟩ := by
  rw [Source.valueType, stringMap_eq_textIndex typeIn, stringMap_eq_textIndex unitIn]

theorem text_mem {frames : List (List σ × UInt64)} {order : List String}
    (iteration : IterationOf order (source.dedupStr frames)) {s : String} (member : s ∈ source.dedupStr frames) :
    s ∈ "" :: order := List.mem_cons_of_mem _ ((iteration.same s).mpr member)

theorem symbol_texts_mem {frames : List (List σ × UInt64)} {order : List String}
    (iteration : IterationOf order (source.dedupStr frames)) :
    ∀ frame ∈ frames, ∀ symbol ∈ frame.1,
      source.name symbol ∈ "" :: order ∧ source.file symbol ∈ "" :: order := by
  intro frame member symbol inside
  have both : ∀ s ∈ [source.name symbol, source.file symbol], s ∈ source.dedupStr frames := by
    intro s one
    apply List.mem_append_left
    exact List.mem_flatMap.mpr ⟨frame, member, List.mem_flatMap.mpr ⟨symbol, inside, one⟩⟩
  exact ⟨text_mem iteration (both _ (by simp)), text_mem iteration (both _ (by simp))⟩

theorem Interned.functionAt {seen : List σ} {names : List String} {tables : Tables}
    (interned : Interned source strTbl seen names tables) {i : Nat} {s : String} (here : names[i]? = some s) :
    ∃ function, tables.fnTbl[i]? = some function ∧ function.id = i + 1 ∧ strTbl[function.name]? = some s := by
  have inside := (List.getElem?_eq_some_iff.mp here).1
  rw [← interned.functionCount] at inside
  have found := List.getElem?_eq_getElem inside
  obtain ⟨id, -, symbol, -, named, nameText, -⟩ := interned.functions i _ found
  rw [here] at named
  exact ⟨_, found, id, Option.some.inj named ▸ nameText⟩

/-- Functions with the same name are the same entry. -/
theorem Interned.function_unique {seen : List σ} {names : List String} {tables : Tables}
    (interned : Interned source strTbl seen names tables) {f g : Function} (left : f ∈ tables.fnTbl)
    (right : g ∈ tables.fnTbl) (same : strTbl[f.name]? = strTbl[g.name]?) : f = g := by
  obtain ⟨i, atI⟩ := List.getElem?_of_mem left
  obtain ⟨j, atJ⟩ := List.getElem?_of_mem right
  obtain ⟨-, -, symbol, -, namedI, textI, -⟩ := interned.functions i f atI
  obtain ⟨-, -, other, -, namedJ, textJ, -⟩ := interned.functions j g atJ
  have inside := (List.getElem?_eq_some_iff.mp namedI).1
  -- both entries stand at the place of the one name
  have places : i = j := (List.getElem?_inj inside interned.distinct).mp (by
    rw [namedI, namedJ, ← textI, ← textJ, same])
  rw [places, atJ] at atI
  exact (Option.some.inj atI).symm

theorem resolves_of_idOf {seen : List σ} {names : List String} {tables : Tables} {profile : Profile}
    (interned : Interned source profile.stringTable seen names tables)
    (functions : profile.function = tables.fnTbl) (locations : profile.location = tables.locTbl)
    {loc : Nat} {s : String} (idOf : IdOf names loc s) : profile.Resolves loc s := by
  obtain ⟨i, rfl, here⟩ := idOf
  obtain ⟨function, found, id, nameText⟩ := interned.functionAt here
  have inside := (List.getElem?_eq_some_iff.mp here).1
  rw [← interned.locationCount] at inside
  have location := List.getElem?_eq_getElem inside
  obtain ⟨locationId, line, one, same⟩ := interned.locations i _ location
  refine ⟨_, ?_, locationId, line, one, function, ?_, ?_, nameText⟩
  · rw [locations]
    exact List.mem_of_getElem? location
  · rw [functions]
    exact List.mem_of_getElem? found
  · rw [id, same]

/-- Tables with one entry for each name make a valid profile. -/
theorem valid_of_interned {frames : List (List σ × UInt64)} {names : List String} {tables : Tables}
    {profile : Profile} (interned : Interned source profile.stringTable (frames.flatMap Prod.fst) names tables)
    (functions : profile.function = tables.fnTbl) (locations : profile.location = tables.locTbl)
    (emptyText : profile.text 0 = some "")
    (valueTypes : ∃ samples time, profile.sampleType = [samples, time] ∧ profile.periodType = some time ∧
      profile.text samples.fieldType = some source.countType ∧ profile.text samples.unit = some COUNT ∧
      profile.text time.fieldType = some source.timeType ∧ profile.text time.unit = some NANOSECONDS)
    (sampled : List.Forall₂ (fun frame sample =>
      List.Forall₂ (fun symbol loc => IdOf names loc (source.name symbol)) frame.1 sample.locationId ∧
      sample.value.length = 2) frames profile.sample) : Valid source frames profile where
  emptyText := emptyText
  valueTypes := valueTypes
  functionTexts := by
    intro function member
    rw [functions] at member
    obtain ⟨i, here⟩ := List.getElem?_of_mem member
    obtain ⟨-, system, symbol, seen, -, nameText, fileText⟩ := interned.functions i function here
    exact ⟨symbol, seen, nameText, system ▸ nameText, fileText⟩
  functionIds := by
    rw [functions]
    exact map_eq_range _ _ _ rfl fun i function here => (interned.functions i function here).1
  locationIds := by
    rw [functions, locations]
    exact map_eq_range _ _ _ (by rw [interned.locationCount, interned.functionCount]) fun i location here =>
      (interned.locations i location here).1
  oneFunction := by
    intro symbol seen
    rw [functions]
    -- the name has an id, and the function with this id is the only one of the name
    obtain ⟨i, here⟩ := List.getElem?_of_mem ((interned.known (source.name symbol)).mpr ⟨symbol, seen, rfl⟩)
    obtain ⟨function, found, -, nameText⟩ := interned.functionAt here
    have member := List.mem_of_getElem? found
    refine ⟨function, ⟨member, nameText⟩, ?_⟩
    rintro other ⟨listed, otherText⟩
    exact interned.function_unique listed member (otherText.trans nameText.symm)
  lines := by
    intro location member
    rw [locations] at member
    obtain ⟨i, here⟩ := List.getElem?_of_mem member
    obtain ⟨id, line, one, same⟩ := interned.locations i location here
    exact ⟨line, one, by rw [same, id]⟩
  samples := by
    obtain ⟨_, _, two, -⟩ := valueTypes
    refine sampled.imp ?_
    intro frame sample both
    refine ⟨both.1.imp ?_, both.2, by rw [both.2, two]; rfl⟩
    intro symbol loc idOf
    exact resolves_of_idOf interned functions locations idOf

/-- The first symbol of each name in the frames. -/
def firstsOf (source : Source σ) (frames : List (List σ × UInt64)) : List σ :=
  seeAll source.name [] (frames.flatMap Prod.fst)

theorem interned_tablesOf (source : Source σ) (frames : List (List σ × UInt64))
    (texts : ∀ frame ∈ frames, ∀ symbol ∈ frame.1, source.name symbol ∈ strTbl ∧ source.file symbol ∈ strTbl) :
    Interned source strTbl (frames.flatMap Prod.fst) ((firstsOf source frames).map source.name)
      (tablesOf source strTbl (firstsOf source frames)) := by
  have distinct : ((firstsOf source frames).map source.name).Nodup := nodup_seeAll List.nodup_nil
  have seen : ∀ first ∈ firstsOf source frames, first ∈ frames.flatMap Prod.fst := fun first member =>
    (mem_of_mem_seeAll member).resolve_left List.not_mem_nil
  refine ⟨distinct, ?_, ?_, ?_, ?_, ?_, ?_⟩
  · intro s
    rw [List.mem_map]
    constructor
    · rintro ⟨first, member, same⟩
      exact ⟨first, seen first member, same⟩
    · rintro ⟨symbol, member, same⟩
      rw [← same, ← List.mem_map]
      exact key_mem_seeAll (.inr member)
  · intro s loc
    simp only [tablesOf, IdOf]
    -- the place of a name is the only index with it
    by_cases known : s ∈ (firstsOf source frames).map source.name
    · have inside := List.idxOf_lt_length_of_mem known
      rw [if_pos known, nameId, place, Option.some.injEq]
      constructor
      · intro same
        exact ⟨_, same.symm, by rw [List.getElem?_eq_getElem inside, List.getElem_idxOf inside]⟩
      · rintro ⟨i, same, here⟩
        obtain ⟨bound, text⟩ := List.getElem?_eq_some_iff.mp here
        rw [same, ← text, distinct.idxOf_getElem i bound]
    · rw [if_neg known]
      refine iff_of_false (by simp) ?_
      rintro ⟨i, -, here⟩
      exact known (List.mem_of_getElem? here)
  · rw [tablesOf, List.length_mapIdx, List.length_map]
  · rw [tablesOf, List.length_mapIdx, List.length_map]
  · intro i function here
    rw [tablesOf, List.getElem?_mapIdx] at here
    obtain ⟨first, atI, rfl⟩ := Option.map_eq_some_iff.mp here
    have member := seen first (List.mem_of_getElem? atI)
    obtain ⟨frame, inFrames, inStack⟩ := List.mem_flatMap.mp member
    obtain ⟨nameIn, fileIn⟩ := texts frame inFrames first inStack
    refine ⟨rfl, rfl, first, member, ?_, getElem_textIndex nameIn, getElem_textIndex fileIn⟩
    rw [List.getElem?_map, atI, Option.map_some]
  · intro i location here
    rw [tablesOf, List.getElem?_mapIdx] at here
    obtain ⟨first, atI, rfl⟩ := Option.map_eq_some_iff.mp here
    exact ⟨rfl, _, rfl, rfl⟩

/-- The profile with the given samples. -/
def profileOf (source : Source σ) (strTbl : List String) (firsts : List σ) (samples : List Sample)
    (timeNanos durationNanos period : Int64) : Profile where
  sampleType := [⟨textIndex strTbl source.countType, textIndex strTbl COUNT⟩,
    ⟨textIndex strTbl source.timeType, textIndex strTbl NANOSECONDS⟩]
  sample := samples
  stringTable := strTbl
  function := (tablesOf source strTbl firsts).fnTbl
  location := (tablesOf source strTbl firsts).locTbl
  timeNanos := timeNanos
  durationNanos := durationNanos
  periodType := some ⟨textIndex strTbl source.timeType, textIndex strTbl NANOSECONDS⟩
  period := period

theorem unit_text_mem {frames : List (List σ × UInt64)} {order : List String}
    (iteration : IterationOf order (source.dedupStr frames)) :
    ∀ s ∈ [source.countType, COUNT, source.timeType, NANOSECONDS], s ∈ "" :: order :=
  fun _ member => text_mem iteration (List.mem_append_right _ member)

/-- What the builder returns, if all values and the period can be computed. -/
theorem build_eq (overflowChecks : Bool) {order : List String} {frames : List (List σ × UInt64)}
    (frequency timeNanos durationNanos : Int64) (iteration : IterationOf order (source.dedupStr frames)) :
    source.build overflowChecks order frames frequency timeNanos durationNanos =
      (frames.mapM (sampleOf source overflowChecks frequency (firstsOf source frames))).bind fun samples =>
        (divI64 1000000000 frequency).map
          (profileOf source ("" :: order) (firstsOf source frames) samples timeNanos durationNanos) := by
  have units := unit_text_mem iteration
  rw [Source.build, show Tables.empty = tablesOf source ("" :: order) [] from rfl,
    addFrames_tablesOf overflowChecks frequency [] frames (symbol_texts_mem iteration),
    valueType_eq (units source.countType (by simp)) (units COUNT (by simp)),
    valueType_eq (units source.timeType (by simp)) (units NANOSECONDS (by simp)), ← firstsOf]
  cases frames.mapM (sampleOf source overflowChecks frequency (firstsOf source frames)) with
  | none => rfl
  | some samples => cases divI64 1000000000 frequency <;> rfl

theorem mapM_eq_some_iff {α β : Type} {f : α → Option β} {l : List α} {bs : List β} :
    l.mapM f = some bs ↔ List.Forall₂ (fun a b => f a = some b) l bs := by
  induction l generalizing bs with
  | nil => cases bs <;> simp
  | cons a l ih =>
    rw [List.mapM_cons, Option.bind_eq_bind, Option.bind_eq_some_iff, List.forall₂_cons_left_iff]
    constructor
    · rintro ⟨b, first, rest⟩
      obtain ⟨more, others, same⟩ := Option.bind_eq_some_iff.mp rest
      exact ⟨b, more, first, ih.mp others, (Option.some.inj same).symm⟩
    · rintro ⟨b, more, first, others, rfl⟩
      exact ⟨b, first, by rw [ih.mpr others]; rfl⟩

theorem exists_mapM_iff {α β : Type} {f : α → Option β} {l : List α} :
    (∃ bs, l.mapM f = some bs) ↔ ∀ a ∈ l, ∃ b, f a = some b := by
  induction l with
  | nil => simp
  | cons a l ih =>
    rw [List.forall_mem_cons, ← ih]
    simp only [mapM_eq_some_iff, List.forall₂_cons_left_iff]
    constructor
    · rintro ⟨_, b, more, first, others, -⟩
      exact ⟨⟨b, first⟩, more, others⟩
    · rintro ⟨⟨b, first⟩, more, others⟩
      exact ⟨b :: more, b, more, first, others, rfl⟩

/-- The builder returns a profile unless a value or the period cannot be computed. -/
theorem exists_build_iff (overflowChecks : Bool) {order : List String} {frames : List (List σ × UInt64)}
    (frequency timeNanos durationNanos : Int64) (iteration : IterationOf order (source.dedupStr frames)) :
    (∃ profile, source.build overflowChecks order frames frequency timeNanos durationNanos = some profile) ↔
      frequency ≠ 0 ∧ ∀ frame ∈ frames, ∃ value, Source.values overflowChecks frequency frame.2 = some value := by
  have period : (∃ period, divI64 1000000000 frequency = some period) ↔ frequency ≠ 0 := by
    have large : (1000000000 : Int64) ≠ Int64.minValue := by decide
    by_cases zero : frequency = 0 <;> simp [divI64, zero, large]
  have samples : (∃ samples, frames.mapM (sampleOf source overflowChecks frequency (firstsOf source frames)) =
      some samples) ↔ ∀ frame ∈ frames, ∃ value, Source.values overflowChecks frequency frame.2 = some value := by
    rw [exists_mapM_iff]
    refine forall₂_congr fun frame _ => ?_
    simp only [sampleOf, Option.map_eq_some_iff]
    exact ⟨fun ⟨_, value, known, _⟩ => ⟨value, known⟩, fun ⟨value, known⟩ => ⟨_, value, known, rfl⟩⟩
  rw [build_eq overflowChecks frequency timeNanos durationNanos iteration, ← period, ← samples]
  constructor
  · rintro ⟨profile, built⟩
    obtain ⟨samples, sampled, divided⟩ := Option.bind_eq_some_iff.mp built
    obtain ⟨period, known, -⟩ := Option.map_eq_some_iff.mp divided
    exact ⟨⟨period, known⟩, samples, sampled⟩
  · rintro ⟨⟨period, known⟩, samples, sampled⟩
    exact ⟨_, by rw [sampled, Option.bind_some, known, Option.map_some]⟩

/-- The samples of a profile that the builder returns, frame by frame. -/
theorem samples_of_build {overflowChecks : Bool} {order : List String} {frames : List (List σ × UInt64)}
    {frequency timeNanos durationNanos : Int64} {profile : Profile}
    (iteration : IterationOf order (source.dedupStr frames))
    (built : source.build overflowChecks order frames frequency timeNanos durationNanos = some profile) :
    (∃ samples period, profile =
      profileOf source ("" :: order) (firstsOf source frames) samples timeNanos durationNanos period) ∧
    List.Forall₂ (fun frame sample => sampleOf source overflowChecks frequency (firstsOf source frames) frame =
      some sample) frames profile.sample := by
  rw [build_eq overflowChecks frequency timeNanos durationNanos iteration] at built
  obtain ⟨samples, sampled, divided⟩ := Option.bind_eq_some_iff.mp built
  obtain ⟨period, -, rfl⟩ := Option.map_eq_some_iff.mp divided
  exact ⟨⟨samples, period, rfl⟩, mapM_eq_some_iff.mp sampled⟩

theorem values_length {overflowChecks : Bool} {frequency : Int64} {count : UInt64} {value : List Int64}
    (computed : Source.values overflowChecks frequency count = some value) :
    ∃ nanos, value = [count.toInt64, nanos] := by
  unfold Source.values at computed
  split at computed
  · cases computed
  · obtain ⟨nanos, -, same⟩ := Option.map_eq_some_iff.mp computed
    exact ⟨nanos, same.symm⟩

/-- Every profile that the builder returns is valid, whatever the order of the texts is. -/
theorem valid_of_build {overflowChecks : Bool} {order : List String} {frames : List (List σ × UInt64)}
    {frequency timeNanos durationNanos : Int64} {profile : Profile}
    (iteration : IterationOf order (source.dedupStr frames))
    (built : source.build overflowChecks order frames frequency timeNanos durationNanos = some profile) :
    Valid source frames profile := by
  obtain ⟨⟨samples, period, rfl⟩, sampled⟩ := samples_of_build iteration built
  have units := unit_text_mem iteration
  have interned := interned_tablesOf source frames (symbol_texts_mem iteration)
  refine valid_of_interned interned rfl rfl rfl ?_ ?_
  · exact ⟨_, _, rfl, rfl, getElem_textIndex (units _ (by simp)), getElem_textIndex (units _ (by simp)),
      getElem_textIndex (units _ (by simp)), getElem_textIndex (units _ (by simp))⟩
  · refine ((List.forall₂_and_left frames _).mpr ⟨fun frame member => member, sampled⟩).imp ?_
    rintro frame sample ⟨member, made⟩
    obtain ⟨value, computed, rfl⟩ := Option.map_eq_some_iff.mp made
    obtain ⟨nanos, rfl⟩ := values_length computed
    refine ⟨List.forall₂_map_right_iff.mpr (List.forall₂_same.mpr ?_), rfl⟩
    intro symbol inside
    -- the name of every symbol has an entry
    refine (interned.ids _ _).mp (if_pos (key_mem_seeAll (.inr ?_)))
    exact List.mem_flatMap.mpr ⟨frame, member, inside⟩

theorem build_valid (overflowChecks : Bool) {order : List String} {frames : List (List σ × UInt64)}
    {frequency : Int64} (timeNanos durationNanos : Int64)
    (iteration : IterationOf order (source.dedupStr frames)) (positive : 0 < frequency)
    (fits : ∀ frame ∈ frames, MulFits frame.2.toInt64 1000000000) :
    ∃ profile, source.build overflowChecks order frames frequency timeNanos durationNanos = some profile ∧
      Valid source frames profile := by
  have nonzero : frequency ≠ 0 := by
    rintro rfl
    exact absurd positive (by decide)
  obtain ⟨profile, built⟩ := (exists_build_iff overflowChecks frequency timeNanos durationNanos iteration).mpr
    ⟨nonzero, fun frame member => ⟨_, values_of_fits overflowChecks positive frame.2 (fits frame member)⟩⟩
  exact ⟨profile, built, valid_of_build iteration built⟩

end Interning

end PprofProtos
