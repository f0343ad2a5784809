import Mathlib.Algebra.Group.Int.Defs
import Mathlib.Algebra.Group.Nat.Defs
import CkbDebugger.PprofProtos.Builder

/-!
# What a profile means

A location id is resolved through the tables of locations, functions and texts. The builders
keep one function for each name, that of the first symbol with the name, so that a profile
gives the symbols of its frames back exactly if symbols with the same name agree.
-/
namespace PprofProtos

open Table (seeAll place key_mem_seeAll getElem_place find_seeAll)

/-! ### Resolving a location -/

/-- What is shown of a symbol. -/
structure Shown where
  name : String
  file : String
  line : Int64
  deriving Repr, DecidableEq

def Source.shown {σ : Type} (source : Source σ) (symbol : σ) : Shown :=
  ⟨source.name symbol, source.file symbol, source.line symbol⟩

/-- A line, with the texts of its function. -/
def Profile.showLine (profile : Profile) (line : Line) : Option Shown :=
  (profile.function.find? fun function => function.id == line.functionId).bind fun function =>
    (profile.text function.name).bind fun name =>
      (profile.text function.filename).map fun file => ⟨name, file, line.line⟩

/-- What a location id stands for: one entry for each line of the location. -/
def Profile.showLocation (profile : Profile) (loc : Nat) : Option (List Shown) :=
  (profile.location.find? fun location => location.id == loc).bind fun location =>
    location.line.mapM profile.showLine

/-- The symbols of some stacks, with the location ids that the samples have for them. -/
def Profile.placed {σ : Type} (profile : Profile) (stackList : List (List σ)) : List (σ × Nat) :=
  (stackList.zip profile.sample).flatMap fun pair => pair.1.zip pair.2.locationId

/-- A sample shows a stack, symbol by symbol, and a count. -/
structure Sample.Shows {σ : Type} (sample : Sample) (source : Source σ) (profile : Profile)
    (stack : List σ) (count : Nat) : Prop where
  stack : sample.locationId.map profile.showLocation = stack.map fun symbol => some [source.shown symbol]
  count : sample.value.head?.map Int64.toInt = some (count : Int)

/-- The samples show the frames one after another, and no two symbols that are shown
differently have a location in common. -/
structure Faithful {σ : Type} (source : Source σ) (frames : List (List σ × UInt64)) (profile : Profile) :
    Prop where
  samples : List.Forall₂ (fun frame sample => sample.Shows source profile frame.1 frame.2.toNat)
    frames profile.sample
  apart : ∀ a b loc, (a, loc) ∈ profile.placed (frames.map Prod.fst) →
    (b, loc) ∈ profile.placed (frames.map Prod.fst) → source.shown a = source.shown b

/-- Symbols with the same name are shown alike. -/
def Source.Agree {σ : Type} (source : Source σ) (symbols : List σ) : Prop :=
  ∀ a ∈ symbols, ∀ b ∈ symbols, source.name a = source.name b → source.shown a = source.shown b

/-! ### What the tables resolve to -/

theorem find_mapIdx {α β : Type} (l : List α) (f : Nat → α → β) (id : β → Nat)
    (numbered : ∀ i a, id (f i a) = i + 1) (i : Nat) :
    (l.mapIdx f).find? (fun b => id b == i + 1) = l[i]?.map (f i) := by
  induction l using List.reverseRecOn with
  | nil => rfl
  | append_singleton l a ih =>
    rw [List.mapIdx_concat, List.find?_append, ih, List.find?_cons, numbered]
    rcases Nat.lt_trichotomy i l.length with before | last | after
    · rw [List.getElem?_append_left before, List.getElem?_eq_getElem before, Option.map_some, Option.some_or]
    · rw [last, List.getElem?_concat_length, List.getElem?_eq_none (Nat.le_refl _)]
      simp
    · have other : (l.length + 1 == i + 1) = false := beq_false_of_ne (by omega)
      rw [List.getElem?_eq_none (Nat.le_of_lt after), List.getElem?_eq_none (by simp; omega), other]
      rfl

theorem forall₂_iff_forall {α β : Type} {A R : α → β → Prop} {P : α → Prop} {l : List α} {u : List β}
    (made : List.Forall₂ A l u) (means : ∀ a b, A a b → (R a b ↔ P a)) :
    List.Forall₂ R l u ↔ ∀ a ∈ l, P a := by
  induction made with
  | nil => simp
  | cons here _ ih => rw [List.forall₂_cons, List.forall_mem_cons, ih, means _ _ here]

theorem exists_of_forall₂ {α β : Type} {R : α → β → Prop} {l : List α} {u : List β}
    (all : List.Forall₂ R l u) {a : α} (member : a ∈ l) : ∃ b ∈ u, R a b := by
  induction all with
  | nil => cases member
  | @cons first other l u here _ ih =>
    rcases List.mem_cons.mp member with rfl | member
    · exact ⟨other, List.mem_cons_self, here⟩
    · obtain ⟨b, inside, related⟩ := ih member
      exact ⟨b, List.mem_cons_of_mem _ inside, related⟩

section Build

variable {σ : Type} {source : Source σ} {strTbl : List String}

/-- The first symbol that has the name of a symbol. -/
def firstNamed (source : Source σ) (frames : List (List σ × UInt64)) (symbol : σ) : Option σ :=
  (frames.flatMap Prod.fst).find? fun other => source.name other = source.name symbol

theorem firstNamed_isSome (source : Source σ) {frames : List (List σ × UInt64)} {symbol : σ}
    (member : symbol ∈ frames.flatMap Prod.fst) :
    ∃ first ∈ frames.flatMap Prod.fst, firstNamed source frames symbol = some first ∧
      source.name first = source.name symbol := by
  obtain ⟨first, found⟩ : ∃ first, firstNamed source frames symbol = some first :=
    Option.isSome_iff_exists.mp (List.find?_isSome.mpr ⟨symbol, member, by simp⟩)
  exact ⟨first, List.mem_of_find?_eq_some found, found, by simpa using List.find?_some found⟩

/-- The location of a symbol shows the first symbol of its name. -/
theorem showLocation_nameId {frames : List (List σ × UInt64)} {samples : List Sample}
    {timeNanos durationNanos period : Int64} {symbol : σ}
    (texts : ∀ frame ∈ frames, ∀ symbol ∈ frame.1, source.name symbol ∈ strTbl ∧ source.file symbol ∈ strTbl)
    (member : symbol ∈ frames.flatMap Prod.fst) :
    (profileOf source strTbl (firstsOf source frames) samples timeNanos durationNanos period).showLocation
      (nameId source (firstsOf source frames) (source.name symbol)) =
    (firstNamed source frames symbol).map fun first => [source.shown first] := by
  obtain ⟨first, inside, found, -⟩ := firstNamed_isSome source member
  obtain ⟨frame, inFrames, inStack⟩ := List.mem_flatMap.mp inside
  obtain ⟨nameIn, fileIn⟩ := texts frame inFrames first inStack
  have here : (firstsOf source frames)[place source.name (firstsOf source frames) (source.name symbol)]? =
      some first := by
    rw [getElem_place, firstsOf, find_seeAll, List.nil_append]
    exact found
  -- locations and functions are numbered alike, from 1
  have location := find_mapIdx (firstsOf source frames)
    (fun i first => (⟨i + 1, [⟨i + 1, source.line first⟩]⟩ : Location)) Location.id (fun _ _ => rfl)
    (place source.name (firstsOf source frames) (source.name symbol))
  have function := find_mapIdx (firstsOf source frames)
    (fun i first => (⟨i + 1, textIndex strTbl (source.name first), textIndex strTbl (source.name first),
      textIndex strTbl (source.file first)⟩ : Function)) Function.id (fun _ _ => rfl)
    (place source.name (firstsOf source frames) (source.name symbol))
  rw [here] at location function
  simp only [Profile.showLocation, Profile.showLine, Profile.text, profileOf, tablesOf, nameId, location, function,
    found, Option.map_some, Option.bind_some, List.mapM_cons, List.mapM_nil, getElem_textIndex nameIn,
    getElem_textIndex fileIn]
  rfl

/-- Every symbol is shown as the first of its name exactly if symbols with the same name agree. -/
theorem forall_firstNamed_iff (source : Source σ) (frames : List (List σ × UInt64)) :
    (∀ symbol ∈ frames.flatMap Prod.fst,
      (firstNamed source frames symbol).map source.shown = some (source.shown symbol)) ↔
    source.Agree (frames.flatMap Prod.fst) := by
  constructor
  · intro shown a inA b inB same
    have search : firstNamed source frames a = firstNamed source frames b := by
      rw [firstNamed, same, firstNamed]
    exact Option.some.inj ((shown a inA).symm.trans (search ▸ shown b inB))
  · intro agree symbol member
    obtain ⟨first, inside, found, same⟩ := firstNamed_isSome source member
    rw [found, Option.map_some, agree first inside symbol member same]

/-- A sample shows the first symbols of the names in its frame, and the count as an `i64`. -/
theorem sample_shows_iff {overflowChecks : Bool} {order : List String} {frames : List (List σ × UInt64)}
    {frequency timeNanos durationNanos : Int64} {profile : Profile} {frame : List σ × UInt64} {sample : Sample}
    (iteration : IterationOf order (source.dedupStr frames))
    (built : source.build overflowChecks order frames frequency timeNanos durationNanos = some profile)
    (member : frame ∈ frames)
    (made : sampleOf source overflowChecks frequency (firstsOf source frames) frame = some sample)
    (stack : List σ) (count : Nat) :
    sample.Shows source profile stack count ↔
      (frame.1.map fun symbol => (firstNamed source frames symbol).map source.shown) =
        (stack.map fun symbol => some (source.shown symbol)) ∧ frame.2.toInt64.toInt = count := by
  obtain ⟨⟨samples, period, rfl⟩, -⟩ := samples_of_build iteration built
  have texts := symbol_texts_mem iteration
  obtain ⟨value, computed, rfl⟩ := Option.map_eq_some_iff.mp made
  obtain ⟨nanos, rfl⟩ := values_length computed
  have resolved : (frame.1.map fun symbol => nameId source (firstsOf source frames) (source.name symbol)).map
      (profileOf source ("" :: order) (firstsOf source frames) samples timeNanos durationNanos period).showLocation =
      (frame.1.map fun symbol => (firstNamed source frames symbol).map source.shown).map
        (Option.map fun shown => [shown]) := by
    rw [List.map_map, List.map_map]
    apply List.map_congr_left
    intro symbol inside
    rw [Function.comp, showLocation_nameId texts (List.mem_flatMap.mpr ⟨frame, member, inside⟩), Function.comp,
      Option.map_map]
    rfl
  have single : (stack.map fun symbol => some [source.shown symbol]) =
      (stack.map fun symbol => some (source.shown symbol)).map (Option.map fun shown => [shown]) := by
    rw [List.map_map]
    rfl
  have injective : Function.Injective (Option.map fun shown : Shown => [shown]) :=
    Option.map_injective fun a b same => List.singleton_inj.mp same
  constructor
  · rintro ⟨shows, count⟩
    rw [resolved, single] at shows
    exact ⟨List.map_injective_iff.mpr injective shows, by simpa using count⟩
  · rintro ⟨shows, count⟩
    exact ⟨by rw [resolved, single, shows], by simp [count]⟩

theorem toInt_toInt64 (count : UInt64) : count.toInt64.toInt = (count.toNat : Int).bmod (2 ^ 64) := by
  rw [← Int64.toInt_toBitVec, UInt64.toBitVec_toInt64, BitVec.toInt_eq_toNat_bmod]
  rfl

/-- A count is an `i64` exactly below `2 ^ 63`. -/
theorem toInt_toInt64_eq_iff (count : UInt64) : count.toInt64.toInt = count.toNat ↔ count.toNat < 2 ^ 63 := by
  have bound := count.toNat_lt
  rw [toInt_toInt64, Int.bmod_def]
  omega

/-- Where the samples show the stacks, the location of a symbol shows the symbol. -/
theorem showLocation_of_placed {profile : Profile} {stackList : List (List σ)}
    (shows : List.Forall₂ (fun stack sample => ∃ count, sample.Shows source profile stack count)
      stackList profile.sample) {symbol : σ} {loc : Nat} (member : (symbol, loc) ∈ profile.placed stackList) :
    profile.showLocation loc = some [source.shown symbol] := by
  obtain ⟨⟨stack, sample⟩, inSamples, inStack⟩ := List.mem_flatMap.mp member
  obtain ⟨count, shown⟩ := (List.forall₂_iff_zip.mp shows).2 inSamples
  have each : List.Forall₂ (fun symbol loc => profile.showLocation loc = some [source.shown symbol])
      stack sample.locationId := by
    have both := List.forall₂_eq_eq_eq ▸ shown.stack
    exact (List.forall₂_map_left_iff.mp (List.forall₂_map_right_iff.mp both)).flip
  exact (List.forall₂_iff_zip.mp each).2 inStack

/-- A profile is faithful to its frames exactly if symbols with the same name agree and every
count is an `i64`. -/
theorem faithful_iff {overflowChecks : Bool} {order : List String} {frames : List (List σ × UInt64)}
    {frequency timeNanos durationNanos : Int64} {profile : Profile}
    (iteration : IterationOf order (source.dedupStr frames))
    (built : source.build overflowChecks order frames frequency timeNanos durationNanos = some profile) :
    Faithful source frames profile ↔
      source.Agree (frames.flatMap Prod.fst) ∧ ∀ frame ∈ frames, frame.2.toNat < 2 ^ 63 := by
  have sampled := (samples_of_build iteration built).2
  have shows := forall₂_iff_forall ((List.forall₂_and_left frames _).mpr ⟨fun _ member => member, sampled⟩)
    fun frame sample both => sample_shows_iff iteration built both.1 both.2 frame.1 frame.2.toNat
  simp only [List.map_inj_left, toInt_toInt64_eq_iff] at shows
  rw [← forall_firstNamed_iff]
  constructor
  · intro faithful
    have each := shows.mp faithful.samples
    refine ⟨?_, fun frame member => (each frame member).2⟩
    intro symbol member
    obtain ⟨frame, inFrames, inStack⟩ := List.mem_flatMap.mp member
    exact (each frame inFrames).1 symbol inStack
  · rintro ⟨agree, small⟩
    have samples := shows.mpr fun frame member =>
      ⟨fun symbol inside => agree symbol (List.mem_flatMap.mpr ⟨frame, member, inside⟩), small frame member⟩
    refine ⟨samples, ?_⟩
    intro a b loc inA inB
    have listed : List.Forall₂ (fun stack sample => ∃ count, sample.Shows source profile stack count)
        (frames.map Prod.fst) profile.sample :=
      List.forall₂_map_left_iff.mpr (samples.imp fun frame sample shows => ⟨frame.2.toNat, shows⟩)
    have same := (showLocation_of_placed listed inA).symm.trans (showLocation_of_placed listed inB)
    exact List.singleton_inj.mp (Option.some.inj same)

end Build

end PprofProtos
