import CkbDebugger.PprofProtos.Meaning

/-!
# The time values of a profile

The second value of a sample is the time that its count stands for. It is computed with a
product of two `i64`, which is exact only when it fits, although the quotient may be small.
-/
namespace PprofProtos

/-- The time of a count in nanoseconds, over the integers. -/
def exactTime (frequency : Int64) (count : UInt64) : Int := count.toNat * 1000000000 / frequency.toInt

/-- The second value of a sample. -/
def Sample.time (sample : Sample) : Option Int := sample.value[1]?.map Int64.toInt

/-- The times of the samples are those of the frames' counts; they are not negative and grow with
the count. -/
structure TimesExact {σ : Type} (frames : List (List σ × UInt64)) (frequency : Int64) (profile : Profile) :
    Prop where
  exact : List.Forall₂ (fun frame sample => sample.time = some (exactTime frequency frame.2)) frames profile.sample
  nonnegative : ∀ sample ∈ profile.sample, ∀ time ∈ sample.time, 0 ≤ time
  monotone : ∀ few ∈ frames.zip profile.sample, ∀ many ∈ frames.zip profile.sample, few.1.2 ≤ many.1.2 →
    ∀ short ∈ few.2.time, ∀ long ∈ many.2.time, short ≤ long

/-- The time of a count is computed: neither the product nor the quotient panics. -/
def Computes (overflowChecks : Bool) (frequency : Int64) (count : UInt64) : Prop :=
  (overflowChecks = true → MulFits count.toInt64 1000000000) ∧
    ¬(count.toInt64 * 1000000000 = Int64.minValue ∧ frequency = -1)

instance (overflowChecks : Bool) (frequency : Int64) (count : UInt64) :
    Decidable (Computes overflowChecks frequency count) := inferInstanceAs (Decidable (_ ∧ ¬_))

/-! ### The wrapped product -/

/-- A product that wraps gives another quotient: it is at least a whole divisor too small. -/
theorem bmod_tdiv_eq_iff (product divisor : Int) (nonnegative : 0 ≤ product) (positive : 0 < divisor)
    (small : divisor < 2 ^ 63) : (product.bmod (2 ^ 64)).tdiv divisor = product / divisor ↔ product < 2 ^ 63 := by
  constructor
  · intro same
    by_contra large
    have wrapped : product.bmod (2 ^ 64) + divisor ≤ product := by
      rw [Int.bmod_def]
      omega
    have quotient : 1 ≤ product / divisor := (Int.le_ediv_iff_mul_le positive).mpr (by omega)
    by_cases negative : product.bmod (2 ^ 64) < 0
    · have below : 0 ≤ (-(product.bmod (2 ^ 64))).tdiv divisor :=
        Int.tdiv_nonneg (by omega) (Int.le_of_lt positive)
      rw [Int.neg_tdiv] at below
      omega
    · rw [Int.tdiv_eq_ediv_of_nonneg (by omega)] at same
      have less : (product.bmod (2 ^ 64) + divisor) / divisor ≤ product / divisor :=
        Int.ediv_le_ediv positive wrapped
      rw [Int.add_ediv_of_dvd_right (Int.dvd_refl divisor), Int.ediv_self (by omega)] at less
      omega
  · intro fits
    have exact : product.bmod (2 ^ 64) = product := by
      rw [Int.bmod_def]
      omega
    rw [exact, Int.tdiv_eq_ediv_of_nonneg nonnegative]

theorem toInt_product (count : UInt64) :
    (count.toInt64 * 1000000000).toInt = ((count.toNat * 1000000000 : Nat) : Int).bmod (2 ^ 64) := by
  rw [Int64.toInt_mul, toInt_toInt64]
  simp

theorem mulFits_of_small {count : UInt64} (small : count.toNat * 1000000000 < 2 ^ 63) :
    MulFits count.toInt64 1000000000 := by
  have billion : (1000000000 : Int64).toInt = 1000000000 := by decide
  rw [MulFits, toInt_product, (toInt_toInt64_eq_iff count).mpr (by omega), billion, Int.bmod_def]
  omega

theorem exists_values_iff (overflowChecks : Bool) {frequency : Int64} (nonzero : frequency ≠ 0) (count : UInt64) :
    (∃ value, Source.values overflowChecks frequency count = some value) ↔
      Computes overflowChecks frequency count := by
  by_cases overflows : overflowChecks = true ∧ ¬MulFits count.toInt64 1000000000
  · have failed : Source.values overflowChecks frequency count = none := by
      simp [Source.values, mulI64, overflows]
    rw [failed]
    exact iff_of_false (by simp) fun both => overflows.2 (both.1 overflows.1)
  · have product : mulI64 overflowChecks count.toInt64 1000000000 = some (count.toInt64 * 1000000000) :=
      if_neg overflows
    have fits : overflowChecks = true → MulFits count.toInt64 1000000000 := by simpa using overflows
    by_cases quotient : count.toInt64 * 1000000000 = Int64.minValue ∧ frequency = -1
    · refine iff_of_false ?_ fun computes => computes.2 quotient
      simp [Source.values, product, divI64, quotient]
    · refine iff_of_true ?_ ⟨fits, quotient⟩
      simp [Source.values, product, divI64, quotient, nonzero]

section Build

variable {σ : Type} {source : Source σ}

/-- The second value of a sample is the exact time exactly if the product fits. -/
theorem sample_time_iff {overflowChecks : Bool} {frequency : Int64} (positive : 0 < frequency) {firsts : List σ}
    {frame : List σ × UInt64} {sample : Sample}
    (made : sampleOf source overflowChecks frequency firsts frame = some sample) :
    sample.time = some (exactTime frequency frame.2) ↔ frame.2.toNat * 1000000000 < 2 ^ 63 := by
  obtain ⟨value, computed, rfl⟩ := Option.map_eq_some_iff.mp made
  have above : 0 < frequency.toInt := Int64.lt_iff_toInt_lt.mp positive
  have other : frequency ≠ -1 := by
    rintro rfl
    exact absurd positive (by decide)
  unfold Source.values mulI64 at computed
  split at computed
  next overflows =>
    split at overflows
    · cases computed
    · cases overflows
  next product known =>
    split at known
    · cases known
    · cases known
      rw [divI64_of_pos _ _ positive, Option.map_some] at computed
      cases computed
      have quotient := bmod_tdiv_eq_iff ((frame.2.toNat * 1000000000 : Nat) : Int) frequency.toInt
        (Int.natCast_nonneg _) above frequency.toInt_lt
      simp only [Sample.time, List.getElem?_cons_succ, List.getElem?_cons_zero, Option.map_some,
        Option.some.injEq, Int64.toInt_div_of_ne_right _ _ other, toInt_product]
      rw [exactTime, show (frame.2.toNat : Int) * 1000000000 = (frame.2.toNat * 1000000000 : Nat) by simp, quotient]
      omega

theorem timesExact_of_exact {frames : List (List σ × UInt64)} {frequency : Int64} (positive : 0 < frequency)
    {profile : Profile} (exact : List.Forall₂ (fun frame sample =>
      sample.time = some (exactTime frequency frame.2)) frames profile.sample) :
    TimesExact frames frequency profile := by
  have above : 0 < frequency.toInt := Int64.lt_iff_toInt_lt.mp positive
  have paired : ∀ {frame sample}, (frame, sample) ∈ frames.zip profile.sample →
      sample.time = some (exactTime frequency frame.2) := (List.forall₂_iff_zip.mp exact).2
  refine ⟨exact, ?_, ?_⟩
  · have each : List.Forall₂ (fun sample _ => ∀ time ∈ sample.time, 0 ≤ time) profile.sample frames := by
      refine exact.flip.imp fun sample frame same time known => ?_
      rw [same, Option.mem_some_iff] at known
      rw [← known, exactTime]
      exact Int.ediv_nonneg (by omega) (Int.le_of_lt above)
    exact (forall₂_iff_forall (P := fun sample => ∀ time ∈ sample.time, 0 ≤ time) each fun _ _ _ => Iff.rfl).mp each
  · intro few fewIn many manyIn fewer short shortTime long longTime
    rw [paired fewIn, Option.mem_some_iff] at shortTime
    rw [paired manyIn, Option.mem_some_iff] at longTime
    rw [← shortTime, ← longTime, exactTime, exactTime]
    have counts : few.1.2.toNat ≤ many.1.2.toNat := UInt64.le_iff_toNat_le.mp fewer
    exact Int.ediv_le_ediv above (by omega)

theorem samples_exact_iff {overflowChecks : Bool} {order : List String} {frames : List (List σ × UInt64)}
    {frequency timeNanos durationNanos : Int64} {profile : Profile} (positive : 0 < frequency)
    (iteration : IterationOf order (source.dedupStr frames))
    (built : source.build overflowChecks order frames frequency timeNanos durationNanos = some profile) :
    List.Forall₂ (fun frame sample => sample.time = some (exactTime frequency frame.2)) frames profile.sample ↔
      ∀ frame ∈ frames, frame.2.toNat * 1000000000 < 2 ^ 63 :=
  forall₂_iff_forall (samples_of_build iteration built).2 fun _ _ made => sample_time_iff positive made

/-- The builder returns a profile with exact times exactly if every product fits. -/
theorem exists_timesExact_iff (overflowChecks : Bool) {order : List String} {frames : List (List σ × UInt64)}
    {frequency : Int64} (timeNanos durationNanos : Int64) (positive : 0 < frequency)
    (iteration : IterationOf order (source.dedupStr frames)) :
    (∃ profile, source.build overflowChecks order frames frequency timeNanos durationNanos = some profile ∧
      TimesExact frames frequency profile) ↔ ∀ frame ∈ frames, frame.2.toNat * 1000000000 < 2 ^ 63 := by
  constructor
  · rintro ⟨profile, built, exact⟩
    exact (samples_exact_iff positive iteration built).mp exact.exact
  · intro small
    obtain ⟨profile, built, -⟩ := build_valid overflowChecks timeNanos durationNanos iteration positive
      fun frame member => mulFits_of_small (small frame member)
    exact ⟨profile, built, timesExact_of_exact positive ((samples_exact_iff positive iteration built).mpr small)⟩

end Build

end PprofProtos
