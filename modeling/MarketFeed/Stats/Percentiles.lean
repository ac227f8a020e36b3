import MarketFeed.Stats.LatencyTracker
import MarketFeed.Stats.Rounding

/-!
# What `get_stats` returns

`get_stats` reads the counters and asks `percentile_from_histogram` for four
percentiles. Each percentile walks the histogram until the cumulative count
reaches its target `(uint64_t)((p / 100.0) * total)`, and answers with that
bucket's midpoint, or with `max_` when the buckets never reach the target.

Targets grow with `p` and never exceed the sample count (`percentileTarget_mono`,
`percentileTarget_le`), and the scan is monotone in its target
(`firstReaching_mono`). After any samples recorded since a reset, every counter
of the tracker is read off the samples (`Summarizes.recordAll`). So over fewer
than 2^64 samples the four percentiles are ordered, and each is at most half a
bucket above the largest sample (`Summarizes.percentile_le`, `get_stats_ordered`). A midpoint can lie above every
sample, so `max + 500` is the bound and not `max`; the mean lies between `min`
and `max` only while the sum has not wrapped.
-/

namespace MarketFeed.Stats

open MarketFeed.Protocol (uint64_ofNat_add sum_range_indicator)

/-- `LatencyStats`, with the defaults of its declaration. -/
structure LatencyStats where
  min : UInt64 := uint64Max
  max : UInt64 := 0
  mean : UInt64 := 0
  p50 : UInt64 := 0
  p95 : UInt64 := 0
  p99 : UInt64 := 0
  p999 : UInt64 := 0
  sampleCount : UInt64 := 0
  deriving DecidableEq, Repr

/-! ### The arithmetic of the target -/

/-- The argument `50.0`, a double in `[32, 128)`, times `2^46`. -/
def percentile50 : Nat := 50 * 2 ^ 46

/-- The argument `95.0`, times `2^46`. -/
def percentile95 : Nat := 95 * 2 ^ 46

/-- The argument `99.0`, times `2^46`. -/
def percentile99 : Nat := 99 * 2 ^ 46

/-- The argument `99.9`, the double nearest `999/10`; in `[64, 128)` a double's
last place is worth `2^-46`. -/
def percentile999 : Nat := roundNearestEven (999 * 2 ^ 46) 10

/-- `percentile / 100.0` times `2^53`, for an argument in `[50, 100)` given
times `2^46`: the quotient lies in `[0.5, 1)`, where a double's last place is
worth `2^-53`. -/
def percentileRatio (percentile : Nat) : Nat :=
  roundNearestEven (percentile * 2 ^ 53) (100 * 2 ^ 46)

/-- `static_cast<uint64_t>((percentile / 100.0) * total)`: `total` becomes a
double, the product is rounded to a double, and the cast truncates. -/
def percentileTarget (percentile total : Nat) : Nat :=
  roundToDouble (percentileRatio percentile * roundToDouble total) / 2 ^ 53

/-! ### The walk over the histogram -/

/-- The loop of `percentile_from_histogram` over the buckets `is`, from the
cumulative count `cumulative`: the first bucket where it reaches `target`. -/
def scanBuckets (histogram : Nat → UInt64) (target : UInt64) : List Nat → UInt64 → Option Nat
  | [], _ => none
  | i :: is, cumulative =>
    if target ≤ cumulative + histogram i then some i
    else scanBuckets histogram target is (cumulative + histogram i)

/-- `percentile_from_histogram(percentile)`, the argument given times `2^46`. -/
def LatencyTracker.percentileFromHistogram (t : LatencyTracker) (percentile : Nat) : UInt64 :=
  if t.sampleCount = 0 then 0
  else
    match scanBuckets t.histogram (.ofNat (percentileTarget percentile t.sampleCount.toNat))
        (List.range numBuckets) 0 with
    | some i => .ofNat i * bucketWidthNs + bucketWidthNs / 2
    | none => t.max

/-- `get_stats()`. -/
def LatencyTracker.getStats (t : LatencyTracker) : LatencyStats :=
  if t.sampleCount = 0 then { sampleCount := t.sampleCount, min := 0 }
  else
    { sampleCount := t.sampleCount, min := t.min, max := t.max, mean := t.sum / t.sampleCount,
      p50 := t.percentileFromHistogram percentile50,
      p95 := t.percentileFromHistogram percentile95,
      p99 := t.percentileFromHistogram percentile99,
      p999 := t.percentileFromHistogram percentile999 }

/-- `record(x)` for each sample of `xs` in turn. -/
def LatencyTracker.recordAll (t : LatencyTracker) (xs : List UInt64) : LatencyTracker :=
  xs.foldl LatencyTracker.record t

/-- What `get_stats()` returns once the samples `xs` are recorded after a reset. -/
def statsOf (xs : List UInt64) : LatencyStats := (LatencyTracker.init.recordAll xs).getStats

/-! ### The targets -/

/-- The four quotients, in order and below one by more than two units in the last place. -/
theorem percentileRatio_ordered :
    percentileRatio percentile50 ≤ percentileRatio percentile95 ∧
      percentileRatio percentile95 ≤ percentileRatio percentile99 ∧
      percentileRatio percentile99 ≤ percentileRatio percentile999 ∧
      percentileRatio percentile999 + 2 ≤ 2 ^ 53 := by
  decide

theorem roundToDouble_le_of_lt {N : Nat} (h : N < 2 ^ 64) : roundToDouble N ≤ 2 ^ 64 := by
  have hN : N < 2 ^ 117 := lt_of_lt_of_le h (Nat.pow_le_pow_right (by decide) (by decide))
  have hd : droppedBits N 64 ≤ 11 := by
    rcases Nat.eq_zero_or_pos (droppedBits N 64) with hz | hz
    · omega
    have hs := (droppedBits_spec N 64 hN).2 hz
    have h1 : 2 ^ (52 + droppedBits N 64) ≤ N := by
      rw [Nat.pow_add]
      exact (Nat.mul_le_mul_right _ hs).trans (Nat.div_mul_le_self _ _)
    have := (Nat.pow_lt_pow_iff_right (by decide : 1 < 2)).mp (lt_of_le_of_lt h1 h)
    omega
  exact (roundToDouble_le_pow hN).trans (Nat.pow_le_pow_right (by decide) (by omega))

theorem ratio_mul_lt {Q N : Nat} (hQ : Q < 2 ^ 53) (hN : N < 2 ^ 64) :
    Q * roundToDouble N < 2 ^ 117 :=
  calc Q * roundToDouble N ≤ Q * 2 ^ 64 := Nat.mul_le_mul_left _ (roundToDouble_le_of_lt hN)
    _ < 2 ^ 53 * 2 ^ 64 := Nat.mul_lt_mul_of_pos_right hQ (Nat.two_pow_pos _)
    _ = 2 ^ 117 := by rw [← Nat.pow_add]

/-- A larger percentile has a target no smaller. -/
theorem percentileTarget_mono {p q N : Nat} (h : percentileRatio p ≤ percentileRatio q)
    (hq : percentileRatio q < 2 ^ 53) (hN : N < 2 ^ 64) :
    percentileTarget p N ≤ percentileTarget q N :=
  Nat.div_le_div_right (roundToDouble_mono (Nat.mul_le_mul_right _ h) (ratio_mul_lt hq hN))

/-- Before rounding, the product stays below `2^53` times `total` rounded down
to a double. -/
theorem ratio_mul_le {Q N : Nat} (hQ : Q + 2 ≤ 2 ^ 53) (hN : N < 2 ^ 64) :
    Q * roundToDouble N ≤ 2 ^ 53 * (N / 2 ^ droppedBits N 64 * 2 ^ droppedBits N 64) := by
  have hN' : N < 2 ^ 117 := lt_of_lt_of_le hN (Nat.pow_le_pow_right (by decide) (by decide))
  rcases Nat.eq_zero_or_pos (droppedBits N 64) with hz | hz
  · have hlt : N < 2 ^ 53 := Nat.not_le.mp fun h => absurd hz (droppedBits_pos h 63).ne'
    rw [roundToDouble_of_lt hlt, hz, Nat.pow_zero, Nat.div_one, Nat.mul_one]
    exact Nat.mul_le_mul_right _ (by omega)
  · set u := 2 ^ droppedBits N 64
    set F := N / u * u
    have hR : roundToDouble N ≤ F + u := by
      rw [roundToDouble, ← Nat.succ_mul]
      exact Nat.mul_le_mul_right _ (roundNearestEven_le N u)
    have hF : 2 ^ 52 * u ≤ F := Nat.mul_le_mul_right _ ((droppedBits_spec N 64 hN').2 hz)
    calc Q * roundToDouble N ≤ Q * (F + u) := Nat.mul_le_mul_left _ hR
      _ = Q * F + Q * u := Nat.mul_add _ _ _
      _ ≤ Q * F + 2 * F := by
        refine Nat.add_le_add_left ?_ _
        calc Q * u ≤ 2 ^ 53 * u := Nat.mul_le_mul_right _ (by omega)
          _ = 2 * (2 ^ 52 * u) := by rw [← Nat.mul_assoc]; rfl
          _ ≤ 2 * F := Nat.mul_le_mul_left _ hF
      _ = (Q + 2) * F := (Nat.add_mul _ _ _).symm
      _ ≤ 2 ^ 53 * F := Nat.mul_le_mul_right _ hQ

/-- **A target never exceeds the sample count.** -/
theorem percentileTarget_le {p N : Nat} (hp : percentileRatio p + 2 ≤ 2 ^ 53) (hN : N < 2 ^ 64) :
    percentileTarget p N ≤ N := by
  have hs := (droppedBits_spec N 64 (lt_of_lt_of_le hN (Nat.pow_le_pow_right (by decide) (by decide)))).1
  have hF : N / 2 ^ droppedBits N 64 * 2 ^ droppedBits N 64 ≤ N := Nat.div_mul_le_self _ _
  have e : 2 ^ 53 * (N / 2 ^ droppedBits N 64 * 2 ^ droppedBits N 64) =
      N / 2 ^ droppedBits N 64 * 2 ^ (53 + droppedBits N 64) := by
    rw [Nat.pow_add]; ring
  have hlt : N / 2 ^ droppedBits N 64 * 2 ^ (53 + droppedBits N 64) < 2 ^ 117 := by
    rw [← e]
    calc 2 ^ 53 * (N / 2 ^ droppedBits N 64 * 2 ^ droppedBits N 64) < 2 ^ 53 * 2 ^ 64 :=
          Nat.mul_lt_mul_of_pos_left (lt_of_le_of_lt hF hN) (Nat.two_pow_pos _)
      _ = 2 ^ 117 := by rw [← Nat.pow_add]
  have hround := roundToDouble_mono (ratio_mul_le hp hN) (e ▸ hlt)
  rw [e, roundToDouble_exact hs hlt, ← e] at hround
  exact (Nat.div_le_of_le_mul hround).trans hF

/-! ### The walk, on natural numbers -/

/-- `scanBuckets` with counts that do not wrap. -/
def firstReaching (count : Nat → Nat) (target : Nat) : List Nat → Nat → Option Nat
  | [], _ => none
  | i :: is, cumulative =>
    if target ≤ cumulative + count i then some i
    else firstReaching count target is (cumulative + count i)

theorem scanBuckets_eq (histogram : Nat → UInt64) (target : UInt64) (is : List Nat)
    (cumulative : UInt64)
    (h : cumulative.toNat + (is.map fun i => (histogram i).toNat).sum < 2 ^ 64) :
    scanBuckets histogram target is cumulative =
      firstReaching (fun i => (histogram i).toNat) target.toNat is cumulative.toNat := by
  induction is generalizing cumulative with
  | nil => rfl
  | cons i is ih =>
    rw [List.map_cons, List.sum_cons] at h
    have e : (cumulative + histogram i).toNat = cumulative.toNat + (histogram i).toNat := by
      rw [UInt64.toNat_add]; exact Nat.mod_eq_of_lt (by change _ < 2 ^ 64; omega)
    rw [scanBuckets, firstReaching, ← e, ih _ (by rw [e]; omega)]
    rfl

theorem firstReaching_mem {c : Nat → Nat} {t : Nat} {is : List Nat} {cum i : Nat}
    (h : firstReaching c t is cum = some i) : i ∈ is := by
  induction is generalizing cum with
  | nil => cases h
  | cons k is ih =>
    rw [firstReaching] at h
    split_ifs at h
    · cases h; exact List.mem_cons_self _ _
    · exact List.mem_cons_of_mem _ (ih h)

/-- A bucket reached from below is not empty. -/
theorem firstReaching_pos {c : Nat → Nat} {t : Nat} {is : List Nat} {cum i : Nat}
    (h : firstReaching c t is cum = some i) (hlt : cum < t) : 0 < c i := by
  induction is generalizing cum with
  | nil => cases h
  | cons k is ih =>
    rw [firstReaching] at h
    split_ifs at h with hk
    · cases h; omega
    · exact ih h (by omega)

/-- A target never reached exceeds every bucket together. -/
theorem firstReaching_none {c : Nat → Nat} {t : Nat} {is : List Nat} {cum : Nat}
    (h : firstReaching c t is cum = none) (hne : is ≠ []) : cum + (is.map c).sum < t := by
  induction is generalizing cum with
  | nil => exact absurd rfl hne
  | cons k is ih =>
    rw [firstReaching] at h
    split_ifs at h with hk
    rw [List.map_cons, List.sum_cons]
    by_cases hnil : is = []
    · subst hnil; simp only [List.map_nil, List.sum_nil]; omega
    · have := ih h hnil
      omega

/-- **The walk is monotone in its target.** -/
theorem firstReaching_mono {c : Nat → Nat} {t t' : Nat} {is : List Nat} (hs : is.Pairwise (· < ·))
    (ht : t ≤ t') {cum i : Nat} (h : firstReaching c t' is cum = some i) :
    ∃ j, firstReaching c t is cum = some j ∧ j ≤ i := by
  induction is generalizing cum with
  | nil => cases h
  | cons k is ih =>
    rw [List.pairwise_cons] at hs
    rw [firstReaching] at h ⊢
    by_cases hk : t ≤ cum + c k
    · rw [if_pos hk]
      refine ⟨k, rfl, ?_⟩
      split_ifs at h
      · cases h; exact Nat.le_refl _
      · exact (hs.1 i (firstReaching_mem h)).le
    · rw [if_neg hk, if_neg (by omega)] at *
      exact ih hs.2 h

/-! ### The tracker after a run of samples -/

theorem LatencyTracker.addToBucket_histogram (t : LatencyTracker) (x : UInt64) (n : Nat) :
    (t.addToBucket x).histogram n =
      t.histogram n + if x < maxTrackedNs ∧ bucketOf x = n then 1 else 0 := by
  unfold addToBucket
  by_cases hx : x < maxTrackedNs
  · by_cases hn : bucketOf x = n
    · subst hn; simp [hx]
    · simp [hx, hn, Function.update_noteq (Ne.symm hn)]
  · simp [hx]

theorem LatencyTracker.addToBucket_overflowCount (t : LatencyTracker) (x : UInt64) :
    (t.addToBucket x).overflowCount = t.overflowCount + if maxTrackedNs ≤ x then 1 else 0 := by
  unfold addToBucket
  by_cases hx : x < maxTrackedNs
  · have : ¬maxTrackedNs ≤ x := fun h => by rw [uint64_le_iff] at h; rw [uint64_lt_iff] at hx; omega
    simp [hx, this]
  · have : maxTrackedNs ≤ x := by rw [uint64_le_iff]; rw [uint64_lt_iff] at hx; omega
    simp [hx, this]

@[simp] theorem LatencyTracker.record_sampleCount (t : LatencyTracker) (x : UInt64) :
    (t.record x).sampleCount = t.sampleCount + 1 := by
  simp only [record, addToBucket_sampleCount]
  split_ifs <;> rfl

@[simp] theorem LatencyTracker.record_sum (t : LatencyTracker) (x : UInt64) :
    (t.record x).sum = t.sum + x := by
  simp only [record, addToBucket_sum]
  split_ifs <;> rfl

theorem LatencyTracker.record_min (t : LatencyTracker) (x : UInt64) :
    (t.record x).min = if x < t.min then x else t.min := by
  simp only [record, addToBucket_min]
  split_ifs <;> rfl

theorem LatencyTracker.record_max (t : LatencyTracker) (x : UInt64) :
    (t.record x).max = if t.max < x then x else t.max := by
  simp only [record, addToBucket_max]
  split_ifs <;> rfl

theorem LatencyTracker.record_histogram (t : LatencyTracker) (x : UInt64) (n : Nat) :
    (t.record x).histogram n =
      t.histogram n + if x < maxTrackedNs ∧ bucketOf x = n then 1 else 0 := by
  simp only [record, addToBucket_histogram]
  split_ifs <;> rfl

theorem LatencyTracker.record_overflowCount (t : LatencyTracker) (x : UInt64) :
    (t.record x).overflowCount = t.overflowCount + if maxTrackedNs ≤ x then 1 else 0 := by
  simp only [record, addToBucket_overflowCount]
  split_ifs <;> rfl

/-- Every counter of the tracker read off the samples recorded. -/
structure Summarizes (t : LatencyTracker) (xs : List UInt64) : Prop where
  count : t.sampleCount = .ofNat xs.length
  sum : t.sum = .ofNat (xs.map UInt64.toNat).sum
  min : t.min.toNat = (xs.map UInt64.toNat).foldl min (2 ^ 64 - 1)
  max : t.max.toNat = (xs.map UInt64.toNat).foldl max 0
  histogram : ∀ n, t.histogram n = .ofNat (xs.countP fun x => x < maxTrackedNs ∧ bucketOf x = n)
  overflow : t.overflowCount = .ofNat (xs.countP fun x => maxTrackedNs ≤ x)

theorem summarizes_init : Summarizes .init [] :=
  ⟨rfl, rfl, rfl, rfl, fun _ => rfl, rfl⟩

theorem uint64_ofNat_toNat (x : UInt64) : UInt64.ofNat x.toNat = x :=
  UInt64.toNat.inj (UInt64.toNat_ofNat_of_lt x.toNat_lt_size)

/-- **One sample.** -/
theorem Summarizes.record {t : LatencyTracker} {xs : List UInt64} (h : Summarizes t xs) (x : UInt64) :
    Summarizes (t.record x) (xs ++ [x]) := by
  refine ⟨?_, ?_, ?_, ?_, fun n => ?_, ?_⟩
  · rw [LatencyTracker.record_sampleCount, h.count, List.length_append, List.length_singleton,
      uint64_ofNat_add]; rfl
  · rw [LatencyTracker.record_sum, h.sum, List.map_append, List.sum_append, uint64_ofNat_add,
      List.map_singleton, List.sum_singleton, uint64_ofNat_toNat]
  · rw [LatencyTracker.record_min, List.map_append, List.foldl_append, ← h.min]
    simp only [List.map_singleton, List.foldl_cons, List.foldl_nil, Nat.min_def]
    split_ifs <;> simp only [uint64_lt_iff] at * <;> omega
  · rw [LatencyTracker.record_max, List.map_append, List.foldl_append, ← h.max]
    simp only [List.map_singleton, List.foldl_cons, List.foldl_nil, Nat.max_def]
    split_ifs <;> simp only [uint64_lt_iff] at * <;> omega
  · rw [LatencyTracker.record_histogram, h.histogram, List.countP_append, List.countP_singleton,
      uint64_ofNat_add]
    split_ifs <;> simp_all
  · rw [LatencyTracker.record_overflowCount, h.overflow, List.countP_append, List.countP_singleton,
      uint64_ofNat_add]
    by_cases hx : maxTrackedNs ≤ x <;> simp [hx]

theorem Summarizes.recordAll {t : LatencyTracker} {xs : List UInt64} (h : Summarizes t xs)
    (ys : List UInt64) : Summarizes (t.recordAll ys) (xs ++ ys) := by
  induction ys generalizing t xs with
  | nil => simpa [LatencyTracker.recordAll] using h
  | cons y ys ih =>
    have := ih (h.record y)
    rwa [List.append_assoc, List.singleton_append] at this

/-! ### Reading the statistics -/

/-- A walk with target `0` stops at the first bucket. -/
theorem firstReaching_range_zero (c : Nat → Nat) (n : Nat) :
    firstReaching c 0 (List.range (n + 1)) 0 = some 0 := by
  rw [List.range_succ_eq_map, firstReaching, if_pos (Nat.zero_le _)]

/-- From a nonempty range, a walk ends at bucket `0` or at a bucket with samples. -/
theorem firstReaching_range {c : Nat → Nat} {t n i : Nat}
    (h : firstReaching c t (List.range n) 0 = some i) : i = 0 ∨ 0 < c i := by
  rcases Nat.eq_zero_or_pos t with rfl | ht
  · obtain _ | n := n
    · cases h
    · exact .inl (Option.some.inj ((firstReaching_range_zero c n).symm.trans h)).symm
  · exact .inr (firstReaching_pos h ht)

/-- The midpoint of bucket `i` does not wrap. -/
theorem midpoint_toNat {i : Nat} (hi : i < 1000) :
    (UInt64.ofNat i * bucketWidthNs + bucketWidthNs / 2).toNat = 1000 * i + 500 := by
  have hw : bucketWidthNs.toNat = 1000 := rfl
  have hw2 : (bucketWidthNs / 2).toNat = 500 := rfl
  have hs : UInt64.size = 2 ^ 64 := rfl
  rw [UInt64.toNat_add, UInt64.toNat_mul, UInt64.toNat_ofNat_of_lt (by omega), hw, hw2, hs]
  omega

section Read

variable {t : LatencyTracker} {xs : List UInt64} (h : Summarizes t xs)
include h

theorem Summarizes.min_le {y : UInt64} (hy : y ∈ xs) : t.min.toNat ≤ y.toNat := by
  rw [h.min, List.foldl_min]
  exact (Nat.min_le_right _ _).trans (List.min?_getD_le_of_mem (List.mem_map_of_mem _ hy))

theorem Summarizes.le_max {y : UInt64} (hy : y ∈ xs) : y.toNat ≤ t.max.toNat := by
  rw [h.max, List.foldl_max]
  exact (List.le_max?_getD_of_mem (List.mem_map_of_mem _ hy)).trans (Nat.le_max_right _ _)

variable (hlen : xs.length < 2 ^ 64)
include hlen

theorem Summarizes.count_toNat : t.sampleCount.toNat = xs.length := by
  rw [h.count]; exact Nat.mod_eq_of_lt hlen

theorem Summarizes.sampleCount_ne_zero (hne : xs ≠ []) : t.sampleCount ≠ 0 :=
  fun e => hne (List.length_eq_zero.mp (by rw [← h.count_toNat hlen, e]; rfl))

theorem Summarizes.histogram_toNat (n : Nat) :
    (t.histogram n).toNat = xs.countP fun x => x < maxTrackedNs ∧ bucketOf x = n := by
  rw [h.histogram]; exact Nat.mod_eq_of_lt (lt_of_le_of_lt (List.countP_le_length _) hlen)

/-- A bucket with a sample lies below the largest sample. -/
theorem Summarizes.bucket_le_max {n : Nat} (hn : 0 < (t.histogram n).toNat) :
    1000 * n ≤ t.max.toNat := by
  rw [h.histogram_toNat hlen, List.countP_pos_iff] at hn
  obtain ⟨x, hx, hb⟩ := hn
  simp only [decide_eq_true_eq] at hb
  have hbx : x.toNat / 1000 = n := by simpa [bucketOf, UInt64.toNat_div] using hb.2
  exact (by omega : 1000 * n ≤ x.toNat).trans (h.le_max hx)

/-- The walk of `percentile_from_histogram`, on the counts as numbers. -/
theorem Summarizes.percentileFromHistogram_eq (hne : xs ≠ []) (p : Nat)
    (hp : percentileRatio p + 2 ≤ 2 ^ 53) :
    t.percentileFromHistogram p =
      match firstReaching (fun n => (t.histogram n).toNat) (percentileTarget p xs.length)
          (List.range numBuckets) 0 with
      | some i => .ofNat i * bucketWidthNs + bucketWidthNs / 2
      | none => t.max := by
  have hT : (UInt64.ofNat (percentileTarget p xs.length)).toNat = percentileTarget p xs.length :=
    Nat.mod_eq_of_lt (lt_of_le_of_lt (percentileTarget_le hp hlen) hlen)
  have hsum : (0 : UInt64).toNat + ((List.range numBuckets).map fun i => (t.histogram i).toNat).sum <
      2 ^ 64 := by
    have e := buckets_add_overflow xs
    simp only [h.histogram_toNat hlen]
    change 0 + _ < _
    omega
  rw [LatencyTracker.percentileFromHistogram, if_neg (h.sampleCount_ne_zero hlen hne),
    h.count_toNat hlen, scanBuckets_eq _ _ _ _ hsum, hT,
    UInt64.toNat_zero]

/-- A walk that stops at bucket `i` answers with its midpoint. -/
theorem Summarizes.percentile_of_some (hne : xs ≠ []) {p i : Nat}
    (hp : percentileRatio p + 2 ≤ 2 ^ 53)
    (hr : firstReaching (fun n => (t.histogram n).toNat) (percentileTarget p xs.length)
      (List.range numBuckets) 0 = some i) :
    (t.percentileFromHistogram p).toNat = 1000 * i + 500 := by
  rw [h.percentileFromHistogram_eq hlen hne p hp, hr]
  exact midpoint_toNat (List.mem_range.mp (firstReaching_mem hr))

/-- A walk that never reaches its target answers with `max_`. -/
theorem Summarizes.percentile_of_none (hne : xs ≠ []) {p : Nat}
    (hp : percentileRatio p + 2 ≤ 2 ^ 53)
    (hr : firstReaching (fun n => (t.histogram n).toNat) (percentileTarget p xs.length)
      (List.range numBuckets) 0 = none) :
    t.percentileFromHistogram p = t.max := by
  rw [h.percentileFromHistogram_eq hlen hne p hp, hr]

/-- A walk that never reaches its target has passed fewer samples than there
are, so one of them overflowed: the largest is at least `MAX_TRACKED_NS`. -/
theorem Summarizes.overflow_of_none {p : Nat} (hp : percentileRatio p + 2 ≤ 2 ^ 53)
    (hr : firstReaching (fun n => (t.histogram n).toNat) (percentileTarget p xs.length)
      (List.range numBuckets) 0 = none) :
    1000000 ≤ t.max.toNat := by
  have hlow := firstReaching_none hr (by simp [numBuckets])
  have hle := percentileTarget_le hp hlen
  have e := buckets_add_overflow xs
  simp only [h.histogram_toNat hlen] at hlow
  obtain ⟨x, hx, hover⟩ :=
    List.countP_pos_iff.mp (by omega : 0 < xs.countP fun x => maxTrackedNs ≤ x)
  exact le_trans (by simpa [uint64_le_iff, maxTrackedNs] using hover) (h.le_max hx)

/-- **Percentiles are ordered and half a bucket above the samples at most.** -/
theorem Summarizes.percentile_le (hne : xs ≠ []) {p q : Nat}
    (hpq : percentileRatio p ≤ percentileRatio q) (hq : percentileRatio q + 2 ≤ 2 ^ 53) :
    (t.percentileFromHistogram p).toNat ≤ (t.percentileFromHistogram q).toNat ∧
      (t.percentileFromHistogram q).toNat ≤ t.max.toNat + 500 := by
  have hp : percentileRatio p + 2 ≤ 2 ^ 53 := by omega
  have hT := percentileTarget_mono hpq (by omega) hlen
  cases hr : firstReaching (fun n => (t.histogram n).toNat) (percentileTarget q xs.length)
      (List.range numBuckets) 0 with
  | some i =>
    obtain ⟨j, hj, hji⟩ := firstReaching_mono (List.pairwise_lt_range _) hT hr
    rw [h.percentile_of_some hlen hne hp hj, h.percentile_of_some hlen hne hq hr]
    refine ⟨by omega, ?_⟩
    rcases firstReaching_range hr with rfl | hc
    · omega
    · have := h.bucket_le_max hlen hc; omega
  | none =>
    have hmax := h.overflow_of_none hlen hq hr
    rw [h.percentile_of_none hlen hne hq hr]
    refine ⟨?_, by omega⟩
    cases hr' : firstReaching (fun n => (t.histogram n).toNat) (percentileTarget p xs.length)
        (List.range numBuckets) 0 with
    | none => rw [h.percentile_of_none hlen hne hp hr']
    | some i =>
      rw [h.percentile_of_some hlen hne hp hr']
      have := List.mem_range.mp (firstReaching_mem hr')
      simp only [numBuckets] at this
      omega

/-- The mean lies between the least and the largest sample while the sum does not wrap. -/
theorem Summarizes.mean_between (hne : xs ≠ []) (hsum : (xs.map UInt64.toNat).sum < 2 ^ 64) :
    t.min.toNat ≤ (t.sum / t.sampleCount).toNat ∧ (t.sum / t.sampleCount).toNat ≤ t.max.toNat := by
  have hs : t.sum.toNat = (xs.map UInt64.toNat).sum := by
    rw [h.sum]; exact Nat.mod_eq_of_lt hsum
  rw [UInt64.toNat_div, hs, h.count_toNat hlen]
  constructor
  · rw [Nat.le_div_iff_mul_le (List.length_pos.mpr hne), Nat.mul_comm]
    simpa using List.card_nsmul_le_sum (xs.map UInt64.toNat) _
      fun y hy => by obtain ⟨z, hz, rfl⟩ := List.mem_map.mp hy; exact h.min_le hz
  · refine Nat.div_le_of_le_mul ?_
    simpa using List.sum_le_card_nsmul (xs.map UInt64.toNat) _
      fun y hy => by obtain ⟨z, hz, rfl⟩ := List.mem_map.mp hy; exact h.le_max hz

end Read

/-- **`get_stats` after a run of samples.** For every nonempty run of fewer
than 2^64 samples recorded since a reset, `get_stats()` returns
`p50 ≤ p95 ≤ p99 ≤ p999 ≤ max + BUCKET_WIDTH_NS / 2` and `min ≤ max`, and, when
the samples sum to less than 2^64, `min ≤ mean ≤ max`. -/
theorem get_stats_ordered (xs : List UInt64) (hne : xs ≠ []) (hlen : xs.length < 2 ^ 64) :
    (statsOf xs).p50 ≤ (statsOf xs).p95 ∧ (statsOf xs).p95 ≤ (statsOf xs).p99 ∧
      (statsOf xs).p99 ≤ (statsOf xs).p999 ∧
      (statsOf xs).p999.toNat ≤ (statsOf xs).max.toNat + 500 ∧ (statsOf xs).min ≤ (statsOf xs).max ∧
      ((xs.map UInt64.toNat).sum < 2 ^ 64 →
        (statsOf xs).min ≤ (statsOf xs).mean ∧ (statsOf xs).mean ≤ (statsOf xs).max) := by
  have h : Summarizes (LatencyTracker.init.recordAll xs) xs := by
    simpa using summarizes_init.recordAll xs
  obtain ⟨r1, r2, r3, r4⟩ := percentileRatio_ordered
  obtain ⟨x, hx⟩ := List.exists_mem_of_ne_nil xs hne
  simp only [statsOf, LatencyTracker.getStats, if_neg (h.sampleCount_ne_zero hlen hne), uint64_le_iff]
  exact ⟨(h.percentile_le hlen hne r1 (by omega)).1, (h.percentile_le hlen hne r2 (by omega)).1,
    (h.percentile_le hlen hne r3 r4).1, (h.percentile_le hlen hne r3 r4).2,
    (h.min_le hx).trans (h.le_max hx), h.mean_between hlen hne⟩

/-- The statistics of the samples 5 ns and 2 ms. -/
theorem get_stats_ordered_two_samples :
    [5, 2000000] ≠ ([] : List UInt64) ∧ [5, 2000000].length < 2 ^ 64 ∧
      (statsOf [5, 2000000]).p50 ≤ (statsOf [5, 2000000]).p95 ∧
      (statsOf [5, 2000000]).p95 ≤ (statsOf [5, 2000000]).p99 ∧
      (statsOf [5, 2000000]).p99 ≤ (statsOf [5, 2000000]).p999 ∧
      (statsOf [5, 2000000]).p999.toNat ≤ (statsOf [5, 2000000]).max.toNat + 500 ∧
      (statsOf [5, 2000000]).min ≤ (statsOf [5, 2000000]).max ∧
      ((([5, 2000000] : List UInt64).map UInt64.toNat).sum < 2 ^ 64 →
        (statsOf [5, 2000000]).min ≤ (statsOf [5, 2000000]).mean ∧
          (statsOf [5, 2000000]).mean ≤ (statsOf [5, 2000000]).max) :=
  ⟨by decide, by decide, get_stats_ordered [5, 2000000] (by decide) (by decide)⟩

/-- A single sample of 0 ns has its median at the first bucket's midpoint, above
the largest sample; two samples of `2^64 - 1` ns wrap the sum, and the mean
falls below the least sample. -/
theorem stats_above_max_and_wrapped_mean :
    (statsOf [0]).p50 = 500 ∧ (statsOf [0]).max = 0 ∧
      (statsOf [0xFFFFFFFFFFFFFFFF, 0xFFFFFFFFFFFFFFFF]).mean <
        (statsOf [0xFFFFFFFFFFFFFFFF, 0xFFFFFFFFFFFFFFFF]).min := by
  have h : Summarizes (LatencyTracker.init.recordAll [0]) [0] := by
    simpa using summarizes_init.recordAll [0]
  have hT : percentileTarget percentile50 [0].length = 0 := by decide
  have hp50 : ((LatencyTracker.init.recordAll [0]).percentileFromHistogram percentile50).toNat =
      1000 * 0 + 500 :=
    h.percentile_of_some (by decide) (by decide) (by decide) (hT ▸ firstReaching_range_zero _ 999)
  have e : (statsOf [0]).p50 = (LatencyTracker.init.recordAll [0]).percentileFromHistogram percentile50 := by
    rw [statsOf, LatencyTracker.getStats, if_neg (by decide)]
  exact ⟨e.trans (UInt64.toNat.inj hp50), by decide⟩

end MarketFeed.Stats
