import MarketFeed.Stats.Percentiles

/-!
# Which sample a percentile estimates

`percentile_from_histogram` answers with the midpoint of the bucket where the
cumulative count first reaches its target `k = (uint64_t)((p / 100.0) * total)`.
When every sample is tracked, the cumulative count through a bucket is the
number of samples below the bucket's upper edge, so the walk stops at the
bucket of the `k`-th smallest sample (`firstReaching_kth`) and the answer lies
within half a bucket of that sample (`Summarizes.percentile_nearRank`).

Over every run this gives `get_stats_near_rank`. The rank is the code's
truncated product, `⌊n / 2⌋` for the median (`percentileTarget_fifty`), not the
nearest rank `⌈p · n⌉` that iterating "until count reaches" `p` percent of the
total stops at, and a target of zero stops at the first bucket whatever the
samples (`p50_not_nearest_rank`).
-/

namespace MarketFeed.Stats

open MarketFeed.Protocol (sum_range_indicator)

/-! ### Ranks -/

/-- The samples in increasing order, as numbers. -/
def sortedSamples (xs : List UInt64) : List Nat :=
  (xs.map UInt64.toNat).insertionSort (· ≤ ·)

/-- The `k`-th smallest sample, counting from one. -/
def kthSmallest (xs : List UInt64) (k : Nat) : Nat :=
  (sortedSamples xs).getD (k - 1) 0

/-- The nearest rank `⌈(num / den) · n⌉`. -/
def nearestRank (num den n : Nat) : Nat := (num * n + den - 1) / den

/-- The sorted samples, split at the one of rank `k`. -/
theorem sortedSamples_split (xs : List UInt64) {k : Nat} (hk : 0 < k) (hkn : k ≤ xs.length) :
    ∃ pre post, sortedSamples xs = pre ++ kthSmallest xs k :: post ∧ pre.length = k - 1 ∧
      (∀ a ∈ pre, a ≤ kthSmallest xs k) ∧ ∀ b ∈ post, kthSmallest xs k ≤ b := by
  obtain ⟨j, rfl⟩ : ∃ j, k = j + 1 := ⟨k - 1, by omega⟩
  have hlen : j < (sortedSamples xs).length := by
    rw [sortedSamples, List.length_insertionSort, List.length_map]; omega
  have hs : sortedSamples xs =
      (sortedSamples xs).take j ++ kthSmallest xs (j + 1) :: (sortedSamples xs).drop (j + 1) := by
    rw [kthSmallest, Nat.add_sub_cancel, List.getD_eq_getElem _ _ hlen,
      ← List.drop_eq_getElem_cons hlen, List.take_append_drop]
  have hsorted : (sortedSamples xs).Sorted (· ≤ ·) := List.sorted_insertionSort _ _
  rw [hs, List.Sorted, List.pairwise_append, List.pairwise_cons] at hsorted
  exact ⟨_, _, hs, by simp [hlen.le], fun a ha => hsorted.2.2 a ha _ (List.mem_cons_self _ _),
    hsorted.2.1.1⟩

/-- **The sample of rank `k`** has fewer than `k` samples below it and at least
`k` at or below it. -/
theorem kthSmallest_rank (xs : List UInt64) {k : Nat} (hk : 0 < k) (hkn : k ≤ xs.length) :
    (xs.map UInt64.toNat).countP (· < kthSmallest xs k) < k ∧
      k ≤ (xs.map UInt64.toNat).countP (· ≤ kthSmallest xs k) := by
  obtain ⟨pre, post, hs, hlen, hpre, hpost⟩ := sortedSamples_split xs hk hkn
  have hperm : (sortedSamples xs).Perm (xs.map UInt64.toNat) := List.perm_insertionSort _ _
  have h1 : pre.countP (· ≤ kthSmallest xs k) = pre.length :=
    List.countP_eq_length.2 fun a ha => by simpa using hpre a ha
  have h2 : post.countP (· < kthSmallest xs k) = 0 :=
    List.countP_eq_zero.2 fun b hb => by simpa using hpost b hb
  have h3 := List.countP_le_length (· < kthSmallest xs k) (l := pre)
  rw [← hperm.countP_eq, ← hperm.countP_eq, hs]
  simp only [List.countP_append, List.countP_cons, h1, h2, decide_eq_true_eq, lt_self_iff_false,
    le_refl, if_true, if_false]
  omega

/-! ### The walk stops at the bucket of the sample of the target rank -/

/-- The buckets below `N` together hold the tracked samples whose bucket is below `N`. -/
theorem sum_buckets_below (xs : List UInt64) (N : Nat) :
    ((List.range N).map fun n => xs.countP fun x => x < maxTrackedNs ∧ bucketOf x = n).sum =
      xs.countP fun x => x < maxTrackedNs ∧ bucketOf x < N := by
  induction xs with
  | nil => simp
  | cons x xs ih =>
    simp only [List.countP_cons, decide_eq_true_eq, List.sum_map_add, sum_range_indicator, ih]

/-- With every sample tracked, the buckets below `N` hold the samples below `1000 * N`. -/
theorem countP_bucket_below {xs : List UInt64} (htr : ∀ x ∈ xs, x < maxTrackedNs) (N : Nat) :
    (xs.countP fun x => x < maxTrackedNs ∧ bucketOf x < N) =
      (xs.map UInt64.toNat).countP (· < 1000 * N) := by
  rw [List.countP_map]
  refine List.countP_congr fun x hx => ?_
  have hb : bucketOf x = x.toNat / 1000 := UInt64.toNat_div x bucketWidthNs
  simp only [htr x hx, hb, true_and, decide_eq_true_eq, Function.comp_apply]
  omega

theorem firstReaching_append {c : Nat → Nat} {t : Nat} (l₁ l₂ : List Nat) {cum : Nat}
    (h : cum + (l₁.map c).sum < t) :
    firstReaching c t (l₁ ++ l₂) cum = firstReaching c t l₂ (cum + (l₁.map c).sum) := by
  induction l₁ generalizing cum with
  | nil => rfl
  | cons i l₁ ih =>
    rw [List.map_cons, List.sum_cons] at h ⊢
    rw [List.cons_append, firstReaching, if_neg (by omega), ih (by omega), Nat.add_assoc]

/-- A walk over the buckets stops where the cumulative count first reaches the target. -/
theorem firstReaching_range_of_between {c : Nat → Nat} {t b n : Nat} (hb : b < n)
    (hlo : ((List.range b).map c).sum < t) (hhi : t ≤ ((List.range (b + 1)).map c).sum) :
    firstReaching c t (List.range n) 0 = some b := by
  obtain ⟨m, rfl⟩ : ∃ m, n = b + (m + 1) := ⟨n - b - 1, by omega⟩
  rw [List.range_succ, List.map_append, List.sum_append] at hhi
  rw [List.range_add, firstReaching_append _ _ (by omega), List.range_succ_eq_map, List.map_cons,
    firstReaching, if_pos (by simpa using hhi), Nat.add_zero]

/-- **The walk stops at the bucket of the sample of rank `k`**, for `k` between
one and the number of samples, all tracked. -/
theorem firstReaching_kth {xs : List UInt64} (htr : ∀ x ∈ xs, x < maxTrackedNs) {k : Nat}
    (hk : 0 < k) (hkn : k ≤ xs.length) :
    firstReaching (fun n => xs.countP fun x => x < maxTrackedNs ∧ bucketOf x = n) k
      (List.range numBuckets) 0 = some (kthSmallest xs k / 1000) := by
  obtain ⟨hlt, hle⟩ := kthSmallest_rank xs hk hkn
  have hy : kthSmallest xs k < 1000000 := by
    refine Nat.not_le.mp fun hy => Nat.not_le.mpr hlt ?_
    rw [List.countP_eq_length.2 fun x hx => ?_, List.length_map]
    · exact hkn
    obtain ⟨z, hz, rfl⟩ := List.mem_map.mp hx
    have : z.toNat < 1000000 := uint64_lt_iff.mp (htr z hz)
    simp only [decide_eq_true_eq]; omega
  refine firstReaching_range_of_between (by simp only [numBuckets]; omega) ?_ ?_ <;>
    rw [sum_buckets_below, countP_bucket_below htr]
  · exact lt_of_le_of_lt (List.countP_mono_left fun x _ hx => by simp only [decide_eq_true_eq] at *; omega) hlt
  · exact hle.trans (List.countP_mono_left fun x _ hx => by simp only [decide_eq_true_eq] at *; omega)

/-! ### The answer -/

/-- The median's target is the lower median's rank `⌊n / 2⌋`, for counts below `2^53`. -/
theorem percentileTarget_fifty {n : Nat} (hn : n < 2 ^ 53) : percentileTarget percentile50 n = n / 2 := by
  have hr : percentileRatio percentile50 = 2 ^ 52 := by decide
  have hlt : n * 2 ^ 52 < 2 ^ 117 :=
    calc n * 2 ^ 52 < 2 ^ 53 * 2 ^ 52 := Nat.mul_lt_mul_of_pos_right hn (Nat.two_pow_pos _)
      _ ≤ 2 ^ 117 := by norm_num
  rw [percentileTarget, hr, roundToDouble_of_lt hn, Nat.mul_comm, roundToDouble_exact hn hlt,
    show 2 ^ 53 = 2 ^ 52 * 2 by norm_num, ← Nat.div_div_eq_div_mul, Nat.mul_div_cancel _ (Nat.two_pow_pos _)]

/-- The answer `v` for the target rank `k`: the first bucket's midpoint when `k`
is zero, else within half a bucket of the `k`-th smallest sample. -/
def NearRank (xs : List UInt64) (k : Nat) (v : UInt64) : Prop :=
  if k = 0 then v.toNat = 500
  else v.toNat ≤ kthSmallest xs k + 500 ∧ kthSmallest xs k ≤ v.toNat + 500

instance (xs : List UInt64) (k : Nat) (v : UInt64) : Decidable (NearRank xs k v) :=
  inferInstanceAs (Decidable (if k = 0 then _ else _))

section Read

variable {t : LatencyTracker} {xs : List UInt64} (h : Summarizes t xs)
  (hlen : xs.length < 2 ^ 64) (hne : xs ≠ []) (htr : ∀ x ∈ xs, x < maxTrackedNs)
include h hlen hne htr

/-- **A percentile is the midpoint of the bucket of the sample of its target
rank**, or of the first bucket when the target is zero. -/
theorem Summarizes.percentile_rank {p : Nat} (hp : percentileRatio p + 2 ≤ 2 ^ 53) :
    (t.percentileFromHistogram p).toNat =
      if percentileTarget p xs.length = 0 then 500
      else 1000 * (kthSmallest xs (percentileTarget p xs.length) / 1000) + 500 := by
  have hw : (fun n => (t.histogram n).toNat) =
      fun n => xs.countP fun x => x < maxTrackedNs ∧ bucketOf x = n :=
    funext (h.histogram_toNat hlen)
  split_ifs with hk
  · exact h.percentile_of_some hlen hne hp (by rw [hk]; exact firstReaching_range_zero _ 999)
  · exact h.percentile_of_some hlen hne hp
      (by rw [hw]; exact firstReaching_kth htr (Nat.pos_of_ne_zero hk) (percentileTarget_le hp hlen))

theorem Summarizes.percentile_nearRank {p : Nat} (hp : percentileRatio p + 2 ≤ 2 ^ 53) :
    NearRank xs (percentileTarget p xs.length) (t.percentileFromHistogram p) := by
  rw [NearRank, h.percentile_rank hlen hne htr hp]
  split_ifs <;> omega

end Read

/-- **Each percentile of `get_stats` is within half a bucket of the sample of
the code's target rank.** For every nonempty run of fewer than 2^64 samples,
all below `MAX_TRACKED_NS`, recorded since a reset, `p50`, `p95`, `p99` and
`p999` lie within `BUCKET_WIDTH_NS / 2` of the `k`-th smallest sample, where
`k = (uint64_t)((p / 100.0) * n)`, and are `500` when that `k` is zero. -/
theorem get_stats_near_rank (xs : List UInt64) (hne : xs ≠ []) (hlen : xs.length < 2 ^ 64)
    (htr : ∀ x ∈ xs, x < maxTrackedNs) :
    NearRank xs (percentileTarget percentile50 xs.length) (statsOf xs).p50 ∧
      NearRank xs (percentileTarget percentile95 xs.length) (statsOf xs).p95 ∧
      NearRank xs (percentileTarget percentile99 xs.length) (statsOf xs).p99 ∧
      NearRank xs (percentileTarget percentile999 xs.length) (statsOf xs).p999 := by
  have h : Summarizes (LatencyTracker.init.recordAll xs) xs := by
    simpa using summarizes_init.recordAll xs
  obtain ⟨r1, r2, r3, r4⟩ := percentileRatio_ordered
  simp only [statsOf, LatencyTracker.getStats, if_neg (h.sampleCount_ne_zero hlen hne)]
  exact ⟨h.percentile_nearRank hlen hne htr (by omega), h.percentile_nearRank hlen hne htr (by omega),
    h.percentile_nearRank hlen hne htr (by omega), h.percentile_nearRank hlen hne htr r4⟩

/-- **The median is taken at the truncated rank.** For the samples 0, 5 µs and
10 µs, `(uint64_t)(0.5 * 3)` makes the median's target the first sample, so
`p50` is the first bucket's midpoint, 4.5 µs from the nearest-rank median. -/
theorem p50_not_nearest_rank :
    (statsOf [0, 5000, 10000]).p50 = 500 ∧ nearestRank 1 2 3 = 2 ∧
      kthSmallest [0, 5000, 10000] 2 = 5000 := by
  have h : Summarizes (LatencyTracker.init.recordAll [0, 5000, 10000]) [0, 5000, 10000] := by
    simpa using summarizes_init.recordAll [0, 5000, 10000]
  have hT : percentileTarget percentile50 ([0, 5000, 10000] : List UInt64).length = 1 :=
    percentileTarget_fifty (by decide)
  have hv := h.percentile_rank (by decide) (by decide) (by decide) (p := percentile50) (by decide)
  rw [hT, if_neg one_ne_zero] at hv
  have e : (statsOf [0, 5000, 10000]).p50 =
      (LatencyTracker.init.recordAll [0, 5000, 10000]).percentileFromHistogram percentile50 := by
    rw [statsOf, LatencyTracker.getStats, if_neg (by decide)]
  exact ⟨e.trans (UInt64.toNat.inj (hv.trans (by decide))), by decide, by decide⟩

end MarketFeed.Stats
