import MarketFeed.Protocol.Wire

/-!
# The latency tracker under concurrent `record` calls

`LatencyTracker::record` updates seven relaxed atomics: a `fetch_add` on the
sample count and the sum, a compare-exchange retry loop for each of `min_` and
`max_`, a `fetch_add` on one histogram bucket or the overflow counter, and a
claimed slot of the ring buffer. `recordStep` is one atomic step of one call,
with the scheduler choosing spurious `compare_exchange_weak` failures, and
`RecordRun.run` interleaves any number of calls; `LatencyTracker.record` is the
whole call as one step, which is how the single-threaded feed handler runs it.

The main result, `record_interleaved`, reads every statistic off the multiset
of samples once all calls have returned. It rests on one invariant, `Accounts`:
each counter is the tally of the calls past the step that bumps it, and
`min_`/`max_` bound every call past its loop and every expected value in a loop.
-/

namespace MarketFeed.Stats

open MarketFeed.Protocol (uint64_ofNat_add foldl_add_ofNat sum_range_indicator)

/-- `UINT64_MAX`, what `reset()` stores in `min_`. -/
def uint64Max : UInt64 := 0xFFFFFFFFFFFFFFFF

/-- `NUM_BUCKETS`. -/
def numBuckets : Nat := 1000

/-- `BUCKET_WIDTH_NS`. -/
def bucketWidthNs : UInt64 := 1000

/-- `MAX_TRACKED_NS = NUM_BUCKETS * BUCKET_WIDTH_NS`. -/
def maxTrackedNs : UInt64 := 1000000

/-- `RING_BUFFER_SIZE = 1 << 20`. -/
def ringBufferSize : Nat := 1048576

/-- The tracker's atomics; `histogram_` and `ring_buffer_` as functions of the index. -/
structure LatencyTracker where
  ringBuffer : Nat → UInt64
  writeIndex : UInt64
  histogram : Nat → UInt64
  overflowCount : UInt64
  sampleCount : UInt64
  sum : UInt64
  min : UInt64
  max : UInt64

/-- The state `reset()` leaves, and so the constructor's. -/
def LatencyTracker.init : LatencyTracker :=
  ⟨fun _ => 0, 0, fun _ => 0, 0, 0, 0, uint64Max, 0⟩

/-- `latency_ns / BUCKET_WIDTH_NS`, the histogram slot of a tracked sample. -/
def bucketOf (x : UInt64) : Nat := (x / bucketWidthNs).toNat

/-- The histogram branch of `record`: one bucket, or the overflow counter. -/
def LatencyTracker.addToBucket (t : LatencyTracker) (x : UInt64) : LatencyTracker :=
  if x < maxTrackedNs then
    { t with histogram := Function.update t.histogram (bucketOf x) (t.histogram (bucketOf x) + 1) }
  else { t with overflowCount := t.overflowCount + 1 }

@[simp] theorem LatencyTracker.addToBucket_min (t : LatencyTracker) (x : UInt64) :
    (t.addToBucket x).min = t.min := by
  unfold addToBucket; split_ifs <;> rfl

@[simp] theorem LatencyTracker.addToBucket_max (t : LatencyTracker) (x : UInt64) :
    (t.addToBucket x).max = t.max := by
  unfold addToBucket; split_ifs <;> rfl

@[simp] theorem LatencyTracker.addToBucket_sampleCount (t : LatencyTracker) (x : UInt64) :
    (t.addToBucket x).sampleCount = t.sampleCount := by
  unfold addToBucket; split_ifs <;> rfl

@[simp] theorem LatencyTracker.addToBucket_sum (t : LatencyTracker) (x : UInt64) :
    (t.addToBucket x).sum = t.sum := by
  unfold addToBucket; split_ifs <;> rfl

@[simp] theorem LatencyTracker.addToBucket_writeIndex (t : LatencyTracker) (x : UInt64) :
    (t.addToBucket x).writeIndex = t.writeIndex := by
  unfold addToBucket; split_ifs <;> rfl

/-- `record(latency_ns)` run without interruption. -/
def LatencyTracker.record (t : LatencyTracker) (x : UInt64) : LatencyTracker :=
  let t₁ := { t with sampleCount := t.sampleCount + 1, sum := t.sum + x }
  let t₂ := if x < t₁.min then { t₁ with min := x } else t₁
  let t₃ := if t₂.max < x then { t₂ with max := x } else t₂
  let t₄ := t₃.addToBucket x
  { t₄ with writeIndex := t₄.writeIndex + 1,
            ringBuffer := Function.update t₄.ringBuffer (t₄.writeIndex.toNat % ringBufferSize) x }

/-! ### One call, step by step -/

/-- Where a `record` call stands: before which atomic operation. In `casMin` and
`casMax` the argument is the call's `current_min`/`current_max`. -/
inductive RecordPc
  | start
  | addSum
  | loadMin
  | casMin (current : UInt64)
  | loadMax
  | casMax (current : UInt64)
  | bucket
  | claimSlot
  | storeSlot (idx : UInt64)
  | done
  deriving DecidableEq, Repr

/-- How far a call has got: the number of the next step. -/
def RecordPc.rank : RecordPc → Nat
  | .start => 0
  | .addSum => 1
  | .loadMin => 2
  | .casMin _ => 3
  | .loadMax => 4
  | .casMax _ => 5
  | .bucket => 6
  | .claimSlot => 7
  | .storeSlot _ => 8
  | .done => 9

/-- One atomic step of `record(x)`. A loop test needs no memory access and is
taken with the compare-exchange it guards; on failure, spurious or not, the
compare-exchange reloads the current value into the expected one. -/
def recordStep (x : UInt64) (spurious : Bool) (t : LatencyTracker) :
    RecordPc → LatencyTracker × RecordPc
  | .start => ({ t with sampleCount := t.sampleCount + 1 }, .addSum)
  | .addSum => ({ t with sum := t.sum + x }, .loadMin)
  | .loadMin => (t, .casMin t.min)
  | .casMin cur =>
    if x < cur then
      if !spurious && t.min == cur then ({ t with min := x }, .loadMax) else (t, .casMin t.min)
    else (t, .loadMax)
  | .loadMax => (t, .casMax t.max)
  | .casMax cur =>
    if cur < x then
      if !spurious && t.max == cur then ({ t with max := x }, .bucket) else (t, .casMax t.max)
    else (t, .bucket)
  | .bucket => (t.addToBucket x, .claimSlot)
  | .claimSlot => ({ t with writeIndex := t.writeIndex + 1 }, .storeSlot t.writeIndex)
  | .storeSlot idx =>
    ({ t with ringBuffer := Function.update t.ringBuffer (idx.toNat % ringBufferSize) x }, .done)
  | .done => (t, .done)

/-! ### Interleavings -/

/-- One `record` call: its sample and where it stands. -/
structure Call where
  latency : UInt64
  pc : RecordPc
  deriving DecidableEq, Repr

/-- The tracker and every call of the run. -/
structure RecordRun where
  tracker : LatencyTracker
  calls : List Call

/-- The run in which calls `record(x)` for each `x` in `xs`, from a reset tracker. -/
def RecordRun.start (xs : List UInt64) : RecordRun :=
  ⟨.init, xs.map fun x => ⟨x, .start⟩⟩

/-- The scheduler runs one step of call `i`, spuriously failing a
compare-exchange when `spurious` is set. -/
def RecordRun.step (s : RecordRun) (i : Nat) (spurious : Bool) : RecordRun :=
  match s.calls[i]? with
  | none => s
  | some c =>
    let r := recordStep c.latency spurious s.tracker c.pc
    ⟨r.1, s.calls.set i ⟨c.latency, r.2⟩⟩

/-- A schedule: which call steps next, and whether its compare-exchange fails spuriously. -/
def RecordRun.run (s : RecordRun) : List (Nat × Bool) → RecordRun
  | [] => s
  | (i, b) :: rest => (s.step i b).run rest

theorem uint64_le_iff {a b : UInt64} : a ≤ b ↔ a.toNat ≤ b.toNat := Iff.rfl

theorem uint64_lt_iff {a b : UInt64} : a < b ↔ a.toNat < b.toNat := Iff.rfl

/-! ### What one step does to each statistic -/

/-- What a call adds to a statistic: `g` of its sample once it has passed step `k`. -/
def gate (k : Nat) (g : UInt64 → Nat) (c : Call) : Nat := if k ≤ c.pc.rank then g c.latency else 0

/-- The sum of `f` over the calls. -/
def tally (f : Call → Nat) (calls : List Call) : Nat := (calls.map f).sum

/-- The histogram bucket `b` counts a sample. -/
def inBucket (b : Nat) (x : UInt64) : Nat := if x < maxTrackedNs ∧ bucketOf x = b then 1 else 0

/-- The overflow counter counts a sample. -/
def overflows (x : UInt64) : Nat := if maxTrackedNs ≤ x then 1 else 0

theorem tally_set {calls : List Call} {i : Nat} {c c' : Call} (hc : calls[i]? = some c)
    (f : Call → Nat) (h : f c ≤ f c') :
    tally f (calls.set i c') = tally f calls + (f c' - f c) := by
  induction calls generalizing i with
  | nil => cases hc
  | cons a l ih =>
    cases i with
    | zero =>
      obtain rfl : a = c := by simpa using hc
      simp only [tally, List.set_cons_zero, List.map_cons, List.sum_cons]
      omega
    | succ i =>
      have := ih (by simpa using hc)
      simp only [tally, List.set_cons_succ, List.map_cons, List.sum_cons] at this ⊢
      omega

theorem rank_le_step (x : UInt64) (b : Bool) (t : LatencyTracker) (pc : RecordPc) :
    pc.rank ≤ (recordStep x b t pc).2.rank := by
  cases pc <;> simp only [recordStep] <;> (try split_ifs) <;> simp [RecordPc.rank]

theorem gate_mono (k : Nat) (g : UInt64 → Nat) (x : UInt64) {pc pc' : RecordPc}
    (h : pc.rank ≤ pc'.rank) : gate k g ⟨x, pc⟩ ≤ gate k g ⟨x, pc'⟩ := by
  simp only [gate]; split_ifs <;> omega

/-- The gap a step opens in a statistic the tracker bumps at step `k`. -/
def stepGain (k : Nat) (g : UInt64 → Nat) (x : UInt64) (pc pc' : RecordPc) : UInt64 :=
  .ofNat (gate k g ⟨x, pc'⟩ - gate k g ⟨x, pc⟩)

section Step

variable (x : UInt64) (b : Bool) (t : LatencyTracker) (pc : RecordPc)

theorem step_sampleCount :
    (recordStep x b t pc).1.sampleCount =
      t.sampleCount + stepGain 1 (fun _ => 1) x pc (recordStep x b t pc).2 := by
  cases pc <;> simp only [recordStep] <;> (try split_ifs) <;> simp [stepGain, gate, RecordPc.rank]

theorem step_sum :
    (recordStep x b t pc).1.sum = t.sum + stepGain 2 UInt64.toNat x pc (recordStep x b t pc).2 := by
  cases pc <;> simp only [recordStep] <;> (try split_ifs) <;>
    simp [stepGain, gate, RecordPc.rank]
  exact UInt64.ext (Nat.mod_eq_of_lt x.toNat_lt).symm

theorem step_histogram (n : Nat) :
    (recordStep x b t pc).1.histogram n =
      t.histogram n + stepGain 7 (inBucket n) x pc (recordStep x b t pc).2 := by
  cases pc <;> simp only [recordStep] <;> (try split_ifs) <;>
    simp [stepGain, gate, RecordPc.rank, LatencyTracker.addToBucket]
  unfold inBucket
  by_cases hx : x < maxTrackedNs <;> by_cases hn : n = bucketOf x <;>
    simp [hx, hn, Function.update_apply, eq_comm]

theorem step_overflowCount :
    (recordStep x b t pc).1.overflowCount =
      t.overflowCount + stepGain 7 overflows x pc (recordStep x b t pc).2 := by
  cases pc <;> simp only [recordStep] <;> (try split_ifs) <;>
    simp [stepGain, gate, RecordPc.rank, LatencyTracker.addToBucket]
  unfold overflows
  by_cases hx : x < maxTrackedNs
  · simp [hx, uint64_le_iff.not.mpr (not_le.mpr hx)]
  · simp [hx, uint64_le_iff.mpr (Nat.le_of_not_lt hx)]

theorem step_writeIndex :
    (recordStep x b t pc).1.writeIndex =
      t.writeIndex + stepGain 8 (fun _ => 1) x pc (recordStep x b t pc).2 := by
  cases pc <;> simp only [recordStep] <;> (try split_ifs) <;> simp [stepGain, gate, RecordPc.rank]

theorem step_min_le : (recordStep x b t pc).1.min ≤ t.min := by
  cases pc <;> simp only [recordStep] <;> (try split_ifs) <;>
    simp_all [uint64_le_iff, uint64_lt_iff, Nat.le_of_lt]

theorem step_min_cases :
    (recordStep x b t pc).1.min = t.min ∨ (recordStep x b t pc).1.min = x := by
  cases pc <;> simp only [recordStep] <;> (try split_ifs) <;> simp

theorem step_min_below (h4 : 4 ≤ pc.rank → t.min ≤ x) (hcur : ∀ cur, pc = .casMin cur → t.min ≤ cur)
    (h : 4 ≤ (recordStep x b t pc).2.rank) : (recordStep x b t pc).1.min ≤ x := by
  cases pc <;> simp only [recordStep] at h ⊢ <;> (try split_ifs at h ⊢) <;>
    simp_all [RecordPc.rank, uint64_le_iff, uint64_lt_iff]
  omega

theorem step_min_cur (cur : UInt64) (h : (recordStep x b t pc).2 = .casMin cur) :
    (recordStep x b t pc).1.min ≤ cur := by
  cases pc <;> simp only [recordStep] at h ⊢ <;> (try split_ifs at h ⊢) <;>
    simp_all [uint64_le_iff]

theorem step_max_ge : t.max ≤ (recordStep x b t pc).1.max := by
  cases pc <;> simp only [recordStep] <;> (try split_ifs) <;>
    simp_all [uint64_le_iff, uint64_lt_iff, Nat.le_of_lt]

theorem step_max_cases :
    (recordStep x b t pc).1.max = t.max ∨ (recordStep x b t pc).1.max = x := by
  cases pc <;> simp only [recordStep] <;> (try split_ifs) <;> simp

theorem step_max_above (h6 : 6 ≤ pc.rank → x ≤ t.max) (hcur : ∀ cur, pc = .casMax cur → cur ≤ t.max)
    (h : 6 ≤ (recordStep x b t pc).2.rank) : x ≤ (recordStep x b t pc).1.max := by
  cases pc <;> simp only [recordStep] at h ⊢ <;> (try split_ifs at h ⊢) <;>
    simp_all [RecordPc.rank, uint64_le_iff, uint64_lt_iff]
  omega

theorem step_max_cur (cur : UInt64) (h : (recordStep x b t pc).2 = .casMax cur) :
    cur ≤ (recordStep x b t pc).1.max := by
  cases pc <;> simp only [recordStep] at h ⊢ <;> (try split_ifs at h ⊢) <;>
    simp_all [uint64_le_iff]

end Step

/-! ### The invariant of every interleaving -/

/-- Every counter is the tally of the calls past the step that bumps it; `min_`
is `UINT64_MAX` or a sample, and bounds from below every call past its loop and
every `current_min` of a call in it; `max_` likewise from above. -/
structure Accounts (s : RecordRun) : Prop where
  sampleCount : s.tracker.sampleCount = .ofNat (tally (gate 1 fun _ => 1) s.calls)
  sum : s.tracker.sum = .ofNat (tally (gate 2 UInt64.toNat) s.calls)
  histogram : ∀ n, s.tracker.histogram n = .ofNat (tally (gate 7 (inBucket n)) s.calls)
  overflowCount : s.tracker.overflowCount = .ofNat (tally (gate 7 overflows) s.calls)
  writeIndex : s.tracker.writeIndex = .ofNat (tally (gate 8 fun _ => 1) s.calls)
  minMember : s.tracker.min = uint64Max ∨ s.tracker.min ∈ s.calls.map Call.latency
  minBelow : ∀ c ∈ s.calls, 4 ≤ c.pc.rank → s.tracker.min ≤ c.latency
  minCur : ∀ c ∈ s.calls, ∀ cur, c.pc = .casMin cur → s.tracker.min ≤ cur
  maxMember : s.tracker.max = 0 ∨ s.tracker.max ∈ s.calls.map Call.latency
  maxAbove : ∀ c ∈ s.calls, 6 ≤ c.pc.rank → c.latency ≤ s.tracker.max
  maxCur : ∀ c ∈ s.calls, ∀ cur, c.pc = .casMax cur → cur ≤ s.tracker.max

theorem tally_start {k : Nat} (hk : 0 < k) (g : UInt64 → Nat) (xs : List UInt64) :
    tally (gate k g) (xs.map fun x => ⟨x, .start⟩) = 0 := by
  induction xs with
  | nil => rfl
  | cons x xs ih => simpa [tally, gate, RecordPc.rank, Nat.not_le.mpr hk] using ih

theorem accounts_start (xs : List UInt64) : Accounts (RecordRun.start xs) where
  sampleCount := by rw [RecordRun.start, tally_start (by decide)]; rfl
  sum := by rw [RecordRun.start, tally_start (by decide)]; rfl
  histogram _ := by rw [RecordRun.start, tally_start (by decide)]; rfl
  overflowCount := by rw [RecordRun.start, tally_start (by decide)]; rfl
  writeIndex := by rw [RecordRun.start, tally_start (by decide)]; rfl
  minMember := .inl rfl
  minBelow := by simp [RecordRun.start, RecordPc.rank]
  minCur := by simp [RecordRun.start]
  maxMember := .inl rfl
  maxAbove := by simp [RecordRun.start, RecordPc.rank]
  maxCur := by simp [RecordRun.start]

theorem forall_mem_set {calls : List Call} {P : Call → Prop} (h : ∀ d ∈ calls, P d) (i : Nat)
    (c' : Call) (h' : P c') : ∀ d ∈ calls.set i c', P d := fun d hd =>
  (List.mem_or_eq_of_mem_set hd).elim (h d) fun e => e ▸ h'

section Set

variable {calls : List Call} {i : Nat} {c : Call} (hc : calls[i]? = some c)
include hc

theorem map_latency_set (pc' : RecordPc) :
    (calls.set i ⟨c.latency, pc'⟩).map Call.latency = calls.map Call.latency := by
  induction calls generalizing i with
  | nil => cases hc
  | cons a l ih =>
    cases i with
    | zero => obtain rfl : a = c := by simpa using hc
              rfl
    | succ i => simp [ih (by simpa using hc)]

/-- A counter that moves with a call's step stays its tally. -/
theorem counter_step (k : Nat) (g : UInt64 → Nat) {pc' : RecordPc} (hr : c.pc.rank ≤ pc'.rank)
    {old new : UInt64} (hold : old = .ofNat (tally (gate k g) calls))
    (hnew : new = old + stepGain k g c.latency c.pc pc') :
    new = .ofNat (tally (gate k g) (calls.set i ⟨c.latency, pc'⟩)) := by
  rw [hnew, hold, tally_set hc _ (gate_mono k g c.latency hr), uint64_ofNat_add]
  rfl

end Set

theorem Accounts.step {s : RecordRun} (h : Accounts s) (i : Nat) (b : Bool) :
    Accounts (s.step i b) := by
  unfold RecordRun.step
  cases hc : s.calls[i]? with
  | none => exact h
  | some c =>
    have hr := rank_le_step c.latency b s.tracker c.pc
    have hmem : c ∈ s.calls := List.getElem?_mem hc
    have hmin := step_min_le c.latency b s.tracker c.pc
    have hmax := step_max_ge c.latency b s.tracker c.pc
    exact {
      sampleCount := counter_step hc _ _ hr h.sampleCount (step_sampleCount ..)
      sum := counter_step hc _ _ hr h.sum (step_sum ..)
      histogram := fun n => counter_step hc _ _ hr (h.histogram n) (step_histogram ..)
      overflowCount := counter_step hc _ _ hr h.overflowCount (step_overflowCount ..)
      writeIndex := counter_step hc _ _ hr h.writeIndex (step_writeIndex ..)
      minMember := by
        rw [map_latency_set hc]
        rcases step_min_cases c.latency b s.tracker c.pc with e | e <;> rw [e]
        · exact h.minMember
        · exact .inr (List.mem_map_of_mem _ hmem)
      minBelow := forall_mem_set
        (fun d hd h4 => UInt64.le_trans hmin (h.minBelow d hd h4)) _ _
        (step_min_below _ _ _ _ (h.minBelow c hmem) (h.minCur c hmem))
      minCur := forall_mem_set
        (fun d hd cur e => UInt64.le_trans hmin (h.minCur d hd cur e)) _ _
        (step_min_cur _ _ _ _)
      maxMember := by
        rw [map_latency_set hc]
        rcases step_max_cases c.latency b s.tracker c.pc with e | e <;> rw [e]
        · exact h.maxMember
        · exact .inr (List.mem_map_of_mem _ hmem)
      maxAbove := forall_mem_set
        (fun d hd h6 => UInt64.le_trans (h.maxAbove d hd h6) hmax) _ _
        (step_max_above _ _ _ _ (h.maxAbove c hmem) (h.maxCur c hmem))
      maxCur := forall_mem_set
        (fun d hd cur e => UInt64.le_trans (h.maxCur d hd cur e) hmax) _ _
        (step_max_cur _ _ _ _) }

theorem Accounts.run {s : RecordRun} (h : Accounts s) :
    ∀ sched : List (Nat × Bool), Accounts (s.run sched)
  | [] => h
  | (i, b) :: rest => (h.step i b).run rest

theorem step_latencies (s : RecordRun) (i : Nat) (b : Bool) :
    (s.step i b).calls.map Call.latency = s.calls.map Call.latency := by
  unfold RecordRun.step
  cases hc : s.calls[i]? with
  | none => rfl
  | some c => exact map_latency_set hc _

theorem run_latencies (s : RecordRun) :
    ∀ sched : List (Nat × Bool), (s.run sched).calls.map Call.latency = s.calls.map Call.latency
  | [] => rfl
  | (i, b) :: rest => (run_latencies _ rest).trans (step_latencies s i b)

/-! ### Once every call has returned -/

theorem tally_done {calls : List Call} (h : ∀ c ∈ calls, c.pc = .done) {k : Nat} (hk : k ≤ 9)
    (g : UInt64 → Nat) : tally (gate k g) calls = ((calls.map Call.latency).map g).sum := by
  induction calls with
  | nil => rfl
  | cons c cs ih =>
    simp only [tally, List.map_cons, List.sum_cons, gate, h c (List.mem_cons_self _ _),
      RecordPc.rank, if_pos hk] at ih ⊢
    rw [ih fun d hd => h d (List.mem_cons_of_mem _ hd)]

theorem sum_map_indicator {α : Type} (p : α → Prop) [DecidablePred p] (xs : List α) :
    (xs.map fun x => if p x then 1 else 0).sum = xs.countP fun x => p x := by
  induction xs with
  | nil => rfl
  | cons x xs ih => simp [List.countP_cons, ih, add_comm]

theorem foldl_min_eq {m y : Nat} {xs : List Nat} (h1 : y ≤ m) (h2 : ∀ x ∈ xs, y ≤ x)
    (h3 : y = m ∨ y ∈ xs) : xs.foldl min m = y := by
  induction xs generalizing m with
  | nil => simpa [eq_comm] using h3
  | cons a l ih =>
    have ha := h2 a (List.mem_cons_self _ _)
    refine ih (le_min h1 ha) (fun x hx => h2 x (List.mem_cons_of_mem _ hx)) ?_
    rcases h3 with rfl | h
    · exact .inl (min_eq_left ha).symm
    · rcases List.mem_cons.mp h with rfl | h
      · exact .inl (min_eq_right h1).symm
      · exact .inr h

theorem foldl_max_eq {m y : Nat} {xs : List Nat} (h1 : m ≤ y) (h2 : ∀ x ∈ xs, x ≤ y)
    (h3 : y = m ∨ y ∈ xs) : xs.foldl max m = y := by
  induction xs generalizing m with
  | nil => simpa [eq_comm] using h3
  | cons a l ih =>
    have ha := h2 a (List.mem_cons_self _ _)
    refine ih (max_le h1 ha) (fun x hx => h2 x (List.mem_cons_of_mem _ hx)) ?_
    rcases h3 with rfl | h
    · exact .inl (max_eq_left ha).symm
    · rcases List.mem_cons.mp h with rfl | h
      · exact .inl (max_eq_right h1).symm
      · exact .inr h

theorem bucketOf_lt {x : UInt64} (h : x < maxTrackedNs) : bucketOf x < numBuckets := by
  simp only [bucketOf, UInt64.toNat_div, numBuckets]
  rw [uint64_lt_iff] at h
  exact Nat.div_lt_of_lt_mul (by simpa [bucketWidthNs, maxTrackedNs] using h)

/-- Every sample lands in exactly one bucket or in the overflow counter. -/
theorem buckets_add_overflow (xs : List UInt64) :
    xs.countP (fun x => maxTrackedNs ≤ x) +
      ((List.range numBuckets).map fun n => xs.countP fun x => x < maxTrackedNs ∧ bucketOf x = n).sum =
      xs.length := by
  induction xs with
  | nil => simp
  | cons x xs ih =>
    simp only [List.countP_cons, decide_eq_true_eq, List.sum_map_add, List.length_cons,
      sum_range_indicator]
    by_cases hx : x < maxTrackedNs
    · rw [if_neg (by rw [uint64_le_iff]; exact Nat.not_le.mpr hx), if_pos ⟨hx, bucketOf_lt hx⟩]
      omega
    · rw [if_pos (uint64_le_iff.mpr (Nat.le_of_not_lt hx)), if_neg fun h => hx h.1]
      omega

/-- A bound every call's sample obeys is a bound on every sample. -/
theorem forall_mem_samples {calls : List Call} {xs : List UInt64}
    (hxs : calls.map Call.latency = xs) {P : Nat → Prop} (h : ∀ c ∈ calls, P c.latency.toNat) :
    ∀ y ∈ xs.map UInt64.toNat, P y := by
  simp only [List.mem_map]
  rintro _ ⟨x, hx, rfl⟩
  obtain ⟨c, hc, rfl⟩ := List.mem_map.mp (hxs ▸ hx : x ∈ _)
  exact h c hc

theorem mem_samples {calls : List Call} {xs : List UInt64} (hxs : calls.map Call.latency = xs)
    {y : UInt64} (h : y ∈ calls.map Call.latency) : y.toNat ∈ xs.map UInt64.toNat :=
  List.mem_map_of_mem _ (hxs ▸ h)

/-- **Concurrent recording loses nothing.** Calls `record(x)` for each sample of
`xs`, started on a reset tracker and interleaved by any schedule, spurious
compare-exchange failures included. Once all of them have returned, the sample
count is the number of calls, the sum is the samples' sum mod 2^64, `min_` and
`max_` are the least and greatest sample (`UINT64_MAX` and `0` for none), each
bucket counts the tracked samples that fall in it and the overflow counter the
rest, so that the buckets and the overflow add up to the sample count. -/
theorem record_interleaved (xs : List UInt64) (sched : List (Nat × Bool))
    (hdone : ∀ c ∈ ((RecordRun.start xs).run sched).calls, c.pc = .done) :
    let t := ((RecordRun.start xs).run sched).tracker
    t.sampleCount = .ofNat xs.length ∧
      t.sum.toNat = (xs.map UInt64.toNat).sum % 2 ^ 64 ∧
      t.min.toNat = (xs.map UInt64.toNat).foldl min (2 ^ 64 - 1) ∧
      t.max.toNat = (xs.map UInt64.toNat).foldl max 0 ∧
      (∀ n, t.histogram n = .ofNat (xs.countP fun x => x < maxTrackedNs ∧ bucketOf x = n)) ∧
      t.overflowCount = .ofNat (xs.countP fun x => maxTrackedNs ≤ x) ∧
      (List.range numBuckets).foldl (fun acc n => acc + t.histogram n) t.overflowCount =
        t.sampleCount := by
  intro t
  have h := (accounts_start xs).run sched
  have hxs : ((RecordRun.start xs).run sched).calls.map Call.latency = xs := by
    rw [run_latencies]; simp [RecordRun.start, Function.comp_def]
  have hcount : t.sampleCount = .ofNat xs.length := by
    rw [h.sampleCount, tally_done hdone (by decide), hxs]; simp
  have hhist : ∀ n, t.histogram n = .ofNat (xs.countP fun x => x < maxTrackedNs ∧ bucketOf x = n) := by
    intro n
    rw [h.histogram, tally_done hdone (by decide), hxs, ← sum_map_indicator]; rfl
  have hover : t.overflowCount = .ofNat (xs.countP fun x => maxTrackedNs ≤ x) := by
    rw [h.overflowCount, tally_done hdone (by decide), hxs, ← sum_map_indicator]; rfl
  refine ⟨hcount, ?_, ?_, ?_, hhist, hover, ?_⟩
  · rw [h.sum, tally_done hdone (by decide), hxs]; rfl
  · refine (foldl_min_eq (by have := t.min.toNat_lt; omega) (forall_mem_samples hxs fun c hc =>
      h.minBelow c hc (by simp [hdone c hc, RecordPc.rank])) ?_).symm
    exact h.minMember.imp (fun e => by rw [e]; rfl) (mem_samples hxs)
  · refine (foldl_max_eq (Nat.zero_le _) (forall_mem_samples hxs fun c hc =>
      h.maxAbove c hc (by simp [hdone c hc, RecordPc.rank])) ?_).symm
    exact h.maxMember.imp (fun e => by rw [e]; rfl) (mem_samples hxs)
  · simp only [hhist, hover, hcount]
    rw [foldl_add_ofNat (fun n => xs.countP fun x => x < maxTrackedNs ∧ bucketOf x = n),
      buckets_add_overflow]

/-- Samples of 5 ns and 2 ms, the second call starting between the first's two
compare-exchange loops and failing one spuriously. -/
theorem record_interleaved_two_calls :
    let sched := [(0, false), (0, false), (0, false), (0, false), (1, false), (1, false),
      (1, false), (1, true), (1, false), (0, false), (0, false), (0, false), (0, false),
      (0, false), (1, false), (1, false), (1, false), (1, false), (1, false)]
    (∀ c ∈ ((RecordRun.start [5, 2000000]).run sched).calls, c.pc = .done) ∧
      let t := ((RecordRun.start [5, 2000000]).run sched).tracker
      t.sampleCount = .ofNat [5, 2000000].length ∧
      t.sum.toNat = ([5, 2000000].map UInt64.toNat).sum % 2 ^ 64 ∧
      t.min.toNat = ([5, 2000000].map UInt64.toNat).foldl min (2 ^ 64 - 1) ∧
      t.max.toNat = ([5, 2000000].map UInt64.toNat).foldl max 0 ∧
      (∀ n, t.histogram n =
        .ofNat ([5, 2000000].countP fun x => x < maxTrackedNs ∧ bucketOf x = n)) ∧
      t.overflowCount = .ofNat ([5, 2000000].countP fun x => maxTrackedNs ≤ x) ∧
      (List.range numBuckets).foldl (fun acc n => acc + t.histogram n) t.overflowCount =
        t.sampleCount :=
  ⟨by decide, record_interleaved _ _ (by decide)⟩

end MarketFeed.Stats
