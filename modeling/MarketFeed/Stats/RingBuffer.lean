import MarketFeed.Stats.Percentiles

/-!
# The ring buffer of the latency tracker

Each `record` call claims a slot with `write_index_.fetch_add(1)` and stores its
sample at `ring_buffer_[idx % RING_BUFFER_SIZE]`. `RING_BUFFER_SIZE` is `2^20`,
which divides `2^64`, so `write_index_` wrapping around does not disturb the
slots it names.

Recorded one after another, the samples land in consecutive slots: the last
`RING_BUFFER_SIZE` of them are all there, each in the slot its position names,
and no slot they do not reach changes (`recordAll_ringBuffer`). Under any
interleaving of at most `RING_BUFFER_SIZE` calls on a reset tracker, every
call claims its own slot, so once all have returned the first slots hold
exactly the samples, in some order (`ring_holds_every_sample`).
-/

namespace MarketFeed.Stats

open MarketFeed.Protocol (uint64_ofNat_add)

/-! ### One call at a time -/

@[simp] theorem LatencyTracker.addToBucket_ringBuffer (t : LatencyTracker) (x : UInt64) :
    (t.addToBucket x).ringBuffer = t.ringBuffer := by
  unfold addToBucket; split_ifs <;> rfl

@[simp] theorem LatencyTracker.record_writeIndex (t : LatencyTracker) (x : UInt64) :
    (t.record x).writeIndex = t.writeIndex + 1 := by
  simp only [record, addToBucket_writeIndex]
  split_ifs <;> rfl

@[simp] theorem LatencyTracker.record_ringBuffer (t : LatencyTracker) (x : UInt64) :
    (t.record x).ringBuffer =
      Function.update t.ringBuffer (t.writeIndex.toNat % ringBufferSize) x := by
  simp only [record, addToBucket_ringBuffer, addToBucket_writeIndex]
  split_ifs <;> rfl

/-- The slot a claimed index names does not see `write_index_` wrap. -/
theorem slot_succ (w : UInt64) (j : Nat) :
    ((w + 1).toNat + j) % ringBufferSize = (w.toNat + (j + 1)) % ringBufferSize := by
  have : (w + 1).toNat = (w.toNat + 1) % 2 ^ 64 := rfl
  rw [this, ringBufferSize]
  omega

/-- **The ring buffer holds the last samples.** After recording `xs` one after
another, `write_index_` has moved on by their number (modulo `2^64`); each of
the last `RING_BUFFER_SIZE` samples sits in the slot its position after the
old `write_index_` names; and a slot no sample reached keeps its value. -/
theorem recordAll_ringBuffer (xs : List UInt64) (t : LatencyTracker) :
    (t.recordAll xs).writeIndex = t.writeIndex + .ofNat xs.length ∧
      (∀ j (hj : j < xs.length), xs.length ≤ j + ringBufferSize →
        (t.recordAll xs).ringBuffer ((t.writeIndex.toNat + j) % ringBufferSize) = xs[j]) ∧
      (∀ i, (∀ j < xs.length, (t.writeIndex.toNat + j) % ringBufferSize ≠ i) →
        (t.recordAll xs).ringBuffer i = t.ringBuffer i) := by
  induction xs generalizing t with
  | nil => exact ⟨by simp [LatencyTracker.recordAll], fun j hj => absurd hj (Nat.not_lt_zero _),
      fun _ _ => rfl⟩
  | cons x xs ih =>
    obtain ⟨hw, hlast, hkeep⟩ := ih (t.record x)
    simp only [LatencyTracker.recordAll, List.foldl_cons] at hw hlast hkeep ⊢
    rw [LatencyTracker.record_writeIndex] at hw hlast hkeep
    simp only [slot_succ] at hlast hkeep
    refine ⟨by rw [hw, add_assoc, List.length_cons, Nat.add_comm, uint64_ofNat_add]; rfl,
      fun j hj hn => ?_, fun i hi => ?_⟩
    · cases j with
      | zero =>
        rw [List.length_cons] at hn
        rw [hkeep _ fun j hj' => ?_, LatencyTracker.record_ringBuffer, Nat.add_zero,
          Function.update_same]
        · rfl
        · rw [ringBufferSize] at hn ⊢; omega
      | succ j => exact hlast j (by simpa using hj) (by simp at hn; omega)
    · rw [hkeep i fun j hj' => hi (j + 1) (by simp; omega), LatencyTracker.record_ringBuffer,
        Function.update_noteq fun h => hi 0 (by simp) (by simpa using h.symm)]

/-! ### Interleaved calls -/

/-- What one step does to the ring buffer: only a store writes, into the slot
of the index it claimed. -/
theorem step_ringBuffer (x : UInt64) (b : Bool) (t : LatencyTracker) (pc : RecordPc) :
    (recordStep x b t pc).1.ringBuffer =
      match pc with
      | .storeSlot idx => Function.update t.ringBuffer (idx.toNat % ringBufferSize) x
      | _ => t.ringBuffer := by
  cases pc <;> simp only [recordStep, LatencyTracker.addToBucket_ringBuffer] <;> (try split_ifs) <;> rfl

/-- The claim step: `write_index_` moves on, and the call holds the old value. -/
theorem step_claimSlot (x : UInt64) (b : Bool) (t : LatencyTracker) :
    recordStep x b t .claimSlot = ({ t with writeIndex := t.writeIndex + 1 }, .storeSlot t.writeIndex) :=
  rfl

/-- Any other step leaves the ring buffer alone, and a call is past its claim
after it exactly when it was before; it holds no index unless it held one,
and it returns only if it had returned. -/
theorem step_quiet {x : UInt64} {b : Bool} {t : LatencyTracker} {pc : RecordPc}
    (h1 : pc ≠ .claimSlot) (h2 : ∀ idx, pc ≠ .storeSlot idx) :
    (recordStep x b t pc).1.ringBuffer = t.ringBuffer ∧
      (8 ≤ (recordStep x b t pc).2.rank ↔ 8 ≤ pc.rank) ∧
      (∀ idx, (recordStep x b t pc).2 ≠ .storeSlot idx) ∧
      ((recordStep x b t pc).2 = .done → pc = .done) := by
  cases pc <;> simp only [recordStep] <;> (try split_ifs) <;> simp_all [RecordPc.rank]

theorem getElem?_set_of_some {calls : List Call} {i : Nat} {c : Call} (hc : calls[i]? = some c)
    (c' : Call) (j : Nat) : (calls.set i c')[j]? = if j = i then some c' else calls[j]? := by
  have hi : i < calls.length := (List.getElem?_eq_some_iff.mp hc).1
  rw [List.getElem?_set]
  by_cases h : j = i
  · simp [h, hi]
  · simp [h, Ne.symm h]

/-- The slots the calls claimed, `claim i` for call `i`: below the number of
claims made, one for each call past its claim, the one a call about to store
holds, and holding the sample of every call that has returned. -/
structure RingClaims (s : RecordRun) (claim : Nat → Nat) : Prop where
  below : ∀ i c, s.calls[i]? = some c → 8 ≤ c.pc.rank → claim i < tally (gate 8 fun _ => 1) s.calls
  storing : ∀ i c idx, s.calls[i]? = some c → c.pc = .storeSlot idx → idx.toNat = claim i
  distinct : ∀ i j ci cj, s.calls[i]? = some ci → s.calls[j]? = some cj → 8 ≤ ci.pc.rank →
    8 ≤ cj.pc.rank → claim i = claim j → i = j
  stored : ∀ i c, s.calls[i]? = some c → c.pc = .done → s.tracker.ringBuffer (claim i) = c.latency

theorem tally_gate_le_length (k : Nat) (calls : List Call) :
    tally (gate k fun _ => 1) calls ≤ calls.length := by
  induction calls with
  | nil => exact Nat.le_refl _
  | cons c cs ih =>
    simp only [tally, gate, List.map_cons, List.sum_cons, List.length_cons] at ih ⊢
    split_ifs <;> omega

theorem gate_eight (x : UInt64) (pc : RecordPc) :
    gate 8 (fun _ => 1) ⟨x, pc⟩ = if 8 ≤ pc.rank then 1 else 0 := rfl

theorem step_length (s : RecordRun) (i : Nat) (b : Bool) :
    (s.step i b).calls.length = s.calls.length := by
  simpa using congrArg List.length (step_latencies s i b)

section Step

variable {s : RecordRun} {claim : Nat → Nat} {i : Nat} {c : Call}

/-- A step of call `i` that moves no call past its claim and leaves it about to
store nothing keeps the claims, once the slots of the returned calls hold their
samples. -/
theorem RingClaims.keep (h : RingClaims s claim) (hc : s.calls[i]? = some c)
    {t : LatencyTracker} {pc : RecordPc} (hrank : 8 ≤ pc.rank ↔ 8 ≤ c.pc.rank)
    (hstore : ∀ idx, pc ≠ .storeSlot idx)
    (hstored : ∀ (j : Nat) (d : Call), (s.calls.set i ⟨c.latency, pc⟩)[j]? = some d → d.pc = .done →
      t.ringBuffer (claim j) = d.latency) :
    RingClaims ⟨t, s.calls.set i ⟨c.latency, pc⟩⟩ claim := by
  have hget := getElem?_set_of_some hc ⟨c.latency, pc⟩
  have hpast : ∀ (j : Nat) (d : Call), (s.calls.set i ⟨c.latency, pc⟩)[j]? = some d → 8 ≤ d.pc.rank →
      ∃ d' : Call, s.calls[j]? = some d' ∧ 8 ≤ d'.pc.rank := by
    intro j d hd h8
    rw [hget] at hd
    split_ifs at hd with hji
    · subst hji; cases hd; exact ⟨c, hc, hrank.mp h8⟩
    · exact ⟨d, hd, h8⟩
  have hg : gate 8 (fun _ => 1) ⟨c.latency, pc⟩ = gate 8 (fun _ => 1) c := by
    simp only [gate, hrank]
  have htally := tally_set hc (gate 8 fun _ => 1) hg.ge
  rw [hg, Nat.sub_self, Nat.add_zero] at htally
  refine ⟨fun j d hd h8 => ?_, fun j d idx hd hpc => ?_,
    fun j k dj dk hdj hdk h8j h8k heq => ?_, hstored⟩
  · obtain ⟨d', hd', h8'⟩ := hpast j d hd h8
    exact htally ▸ h.below j d' hd' h8'
  · rw [hget] at hd
    split_ifs at hd with hji
    · subst hji; cases hd; exact absurd hpc (hstore idx)
    · exact h.storing j d idx hd hpc
  · obtain ⟨dj', hdj', h8j'⟩ := hpast j dj hdj h8j
    obtain ⟨dk', hdk', h8k'⟩ := hpast k dk hdk h8k
    exact h.distinct j k dj' dk' hdj' hdk' h8j' h8k' heq

/-- The claim step of call `i` gives it the next slot, the number of claims
made so far, which `write_index_` names while it has not wrapped. -/
theorem RingClaims.claimStep (h : RingClaims s claim) (ha : Accounts s)
    (hn : s.calls.length ≤ ringBufferSize) (hc : s.calls[i]? = some c) (hcl : c.pc = .claimSlot)
    (b : Bool) :
    RingClaims ⟨(recordStep c.latency b s.tracker c.pc).1,
        s.calls.set i ⟨c.latency, (recordStep c.latency b s.tracker c.pc).2⟩⟩
      (Function.update claim i (tally (gate 8 fun _ => 1) s.calls)) := by
  have hw : s.tracker.writeIndex.toNat = tally (gate 8 fun _ => 1) s.calls := by
    have hT := tally_gate_le_length 8 s.calls
    rw [ha.writeIndex]
    exact Nat.mod_eq_of_lt (by rw [ringBufferSize] at hn; omega)
  have hget := getElem?_set_of_some hc
  have hset := tally_set hc (gate 8 fun _ => 1)
    (gate_mono 8 _ c.latency (rank_le_step c.latency b s.tracker c.pc))
  rw [hcl, step_claimSlot] at hset ⊢
  simp [gate, hcl, RecordPc.rank] at hset
  constructor
  · intro j d hd h8
    rw [hget] at hd
    split_ifs at hd with hji
    · subst hji; rw [Function.update_same, hset]; omega
    · rw [Function.update_noteq hji, hset]
      have := h.below j d hd h8; omega
  · intro j d idx hd hpc
    rw [hget] at hd
    split_ifs at hd with hji
    · subst hji; cases hd; cases hpc
      rw [Function.update_same, hw]
    · rw [Function.update_noteq hji]; exact h.storing j d idx hd hpc
  · intro j k dj dk hdj hdk h8j h8k heq
    rw [hget] at hdj hdk
    split_ifs at hdj hdk with hji hki hki
    · exact hji.trans hki.symm
    · rw [hji, Function.update_same, Function.update_noteq hki] at heq
      exact absurd heq (Nat.ne_of_gt (h.below k dk hdk h8k))
    · rw [hki, Function.update_same, Function.update_noteq hji] at heq
      exact absurd heq (Nat.ne_of_lt (h.below j dj hdj h8j))
    · rw [Function.update_noteq hji, Function.update_noteq hki] at heq
      exact h.distinct j k dj dk hdj hdk h8j h8k heq
  · intro j d hd hpc
    rw [hget] at hd
    split_ifs at hd with hji
    · subst hji; cases hd; cases hpc
    · rw [Function.update_noteq hji]; exact h.stored j d hd hpc

/-- The store of call `i` fills the slot it claimed, which no other call that
is past its claim holds. -/
theorem RingClaims.storeStep (h : RingClaims s claim) (hn : s.calls.length ≤ ringBufferSize)
    (hc : s.calls[i]? = some c) {idx : UInt64} (hidx : c.pc = .storeSlot idx) (b : Bool) :
    RingClaims ⟨(recordStep c.latency b s.tracker c.pc).1,
        s.calls.set i ⟨c.latency, (recordStep c.latency b s.tracker c.pc).2⟩⟩ claim := by
  have hslot : idx.toNat % ringBufferSize = claim i := by
    have hci : claim i < ringBufferSize :=
      Nat.lt_of_lt_of_le (h.below i c hc (by rw [hidx]; exact Nat.le_refl _))
        ((tally_gate_le_length 8 s.calls).trans hn)
    rw [h.storing i c idx hc hidx]; exact Nat.mod_eq_of_lt hci
  have hr : recordStep c.latency b s.tracker c.pc =
      ({ s.tracker with ringBuffer :=
          Function.update s.tracker.ringBuffer (idx.toNat % ringBufferSize) c.latency }, .done) := by
    rw [hidx]; rfl
  rw [hr]
  refine h.keep hc (by simp [hidx, RecordPc.rank]) (fun _ e => RecordPc.noConfusion e)
    fun j d hd hpc => ?_
  rw [getElem?_set_of_some hc] at hd
  show Function.update _ _ _ (claim j) = _
  split_ifs at hd with hji
  · subst hji; cases hd
    rw [hslot, Function.update_same]
  · have hne : claim j ≠ claim i := fun e =>
      hji (h.distinct j i d c hd hc (by rw [hpc]; exact Nat.le_succ _)
        (by rw [hidx]; exact Nat.le_refl _) e)
    rw [hslot, Function.update_noteq hne]
    exact h.stored j d hd hpc

end Step

/-- **One step keeps the claims**, with at most `RING_BUFFER_SIZE` calls: the
claim step of a call gives it the next slot, a store fills the slot its call
claimed, and every other step leaves the claims and the slots alone. -/
theorem RingClaims.step {s : RecordRun} {claim : Nat → Nat} (h : RingClaims s claim)
    (ha : Accounts s) (hn : s.calls.length ≤ ringBufferSize) (i : Nat) (b : Bool) :
    ∃ claim', RingClaims (s.step i b) claim' := by
  unfold RecordRun.step
  cases hc : s.calls[i]? with
  | none => exact ⟨claim, h⟩
  | some c =>
    by_cases hcl : c.pc = .claimSlot
    · exact ⟨_, h.claimStep ha hn hc hcl b⟩
    by_cases hst : ∃ idx, c.pc = .storeSlot idx
    · obtain ⟨idx, hidx⟩ := hst
      exact ⟨claim, h.storeStep hn hc hidx b⟩
    obtain ⟨hring, hrank, hnostore, hdone⟩ :=
      step_quiet (x := c.latency) (b := b) (t := s.tracker) hcl fun idx e => hst ⟨idx, e⟩
    refine ⟨claim, h.keep hc hrank hnostore fun j d hd hpc => ?_⟩
    rw [hring]
    rw [getElem?_set_of_some hc] at hd
    split_ifs at hd with hji
    · subst hji; cases hd; exact h.stored j c hc (hdone hpc)
    · exact h.stored j d hd hpc

theorem RingClaims.run {s : RecordRun} {claim : Nat → Nat} (h : RingClaims s claim)
    (ha : Accounts s) (hn : s.calls.length ≤ ringBufferSize) :
    ∀ sched : List (Nat × Bool), ∃ claim', RingClaims (s.run sched) claim'
  | [] => ⟨claim, h⟩
  | (i, b) :: rest => by
    obtain ⟨claim', h'⟩ := h.step ha hn i b
    exact h'.run (ha.step i b) (by rw [step_length]; exact hn) rest

theorem ringClaims_start (xs : List UInt64) : RingClaims (RecordRun.start xs) fun _ => 0 := by
  have hpc : ∀ (i : Nat) (c : Call), (RecordRun.start xs).calls[i]? = some c → c.pc = .start := by
    intro i c hc
    obtain ⟨x, -, rfl⟩ := List.mem_map.mp (List.getElem?_mem hc)
    rfl
  have hrank : ∀ (i : Nat) (c : Call), (RecordRun.start xs).calls[i]? = some c → ¬ 8 ≤ c.pc.rank :=
    fun i c hc => by rw [hpc i c hc]; decide
  refine ⟨fun i c hc h8 => absurd h8 (hrank i c hc), fun i c idx hc e => ?_,
    fun i j ci cj hi _ h8 _ _ => absurd h8 (hrank i ci hi), fun i c hc e => ?_⟩
  all_goals rw [hpc i c hc] at e; cases e

/-- Slots filled through a claim that sends `[0, n)` one-to-one into itself,
slot `claim i` holding the `i`-th sample, hold the samples, each once. -/
theorem map_range_perm (claim : Nat → Nat) {f : Nat → UInt64} {xs : List UInt64}
    (hinj : ∀ i < xs.length, ∀ j < xs.length, claim i = claim j → i = j)
    (hlt : ∀ i < xs.length, claim i < xs.length)
    (hstore : ∀ i (h : i < xs.length), f (claim i) = xs[i]) :
    ((List.range xs.length).map f).Perm xs := by
  have hperm : ((List.range xs.length).map claim).Perm (List.range xs.length) := by
    refine ((List.Nodup.map_on (fun i hi j hj e => ?_) (List.nodup_range _)).subperm
      fun k hk => ?_).perm_of_length_le (by simp)
    · exact hinj i (List.mem_range.mp hi) j (List.mem_range.mp hj) e
    · obtain ⟨i, hi, rfl⟩ := List.mem_map.mp hk
      exact List.mem_range.mpr (hlt i (List.mem_range.mp hi))
  have hslots : (List.range xs.length).map (fun i => f (claim i)) = xs :=
    List.ext_getElem (by simp) fun i _ h₂ => by rw [List.getElem_map, List.getElem_range, hstore i h₂]
  have h := (hperm.map f).symm
  rwa [List.map_map, Function.comp_def, hslots] at h

/-- **No sample is lost from the ring buffer.** Calls `record(x)` for each
sample of `xs`, at most `RING_BUFFER_SIZE` of them, started on a reset tracker
and interleaved by any schedule, spurious compare-exchange failures included.
Once all have returned, `write_index_` is the number of calls, and the first
that many slots of `ring_buffer_` hold exactly the samples, each once, in some
order. -/
theorem ring_holds_every_sample (xs : List UInt64) (hn : xs.length ≤ ringBufferSize)
    (sched : List (Nat × Bool))
    (hdone : ∀ c ∈ ((RecordRun.start xs).run sched).calls, c.pc = .done) :
    ((RecordRun.start xs).run sched).tracker.writeIndex = .ofNat xs.length ∧
      ((List.range xs.length).map ((RecordRun.start xs).run sched).tracker.ringBuffer).Perm xs := by
  have ha := (accounts_start xs).run sched
  have hlat : ((RecordRun.start xs).run sched).calls.map Call.latency = xs := by
    rw [run_latencies]; simp [RecordRun.start, Function.comp_def]
  have hlen : ((RecordRun.start xs).run sched).calls.length = xs.length := by
    simpa using congrArg List.length hlat
  obtain ⟨claim, hcl⟩ := (ringClaims_start xs).run (accounts_start xs)
    (by simpa [RecordRun.start] using hn) sched
  have htally : tally (gate 8 fun _ => 1) ((RecordRun.start xs).run sched).calls = xs.length := by
    rw [tally_done hdone (by decide), hlat]
    simp
  refine ⟨by rw [ha.writeIndex, htally], ?_⟩
  have hcall : ∀ i (hi : i < xs.length), ∃ c, ((RecordRun.start xs).run sched).calls[i]? = some c ∧
      c.pc = .done ∧ c.latency = xs[i] := by
    intro i hi
    obtain ⟨c, hc⟩ : ∃ c, ((RecordRun.start xs).run sched).calls[i]? = some c :=
      ⟨_, List.getElem?_eq_getElem (hlen ▸ hi)⟩
    refine ⟨c, hc, hdone c (List.getElem?_mem hc), ?_⟩
    have h' := congrArg (·[i]?) hlat
    simp only [List.getElem?_map, hc, Option.map_some', List.getElem?_eq_getElem hi] at h'
    exact Option.some_inj.mp h'
  refine map_range_perm claim (fun i hi j hj e => ?_) (fun i hi => ?_) fun i hi => ?_
  · obtain ⟨ci, hci, hpi, -⟩ := hcall i hi
    obtain ⟨cj, hcj, hpj, -⟩ := hcall j hj
    exact hcl.distinct i j ci cj hci hcj (by rw [hpi]; exact Nat.le_succ _)
      (by rw [hpj]; exact Nat.le_succ _) e
  · obtain ⟨c, hc, hpc, -⟩ := hcall i hi
    exact htally ▸ hcl.below i c hc (by rw [hpc]; exact Nat.le_succ _)
  · obtain ⟨c, hc, hpc, hx⟩ := hcall i hi
    rw [hcl.stored i c hc hpc, hx]

/-- Samples of 5 ns and 2 ms, the first call stopping just before its claim
while the second runs to the end: the second sample takes slot 0. -/
theorem ring_holds_every_sample_claim_overtaken :
    let sched := List.replicate 7 (0, false) ++ List.replicate 10 (1, false) ++
      List.replicate 3 (0, false)
    [5, 2000000].length ≤ ringBufferSize ∧
      (∀ c ∈ ((RecordRun.start [5, 2000000]).run sched).calls, c.pc = .done) ∧
      ((RecordRun.start [5, 2000000]).run sched).tracker.ringBuffer 0 = 2000000 ∧
      ((RecordRun.start [5, 2000000]).run sched).tracker.writeIndex = .ofNat [5, 2000000].length ∧
      ((List.range [5, 2000000].length).map
        ((RecordRun.start [5, 2000000]).run sched).tracker.ringBuffer).Perm [5, 2000000] :=
  ⟨by decide, by decide, by decide, ring_holds_every_sample _ (by decide) _ (by decide)⟩

end MarketFeed.Stats
