import MarketFeed.Common.PoolArena

/-!
# The two models of the pool agree

`Common.MemoryPool` runs the calls of several threads one atomic step at a
time, with blocks as indices; `Common.PoolArena` runs whole calls from one
caller on the pool's 64-bit words, with blocks at their addresses. When no two
calls overlap, the first is the second in slow motion: every step of a thread
either leaves the pool's words as they are or is one whole `allocate` or
`deallocate` at the addresses, block `i` standing at
`aligned_base_ + i * block_size_` (`Refines.step`). A call's exchange is the
moment it happens at the addresses: `allocate`'s takes the head, `deallocate`'s
puts the block back.

So every sequential run of the step model is matched by a run of whole calls
that gives back only held blocks, with the same free list at the blocks'
addresses and the threads' blocks as the caller's (`sequential_run_refines`);
the blocks the threads hold are then cache-aligned, apart and inside the
storage, and at rest the two counters agree.
-/

namespace MarketFeed.Common

/-- The pool `q`, at its addresses, stands for the index pool `p` whose free
list is `F` and whose other blocks are `blocks`: the address free list is `F`
with block `i` at `q.block i`, and the caller's blocks `hq` are `blocks` at
theirs. -/
structure Represents (q : PoolMemory) (hq : List UInt64) (p : MemoryPool) (F blocks : List Nat) :
    Prop where
  layout : Layout q
  numBlocks : q.numBlocks.toNat = p.numBlocks
  chain : Chain p.next p.freeList F
  addrChain : AddrChain q.next q.freeList (F.map q.block)
  perm : (F ++ blocks).Perm (List.range p.numBlocks)
  held : hq.Perm (blocks.map q.block)

theorem PoolCall.run_append (p : PoolMemory) (held : List UInt64) (cs cs' : List PoolCall) :
    PoolCall.run p held (cs ++ cs') =
      PoolCall.run (PoolCall.run p held cs).1 (PoolCall.run p held cs).2 cs' := by
  induction cs generalizing p held with
  | nil => rfl
  | cons c cs ih => exact ih _ _

theorem PoolCall.valid_append {p : PoolMemory} {held : List UInt64} {cs cs' : List PoolCall}
    (h : PoolCall.Valid p held cs)
    (h' : PoolCall.Valid (PoolCall.run p held cs).1 (PoolCall.run p held cs).2 cs') :
    PoolCall.Valid p held (cs ++ cs') := by
  induction cs generalizing p held with
  | nil => exact h'
  | cons c cs ih => exact ⟨h.1, ih h.2 h'⟩

section Represents

variable {q : PoolMemory} {hq : List UInt64} {p p' : MemoryPool} {F blocks blocks' : List Nat}

theorem Represents.mem_blocks (h : Represents q hq p F blocks) {i : Nat}
    (hi : i ∈ F ++ blocks) : q.block i ∈ q.blocks := by
  have := List.mem_range.mp (h.perm.mem_iff.mp hi)
  exact PoolMemory.mem_blocks.mpr ⟨i, h.numBlocks ▸ this, rfl⟩

/-- Different blocks of the pool are at different addresses. -/
theorem Represents.block_inj (h : Represents q hq p F blocks) {i j : Nat}
    (hi : i ∈ F ++ blocks) (hj : j ∈ F ++ blocks) (he : q.block i = q.block j) : i = j := by
  have hi' := h.numBlocks ▸ List.mem_range.mp (h.perm.mem_iff.mp hi)
  have hj' := h.numBlocks ▸ List.mem_range.mp (h.perm.mem_iff.mp hj)
  have hge := h.layout.blockSize_ge
  by_contra hne
  rcases Nat.lt_or_gt_of_ne hne with hij | hji
  · have := h.layout.block_apart hij hj'; rw [he] at this; omega
  · have := h.layout.block_apart hji hi'; rw [he] at this; omega

/-- A step that moves no block: the words stay, the index pool may change off the list. -/
theorem Represents.stutter (h : Represents q hq p F blocks) (hc : Chain p'.next p'.freeList F)
    (hn : p'.numBlocks = p.numBlocks) (hb : blocks'.Perm blocks) :
    Represents q hq p' F blocks' :=
  ⟨h.layout, hn ▸ h.numBlocks, hc, h.addrChain, hn ▸ (hb.append_left F).trans h.perm,
    h.held.trans (hb.map _).symm⟩

/-- Taking block `n` off the list is `allocate()` at the addresses, which
returns block `n`. -/
theorem Represents.allocate {n : Nat} {F' : List Nat} (h : Represents q hq p (n :: F') blocks)
    (hc : Chain p'.next p'.freeList F') (hn : p'.numBlocks = p.numBlocks) :
    q.allocate.2 = q.block n ∧
      Represents (PoolCall.apply q hq .allocate).1 (PoolCall.apply q hq .allocate).2 p' F'
        (blocks ++ [n]) := by
  obtain ⟨hhead, h0, hac⟩ := h.addrChain
  have ha : q.allocate = ({ q with freeList := q.next (q.block n),
                                   allocatedCount := q.allocatedCount + 1 }, q.block n) := by
    rw [PoolMemory.allocate, if_neg (hhead ▸ h0), hhead]
  refine ⟨by rw [ha], ?_⟩
  simp only [PoolCall.apply, ha, if_neg h0]
  refine ⟨h.layout.with _ _ _, hn ▸ h.numBlocks, hc, hac, hn ▸ ?_, ?_⟩
  · exact (perm_move F' [] blocks n).trans h.perm
  · rw [List.map_append, List.map_singleton]
    exact h.held.append_right _

/-- Putting block `b` back on the list is `deallocate` of its address, which the
caller holds. -/
theorem Represents.deallocate {b : Nat} (h : Represents q hq p F blocks)
    (hb : blocks' ++ [b] = blocks) (hc : Chain p'.next p'.freeList (b :: F))
    (hn : p'.numBlocks = p.numBlocks) :
    (PoolCall.deallocate (q.block b)).allowed hq ∧
      Represents (PoolCall.apply q hq (.deallocate (q.block b))).1
        (PoolCall.apply q hq (.deallocate (q.block b))).2 p' (b :: F) blocks' := by
  have hmem : b ∈ F ++ blocks := List.mem_append_right _ (hb ▸ List.mem_append_right _ (by simp))
  have hbq := h.mem_blocks hmem
  have hnd := h.perm.nodup_iff.mpr (List.nodup_range _)
  have hbF : b ∉ F := fun hbF => List.disjoint_of_nodup_append hnd hbF (hb ▸ by simp)
  have hheld : q.block b ∈ hq := h.held.mem_iff.mpr (List.mem_map_of_mem _ (hb ▸ by simp))
  refine ⟨hheld, ?_⟩
  simp only [PoolCall.apply, h.layout.deallocate_block hbq]
  refine ⟨h.layout.with _ _ _, hn ▸ h.numBlocks, hc, ⟨rfl, h.layout.ne_zero_of_mem hbq, ?_⟩,
    hn ▸ ?_, ?_⟩
  · show AddrChain (Function.update q.next (q.block b) q.freeList)
      (Function.update q.next (q.block b) q.freeList (q.block b)) (F.map q.block)
    rw [Function.update_same]
    refine h.addrChain.congr fun a ha => Function.update_noteq ?_ _ _
    obtain ⟨i, hi, rfl⟩ := List.mem_map.mp ha
    exact fun he => hbF (h.block_inj (List.mem_append_left _ hi) hmem he ▸ hi)
  · exact (hb ▸ perm_move F [] blocks' b).symm.trans h.perm
  · have h1 : hq.Perm (q.block b :: blocks'.map q.block) := by
      have := h.held
      rw [← hb, List.map_append, List.map_singleton] at this
      exact this.trans (List.perm_append_singleton _ _)
    show (hq.erase (q.block b)).Perm (blocks'.map q.block)
    simpa using h1.erase (q.block b)

end Represents

/-! ### Steps and runs -/

section Step

variable {q : PoolMemory} {hq : List UInt64} {p : MemoryPool} {t : PoolThread} {F others : List Nat}

/-- **One step of the call under way is no call or one whole call.** -/
theorem threadStep_refines (s : Bool) (h : Represents q hq p F (others ++ t.blocks))
    (hpc : PcOk p t.pc) :
    ∃ cs : List PoolCall, PoolCall.Valid q hq cs ∧ ∃ F',
      Represents (PoolCall.run q hq cs).1 (PoolCall.run q hq cs).2 (p.threadStep t s).1 F'
        (others ++ (p.threadStep t s).2.blocks) ∧
      PcOk (p.threadStep t s).1 (p.threadStep t s).2.pc := by
  have hn := MemoryPool.threadStep_numBlocks p t s
  obtain ⟨hpc', ⟨hc', hb⟩ | ⟨n, F', rfl, hc', hb⟩ | ⟨b, hc', hb⟩⟩ :=
    threadStep_moves s h.chain (h.perm.nodup_iff.mpr (List.nodup_range _)) hpc
  · exact ⟨[], trivial, F, h.stutter hc' hn (hb.append_left others), hpc'⟩
  · refine ⟨[.allocate], ⟨trivial, trivial⟩, F', ?_, hpc'⟩
    rw [hb, ← List.append_assoc]
    exact (h.allocate hc' hn).2
  · obtain ⟨ha, h'⟩ := h.deallocate
      (show others ++ (p.threadStep t s).2.blocks ++ [b] = others ++ t.blocks by
        rw [List.append_assoc, hb]) hc' hn
    exact ⟨[.deallocate (q.block b)], ⟨ha, trivial⟩, b :: F, h', hpc'⟩

end Step

/-- The run `r` of the step model is the pool `q` at its addresses with the
caller's blocks `hq`: the threads' blocks are the caller's, and what each call
under way has read of the pool is still true. -/
structure Refines (q : PoolMemory) (hq : List UInt64) (r : PoolRun) : Prop where
  represents : ∃ F, Represents q hq r.pool F (r.threads.flatMap PoolThread.blocks)
  pcs : ∀ t ∈ r.threads, PcOk r.pool t.pc

/-- **One step of a sequential schedule** is matched by no call or one call
that gives back a held block. -/
theorem Refines.step {q : PoolMemory} {hq : List UInt64} {r : PoolRun} (h : Refines q hq r)
    {i : Nat} (hx : r.Exclusive i) (s : Bool) :
    ∃ cs : List PoolCall, PoolCall.Valid q hq cs ∧
      Refines (PoolCall.run q hq cs).1 (PoolCall.run q hq cs).2 (r.step i s) := by
  unfold PoolRun.step
  rcases ht : r.threads[i]? with _ | t
  · exact ⟨[], trivial, h⟩
  · obtain ⟨F, hR⟩ := h.represents
    have hold := set_eq_self ht ▸ flatMap_set_perm ht t PoolThread.blocks
    obtain ⟨cs, hv, F', hR', hpc'⟩ := threadStep_refines s (hR.stutter hR.chain rfl hold.symm)
      (h.pcs t (List.mem_iff_getElem?.mpr ⟨i, ht⟩))
    refine ⟨cs, hv, ⟨F', hR'.stutter hR'.chain rfl (flatMap_set_perm ht _ _)⟩, fun u hu => ?_⟩
    rcases mem_set_cases hu with rfl | ⟨j, hj, hji, rfl⟩
    · exact hpc'
    · rw [hx j hj hji]
      trivial

theorem Refines.run (sched : List (Nat × Bool)) :
    ∀ {q : PoolMemory} {hq : List UInt64} {r : PoolRun}, Refines q hq r → r.Sequential sched →
      ∃ cs : List PoolCall, PoolCall.Valid q hq cs ∧
        Refines (PoolCall.run q hq cs).1 (PoolCall.run q hq cs).2 (r.run sched) := by
  induction sched with
  | nil => exact fun h _ => ⟨[], trivial, h⟩
  | cons a sched ih =>
    intro q hq r h hseq
    obtain ⟨cs, hv, h'⟩ := h.step hseq.1 a.2
    obtain ⟨cs', hv', h''⟩ := ih h' hseq.2
    exact ⟨cs ++ cs', PoolCall.valid_append hv hv', by rw [PoolCall.run_append]; exact h''⟩

/-- The constructor and `reset()` of both models agree: the list runs from the
last block down to block `0`, and no thread holds a block. -/
theorem refines_start {blockSize numBlocks base : UInt64} (hfit : SizesFit blockSize numBlocks)
    (hbase : StorageFits blockSize numBlocks base) (programs : List (List PoolOp)) :
    Refines (PoolMemory.construct blockSize numBlocks base) []
      ⟨.reset numBlocks.toNat, programs.map (⟨·, .idle, []⟩)⟩ := by
  have hnil : (programs.map (⟨·, .idle, []⟩)).flatMap PoolThread.blocks = [] :=
    List.flatMap_eq_nil_iff.mpr fun t ht => by obtain ⟨_, -, rfl⟩ := List.mem_map.mp ht; rfl
  have hL := layout_construct hfit hbase (fun _ => 0) 0 0
  refine ⟨⟨(List.range numBlocks.toNat).reverse, ⟨(ArenaOk.construct hfit hbase).layout, rfl,
    reset_chain _, ?_, ?_, by rw [hnil]; exact .nil⟩⟩, fun t ht => ?_⟩
  · rw [List.map_reverse]
    exact hL.pushBlocks_chain _ (Nat.le_refl _)
  · rw [hnil, List.append_nil]
    exact List.reverse_perm _
  · obtain ⟨_, -, rfl⟩ := List.mem_map.mp ht
    trivial

/-- **The step model refines the pool at its addresses.** For sizes whose
rounding and `total_size` fit, any placement of the storage, any threads'
programs and any schedule in which no two calls overlap, spurious exchange
failures included: some run of whole `allocate`s and `deallocate`s from the
constructed pool, each `deallocate` giving back a held block, leaves the same
free list at the blocks' addresses and the threads' blocks as the caller's. So
those blocks are distinct, cache-aligned, apart and inside the storage, and
once every thread is between calls `allocated_count_` is the same in both. -/
theorem sequential_run_refines (blockSize numBlocks base : UInt64)
    (hfit : SizesFit blockSize numBlocks) (hbase : StorageFits blockSize numBlocks base)
    (programs : List (List PoolOp)) (sched : List (Nat × Bool))
    (hseq : PoolRun.Sequential ⟨.reset numBlocks.toNat, programs.map (⟨·, .idle, []⟩)⟩ sched) :
    ∃ calls : List PoolCall,
      PoolCall.Valid (PoolMemory.construct blockSize numBlocks base) [] calls ∧
      Refines (PoolCall.run (PoolMemory.construct blockSize numBlocks base) [] calls).1
        (PoolCall.run (PoolMemory.construct blockSize numBlocks base) [] calls).2
        (PoolRun.run ⟨.reset numBlocks.toNat, programs.map (⟨·, .idle, []⟩)⟩ sched) ∧
      PoolSound (PoolCall.run (PoolMemory.construct blockSize numBlocks base) [] calls).1
        (PoolCall.run (PoolMemory.construct blockSize numBlocks base) [] calls).2 ∧
      ((∀ t ∈ (PoolRun.run ⟨.reset numBlocks.toNat, programs.map (⟨·, .idle, []⟩)⟩ sched).threads,
          t.pc = .idle) →
        (PoolCall.run (PoolMemory.construct blockSize numBlocks base) [] calls).1.allocatedCount =
          (PoolRun.run ⟨.reset numBlocks.toNat, programs.map (⟨·, .idle, []⟩)⟩ sched).pool.allocatedCount) := by
  obtain ⟨calls, hv, h⟩ := (refines_start hfit hbase programs).run sched hseq
  have ha := (ArenaOk.construct hfit hbase).run calls hv
  refine ⟨calls, hv, h, ha.sound, fun hidle => ?_⟩
  obtain ⟨F, hR⟩ := h.represents
  have h0 : PoolRun.CountOk ⟨.reset numBlocks.toNat, programs.map (⟨·, .idle, []⟩)⟩ := by
    simp [PoolRun.CountOk, MemoryPool.reset, PoolThread.owed, PoolPc.inDealloc, Function.comp_def]
  have hc := h0.run sched
  have howed : ∀ t ∈ (PoolRun.run ⟨.reset numBlocks.toNat, programs.map (⟨·, .idle, []⟩)⟩ sched).threads,
      t.owed = t.blocks.length := fun t ht => by
    simp [PoolThread.owed, PoolThread.blocks, hidle t ht, PoolPc.inDealloc, PoolPc.inFlight]
  have hlen := ha.count
  have hlt := (PoolCall.run (PoolMemory.construct blockSize numBlocks base) [] calls).1.allocatedCount.toNat_lt
  rw [hR.held.length_eq, List.length_map, List.length_flatMap, Function.comp_def] at hlen
  unfold PoolRun.CountOk at hc
  rw [List.map_congr_left howed] at hc
  rw [UInt64.ext_iff, hc, ← hlen]
  exact (Nat.mod_eq_of_lt hlt).symm

/-- The calls of `pool_aba_double_hold` made one after another, on three blocks
of 100 bytes whose storage is placed at address 4096. -/
theorem sequential_run_refines_aba_calls :
    let programs := [[PoolOp.alloc, .alloc], [.alloc, .alloc, .dealloc 0]]
    let sched := List.replicate 8 (0, false) ++ List.replicate 12 (1, false)
    SizesFit 100 3 ∧ StorageFits 100 3 4096 ∧
      PoolRun.Sequential ⟨.reset (3 : UInt64).toNat, programs.map (⟨·, .idle, []⟩)⟩ sched ∧
      ∃ calls : List PoolCall,
        PoolCall.Valid (PoolMemory.construct 100 3 4096) [] calls ∧
        Refines (PoolCall.run (PoolMemory.construct 100 3 4096) [] calls).1
          (PoolCall.run (PoolMemory.construct 100 3 4096) [] calls).2
          (PoolRun.run ⟨.reset (3 : UInt64).toNat, programs.map (⟨·, .idle, []⟩)⟩ sched) ∧
        PoolSound (PoolCall.run (PoolMemory.construct 100 3 4096) [] calls).1
          (PoolCall.run (PoolMemory.construct 100 3 4096) [] calls).2 ∧
        ((∀ t ∈ (PoolRun.run ⟨.reset (3 : UInt64).toNat, programs.map (⟨·, .idle, []⟩)⟩ sched).threads,
            t.pc = .idle) →
          (PoolCall.run (PoolMemory.construct 100 3 4096) [] calls).1.allocatedCount =
            (PoolRun.run ⟨.reset (3 : UInt64).toNat, programs.map (⟨·, .idle, []⟩)⟩ sched).pool.allocatedCount) :=
  ⟨by decide, by decide, by decide, sequential_run_refines 100 3 4096 (by decide) (by decide) _ _ (by decide)⟩

end MarketFeed.Common
