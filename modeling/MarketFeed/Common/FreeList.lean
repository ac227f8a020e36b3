import MarketFeed.Common.MemoryPool

/-!
# The free list when calls do not overlap

`free_list_` and the free blocks' `next` fields form a linked list:
`Chain next head F` says that following `next` from `head` visits the blocks
`F` in order and ends at null. When no two calls to the pool overlap, every
block of the pool is in exactly one place: on the free list, held by one
thread, or in the hands of the one call under way (`FreeListOk.run`). So no
block is ever held twice (`sequential_held_nodup`), and the double allocation
of `pool_aba_double_hold` needs two calls to overlap.
-/

namespace MarketFeed.Common

/-- Following `next` from `head` visits the blocks `F`, in order, and ends at null. -/
def Chain (next : Nat → Option Nat) : Option Nat → List Nat → Prop
  | head, [] => head = none
  | head, a :: F => head = some a ∧ Chain next (next a) F

/-- Changing `next` off the chain keeps the chain. -/
theorem Chain.congr {next next' : Nat → Option Nat} {head : Option Nat} {F : List Nat}
    (hc : Chain next head F) (he : ∀ a ∈ F, next' a = next a) : Chain next' head F := by
  induction F generalizing head with
  | nil => exact hc
  | cons a F ih =>
    refine ⟨hc.1, ?_⟩
    rw [he a (List.mem_cons_self a F)]
    exact ih hc.2 fun b hb => he b (List.mem_cons_of_mem a hb)

/-- A chain from a block starts with it. -/
theorem Chain.of_some {next : Nat → Option Nat} {a : Nat} {F : List Nat}
    (hc : Chain next (some a) F) : ∃ F', F = a :: F' ∧ Chain next (next a) F' := by
  cases F with
  | nil => cases hc
  | cons b F =>
    obtain ⟨hb, hc⟩ := hc
    cases hb
    exact ⟨F, rfl, hc⟩

/-- The block a call has taken off the free list and not yet counted, or is
putting back and has not yet linked in. -/
def PoolPc.inFlight : PoolPc → List Nat
  | .allocCount n | .deallocLoaded n _ | .deallocStored n _ => [n]
  | _ => []

/-- The blocks a thread accounts for: those it holds and the one in flight. -/
def PoolThread.blocks (t : PoolThread) : List Nat := t.held ++ t.pc.inFlight

/-- What a call under way has read of the pool is still true, when no other
call runs. -/
def PcOk (p : MemoryPool) : PoolPc → Prop
  | .allocLoaded node => node = p.freeList
  | .allocNext n nx => p.freeList = some n ∧ nx = p.next n
  | .deallocLoaded _ e => e = p.freeList
  | .deallocStored b e => e = p.freeList ∧ p.next b = e
  | _ => True

@[simp] theorem MemoryPool.threadStep_numBlocks (p : MemoryPool) (t : PoolThread) (s : Bool) :
    (p.threadStep t s).1.numBlocks = p.numBlocks := by
  unfold MemoryPool.threadStep
  split <;> (try split) <;> (try split) <;> (try split) <;> rfl

theorem eraseIdx_append_perm {l : List Nat} {i b : Nat} (h : l[i]? = some b) :
    (l.eraseIdx i ++ [b]).Perm l := by
  induction l generalizing i with
  | nil => cases h
  | cons a l ih =>
    cases i with
    | zero =>
      obtain rfl : a = b := by simpa using h
      exact List.perm_append_singleton a l
    | succ i => exact (ih (by simpa using h)).cons a

/-- A block moved between the free list and a thread's blocks. -/
theorem perm_move (F others held : List Nat) (n : Nat) :
    (F ++ (others ++ (held ++ [n]))).Perm (n :: F ++ (others ++ held)) :=
  List.perm_iff_count.mpr fun a => by simp [List.count_cons]; omega

section Step

variable {p : MemoryPool} {t : PoolThread} {F others : List Nat}

/-- **What one step does to the free list**, when the call under way is the
only one: it leaves the list as it is and moves no block, or it takes the head
off the list into the thread's blocks, or it puts one of the thread's blocks on
the list; and what the thread has read of the pool stays true. -/
theorem threadStep_moves (s : Bool) (hc : Chain p.next p.freeList F)
    (hnd : (F ++ (others ++ t.blocks)).Nodup) (hpc : PcOk p t.pc) :
    PcOk (p.threadStep t s).1 (p.threadStep t s).2.pc ∧
      ((Chain (p.threadStep t s).1.next (p.threadStep t s).1.freeList F ∧
          (p.threadStep t s).2.blocks.Perm t.blocks) ∨
        (∃ n F', F = n :: F' ∧ Chain (p.threadStep t s).1.next (p.threadStep t s).1.freeList F' ∧
          (p.threadStep t s).2.blocks = t.blocks ++ [n]) ∨
        (∃ b, Chain (p.threadStep t s).1.next (p.threadStep t s).1.freeList (b :: F) ∧
          (p.threadStep t s).2.blocks ++ [b] = t.blocks)) := by
  unfold MemoryPool.threadStep PoolThread.blocks at *
  rcases hpt : t.pc with _ | ⟨_ | n⟩ | ⟨n, nx⟩ | n | ⟨b, e⟩ | ⟨b, e⟩ | b <;>
    simp only [hpt, PoolPc.inFlight, List.append_nil] at hnd hpc ⊢
  · -- between calls: the next call starts, or a bad `deallocate` returns at once
    rcases hprog : t.program with _ | ⟨_ | i, rest⟩ <;> simp only [hpt, PoolPc.inFlight, List.append_nil]
    · exact ⟨trivial, .inl ⟨hc, .refl _⟩⟩
    · exact ⟨rfl, .inl ⟨hc, .refl _⟩⟩
    · rcases hb : t.held[i]? with _ | b <;> simp only [PoolPc.inFlight, List.append_nil]
      · exact ⟨trivial, .inl ⟨hc, .refl _⟩⟩
      · split_ifs <;> simp only [PoolPc.inFlight, List.append_nil]
        · exact ⟨rfl, .inl ⟨hc, eraseIdx_append_perm hb⟩⟩
        · exact ⟨trivial, .inl ⟨hc, .refl _⟩⟩
  · exact ⟨trivial, .inl ⟨hc, .refl _⟩⟩
  · exact ⟨⟨hpc.symm, rfl⟩, .inl ⟨hc, .refl _⟩⟩
  · -- the exchange takes the head off the list, or reloads it
    split_ifs with hcas <;> simp only [PoolPc.inFlight, List.append_nil]
    · obtain ⟨F', rfl, hc'⟩ := Chain.of_some (hcas.1 ▸ hc)
      exact ⟨trivial, .inr (.inl ⟨n, F', rfl, hpc.2 ▸ hc', rfl⟩)⟩
    · exact ⟨rfl, .inl ⟨hc, .refl _⟩⟩
  · exact ⟨trivial, .inl ⟨hc, .refl _⟩⟩
  · -- the store into the block's `next` is off the list
    have hb : b ∉ F := fun hbF => List.disjoint_of_nodup_append hnd hbF (by simp)
    exact ⟨⟨hpc, if_pos rfl⟩, .inl ⟨hc.congr fun a ha => if_neg (ne_of_mem_of_not_mem ha hb), .refl _⟩⟩
  · -- the exchange puts the block on the list, or reloads the head
    split_ifs with hcas <;> simp only [PoolPc.inFlight, List.append_nil]
    · exact ⟨trivial, .inr (.inr ⟨b, ⟨rfl, hpc.2 ▸ hpc.1 ▸ hc⟩, rfl⟩)⟩
    · exact ⟨rfl, .inl ⟨hc, .refl _⟩⟩
  · exact ⟨trivial, .inl ⟨hc, .refl _⟩⟩

/-- **One step of the call under way.** If the free list `F`, the other
threads' blocks and `t`'s blocks are together the pool's blocks, each once,
then after `t` steps the new free list, the same other blocks and `t`'s new
blocks are again; and what `t` has read of the pool stays true. -/
theorem threadStep_freeList (s : Bool) (hc : Chain p.next p.freeList F)
    (hp : (F ++ (others ++ t.blocks)).Perm (List.range p.numBlocks)) (hpc : PcOk p t.pc) :
    ∃ F', Chain (p.threadStep t s).1.next (p.threadStep t s).1.freeList F' ∧
      (F' ++ (others ++ (p.threadStep t s).2.blocks)).Perm (List.range p.numBlocks) ∧
      PcOk (p.threadStep t s).1 (p.threadStep t s).2.pc := by
  obtain ⟨hpc', ⟨hc', hb⟩ | ⟨n, F', rfl, hc', hb⟩ | ⟨b, hc', hb⟩⟩ :=
    threadStep_moves s hc (hp.nodup_iff.mpr (List.nodup_range _)) hpc
  · exact ⟨F, hc', ((hb.append_left others).append_left F).trans hp, hpc'⟩
  · exact ⟨F', hc', (hb ▸ perm_move F' others t.blocks n).trans hp, hpc'⟩
  · exact ⟨b :: F, hc', (hb ▸ perm_move F others _ b).symm.trans hp, hpc'⟩

end Step

theorem set_eq_self {α : Type} {l : List α} {i : Nat} {a : α} (h : l[i]? = some a) :
    l.set i a = l := by
  induction l generalizing i with
  | nil => cases h
  | cons b l ih =>
    cases i with
    | zero => simpa using h.symm
    | succ i => exact congrArg (b :: ·) (ih (by simpa using h))

/-- Replacing the `i`-th thread trades its blocks for the new thread's. -/
theorem flatMap_set_perm {α : Type} {l : List α} {i : Nat} {a : α} (h : l[i]? = some a) (x : α)
    (f : α → List Nat) :
    ((l.set i x).flatMap f).Perm ((l.eraseIdx i).flatMap f ++ f x) := by
  induction l generalizing i with
  | nil => cases h
  | cons b l ih =>
    cases i with
    | zero => exact List.perm_append_comm
    | succ i =>
      simp only [List.set_cons_succ, List.eraseIdx_cons_succ, List.flatMap_cons, List.append_assoc]
      exact (ih (by simpa using h)).append_left (f b)

theorem mem_set_cases {α : Type} {l : List α} {i : Nat} {x u : α} (hu : u ∈ l.set i x) :
    u = x ∨ ∃ j, ∃ hj : j < l.length, j ≠ i ∧ l[j] = u := by
  obtain ⟨j, hj⟩ := List.mem_iff_getElem?.mp hu
  by_cases hij : i = j
  · subst hij
    obtain ⟨hi, rfl⟩ := List.getElem?_eq_some_iff.mp hj
    exact .inl (by simp)
  · rw [List.getElem?_set_ne hij] at hj
    obtain ⟨hlt, rfl⟩ := List.getElem?_eq_some_iff.mp hj
    exact .inr ⟨j, hlt, Ne.symm hij, rfl⟩

/-! ### Whole runs -/

/-- Every thread but `i` is between calls. -/
def PoolRun.Exclusive (r : PoolRun) (i : Nat) : Prop :=
  ∀ j (hj : j < r.threads.length), j ≠ i → r.threads[j].pc = .idle

instance (r : PoolRun) (i : Nat) : Decidable (r.Exclusive i) :=
  inferInstanceAs (Decidable (∀ j (hj : j < r.threads.length), j ≠ i → r.threads[j].pc = .idle))

/-- A schedule in which no two calls overlap: each step is taken while every
other thread is between calls. -/
def PoolRun.Sequential : PoolRun → List (Nat × Bool) → Prop
  | _, [] => True
  | r, (i, s) :: sched => r.Exclusive i ∧ (r.step i s).Sequential sched

instance PoolRun.decSequential : (r : PoolRun) → (sched : List (Nat × Bool)) →
    Decidable (r.Sequential sched)
  | _, [] => isTrue trivial
  | r, (i, s) :: sched =>
    @instDecidableAnd _ _ inferInstance (PoolRun.decSequential (r.step i s) sched)

/-- The free list and the blocks' owners: every block of the pool is on the
free list or accounted for by exactly one thread, and every call under way
has read the pool correctly. -/
structure FreeListOk (r : PoolRun) : Prop where
  chain : ∃ F, Chain r.pool.next r.pool.freeList F ∧
    (F ++ r.threads.flatMap PoolThread.blocks).Perm (List.range r.pool.numBlocks)
  pcs : ∀ t ∈ r.threads, PcOk r.pool t.pc

/-- `reset()` chains every block, the last first. -/
theorem reset_chain (n : Nat) :
    Chain (MemoryPool.reset n).next (MemoryPool.reset n).freeList (List.range n).reverse := by
  unfold MemoryPool.reset
  dsimp only
  induction n with
  | zero => rfl
  | succ n ih =>
    rw [List.range_succ, List.foldl_append, List.foldl_cons, List.foldl_nil, List.reverse_append]
    refine ⟨rfl, ?_⟩
    dsimp only
    rw [if_pos rfl]
    exact ih.congr fun a ha => if_neg (List.mem_range.mp (List.mem_reverse.mp ha)).ne

theorem FreeListOk.start (numBlocks : Nat) (programs : List (List PoolOp)) :
    FreeListOk ⟨.reset numBlocks, programs.map (⟨·, .idle, []⟩)⟩ where
  chain := ⟨_, reset_chain numBlocks, by
    have hnil : (programs.map (⟨·, .idle, []⟩)).flatMap PoolThread.blocks = [] :=
      List.flatMap_eq_nil_iff.mpr fun t ht => by obtain ⟨_, -, rfl⟩ := List.mem_map.mp ht; rfl
    rw [hnil, List.append_nil]
    exact List.reverse_perm _⟩
  pcs _ ht := by
    obtain ⟨_, -, rfl⟩ := List.mem_map.mp ht
    trivial

/-- **One step of a sequential schedule keeps the free list right.** -/
theorem FreeListOk.step {r : PoolRun} (h : FreeListOk r) {i : Nat} (hx : r.Exclusive i)
    (s : Bool) : FreeListOk (r.step i s) := by
  unfold PoolRun.step
  rcases ht : r.threads[i]? with _ | t
  · exact h
  · obtain ⟨F, hc, hp⟩ := h.chain
    have hold := set_eq_self ht ▸ flatMap_set_perm ht t PoolThread.blocks
    obtain ⟨F', hc', hp', hpc'⟩ := threadStep_freeList s hc ((hold.append_left F).symm.trans hp)
      (h.pcs t (List.mem_iff_getElem?.mpr ⟨i, ht⟩))
    refine ⟨⟨F', hc', ?_⟩, fun u hu => ?_⟩
    · rw [MemoryPool.threadStep_numBlocks]
      exact ((flatMap_set_perm ht _ _).append_left F').trans hp'
    · rcases mem_set_cases hu with rfl | ⟨j, hj, hji, rfl⟩
      · exact hpc'
      · rw [hx j hj hji]
        trivial

@[simp] theorem PoolRun.step_numBlocks (r : PoolRun) (i : Nat) (s : Bool) :
    (r.step i s).pool.numBlocks = r.pool.numBlocks := by
  unfold PoolRun.step
  split
  · exact MemoryPool.threadStep_numBlocks _ _ _
  · rfl

@[simp] theorem PoolRun.run_numBlocks (r : PoolRun) (sched : List (Nat × Bool)) :
    (r.run sched).pool.numBlocks = r.pool.numBlocks := by
  induction sched generalizing r with
  | nil => rfl
  | cons a sched ih => exact (ih _).trans (r.step_numBlocks a.1 a.2)

theorem FreeListOk.run {r : PoolRun} (h : FreeListOk r) (sched : List (Nat × Bool))
    (hseq : r.Sequential sched) : FreeListOk (r.run sched) := by
  induction sched generalizing r with
  | nil => exact h
  | cons a sched ih => exact ih (h.step hseq.1 a.2) hseq.2

theorem held_sublist_blocks (l : List PoolThread) :
    (l.flatMap (·.held)).Sublist (l.flatMap PoolThread.blocks) := by
  induction l with
  | nil => exact List.Sublist.slnil
  | cons t l ih => exact (List.sublist_append_left _ _).append ih

/-- **Calls that do not overlap never share a block.** From a reset pool and
idle threads holding nothing, after any schedule in which each step is taken
while every other thread is between calls, the blocks the threads hold are
distinct blocks of the pool. -/
theorem sequential_held_nodup (numBlocks : Nat) (programs : List (List PoolOp))
    (sched : List (Nat × Bool))
    (hseq : PoolRun.Sequential ⟨.reset numBlocks, programs.map (⟨·, .idle, []⟩)⟩ sched) :
    ((PoolRun.run ⟨.reset numBlocks, programs.map (⟨·, .idle, []⟩)⟩ sched).threads.flatMap
      (·.held)).Nodup ∧
    ∀ b ∈ (PoolRun.run ⟨.reset numBlocks, programs.map (⟨·, .idle, []⟩)⟩ sched).threads.flatMap
      (·.held), b < numBlocks := by
  obtain ⟨F, -, hp⟩ := ((FreeListOk.start numBlocks programs).run sched hseq).chain
  have hsub := held_sublist_blocks (PoolRun.run ⟨.reset numBlocks, programs.map (⟨·, .idle, []⟩)⟩ sched).threads
  refine ⟨((hp.nodup_iff.mpr (List.nodup_range _)).of_append_right).sublist hsub, fun b hb => ?_⟩
  have hb' := hp.mem_iff.mp (List.mem_append_right F (hsub.subset hb))
  rwa [PoolRun.run_numBlocks, List.mem_range] at hb'

/-- The calls of `pool_aba_double_hold`, made one after another: the threads
end up holding distinct blocks. -/
theorem sequential_held_nodup_aba_calls :
    let programs := [[PoolOp.alloc, .alloc], [.alloc, .alloc, .dealloc 0]]
    let sched := List.replicate 8 (0, false) ++ List.replicate 12 (1, false)
    PoolRun.Sequential ⟨.reset 3, programs.map (⟨·, .idle, []⟩)⟩ sched ∧
      ((PoolRun.run ⟨.reset 3, programs.map (⟨·, .idle, []⟩)⟩ sched).threads.flatMap
        (·.held)).Nodup ∧
      ∀ b ∈ (PoolRun.run ⟨.reset 3, programs.map (⟨·, .idle, []⟩)⟩ sched).threads.flatMap
        (·.held), b < 3 :=
  ⟨by decide, sequential_held_nodup 3 _ _ (by decide)⟩

end MarketFeed.Common
