import MarketFeed.Common.FreeList

/-!
# The memory pool at its addresses

The constructor takes `std::max(block_size, sizeof(FreeNode))`, rounds it up to
a whole number of cache lines, asks `make_unique` for
`block_size_ * num_blocks_ + CACHE_LINE_SIZE` bytes and rounds the array's
address up to a cache line; `reset()` then links block `i`, at
`aligned_base_ + i * block_size_`, in front of block `i - 1`. All of it is
`size_t` and pointer arithmetic, modulo 2^64.

The calls here come from one thread, so every `compare_exchange_weak`
succeeds once its spurious failures are retried. When neither the rounding
nor `total_size` wraps (`SizesFit`), the blocks are cache-aligned, apart and
inside the storage, and the free list and the blocks the caller holds share
them out exactly (`ArenaOk`). Over every run of calls whose `deallocate`s give
back held blocks the pool then does what its design says (`pool_sound`).
When the arithmetic wraps it does not (`pool_size_wrap_breaks_invariant`).
-/

namespace MarketFeed.Common

/-- `CACHE_LINE_SIZE`. -/
def cacheLineSize : UInt64 := 64

/-- `sizeof(FreeNode)`: one atomic pointer in a node declared `alignas(CACHE_LINE_SIZE)`. -/
def freeNodeSize : UInt64 := 64

/-- `(x + CACHE_LINE_SIZE - 1) & ~(CACHE_LINE_SIZE - 1)`. -/
def alignUp (x : UInt64) : UInt64 := (x + cacheLineSize - 1) &&& ~~~(cacheLineSize - 1)

/-- `block_size_` as the constructor leaves it. -/
def roundedBlockSize (blockSize : UInt64) : UInt64 :=
  alignUp (if blockSize < freeNodeSize then freeNodeSize else blockSize)

/-- `total_size`, the bytes the constructor asks `make_unique` for. -/
def totalSize (blockSize numBlocks : UInt64) : UInt64 :=
  roundedBlockSize blockSize * numBlocks + cacheLineSize

/-- The pool's fields as 64-bit words, `0` being `nullptr`: `block_size_`,
`num_blocks_`, the address and the length of the array `storage_` owns,
`aligned_base_`, `free_list_`, the `next` field at each address, and
`allocated_count_`. `next` is defined at every address, so a store outside the
storage, which faults in the code, is not told apart here; the results below
are about runs whose every store lands in the storage, as under `SizesFit` and
`StorageFits`. -/
structure PoolMemory where
  blockSize : UInt64
  numBlocks : UInt64
  storage : UInt64
  storageSize : UInt64
  alignedBase : UInt64
  freeList : UInt64
  next : UInt64 → UInt64
  allocatedCount : UInt64

/-- Block `i`: `aligned_base_ + (i * block_size_)`. -/
def PoolMemory.block (p : PoolMemory) (i : Nat) : UInt64 := p.alignedBase + UInt64.ofNat i * p.blockSize

/-- The blocks, in the order `reset()` links them. -/
def PoolMemory.blocks (p : PoolMemory) : List UInt64 := (List.range p.numBlocks.toNat).map p.block

/-- The loop of `reset()` over the indices `is`, from a head and `next` fields. -/
def PoolMemory.pushBlocks (p : PoolMemory) (acc : UInt64 × (UInt64 → UInt64)) (is : List Nat) :
    UInt64 × (UInt64 → UInt64) :=
  is.foldl (fun acc i => (p.block i, Function.update acc.2 (p.block i) acc.1)) acc

/-- `reset()`. -/
def PoolMemory.reset (p : PoolMemory) : PoolMemory :=
  let built := p.pushBlocks (0, p.next) (List.range p.numBlocks.toNat)
  { p with allocatedCount := 0, freeList := built.1, next := built.2 }

/-- The constructor `MemoryPool(block_size, num_blocks)`, `make_unique` having
placed the `total_size` bytes of `storage_` at `base`. The bytes start
unwritten; `reset()` writes the `next` field of every block before any is read. -/
def PoolMemory.construct (blockSize numBlocks base : UInt64) : PoolMemory :=
  reset { blockSize := roundedBlockSize blockSize, numBlocks, storage := base,
          storageSize := totalSize blockSize numBlocks, alignedBase := alignUp base,
          freeList := 0, next := fun _ => 0, allocatedCount := 0 }

/-- `allocate()`: the pool after it and the pointer it returns. -/
def PoolMemory.allocate (p : PoolMemory) : PoolMemory × UInt64 :=
  if p.freeList = 0 then (p, 0)
  else ({ p with freeList := p.next p.freeList, allocatedCount := p.allocatedCount + 1 }, p.freeList)

/-- `deallocate(ptr)`. -/
def PoolMemory.deallocate (p : PoolMemory) (ptr : UInt64) : PoolMemory :=
  if ptr = 0 then p
  else if ptr < p.alignedBase ∨ p.alignedBase + p.blockSize * p.numBlocks ≤ ptr then p
  else { p with next := Function.update p.next ptr p.freeList, freeList := ptr,
                allocatedCount := p.allocatedCount - 1 }

/-- `get_allocated_count()`. -/
def PoolMemory.getAllocatedCount (p : PoolMemory) : UInt64 := p.allocatedCount

/-- `capacity()`. -/
def PoolMemory.capacity (p : PoolMemory) : UInt64 := p.numBlocks

/-- `get_available_count()`: `num_blocks_ - get_allocated_count()`, in `size_t`. -/
def PoolMemory.getAvailableCount (p : PoolMemory) : UInt64 := p.numBlocks - p.getAllocatedCount

/-- A call on the pool. -/
inductive PoolCall
  | allocate
  | deallocate (ptr : UInt64)
  | reset
  deriving DecidableEq, Repr

/-- One call, with the blocks its caller holds before and after: those
`allocate` returned since the last `reset()` and not given back. -/
def PoolCall.apply (p : PoolMemory) (held : List UInt64) : PoolCall → PoolMemory × List UInt64
  | .allocate => (p.allocate.1, if p.allocate.2 = 0 then held else held ++ [p.allocate.2])
  | .deallocate ptr => (p.deallocate ptr, held.erase ptr)
  | .reset => (p.reset, [])

/-- The call gives back only a block its caller holds. -/
def PoolCall.allowed (held : List UInt64) : PoolCall → Prop
  | .deallocate ptr => ptr ∈ held
  | _ => True

instance (held : List UInt64) : (c : PoolCall) → Decidable (c.allowed held)
  | .allocate => isTrue trivial
  | .deallocate ptr => inferInstanceAs (Decidable (ptr ∈ held))
  | .reset => isTrue trivial

/-- A run of calls. -/
def PoolCall.run (p : PoolMemory) (held : List UInt64) : List PoolCall → PoolMemory × List UInt64
  | [] => (p, held)
  | c :: cs => run (c.apply p held).1 (c.apply p held).2 cs

/-- Every `deallocate` of the run gives back a block its caller holds. -/
def PoolCall.Valid (p : PoolMemory) (held : List UInt64) : List PoolCall → Prop
  | [] => True
  | c :: cs => c.allowed held ∧ Valid (c.apply p held).1 (c.apply p held).2 cs

instance PoolCall.decValid : (p : PoolMemory) → (held : List UInt64) → (cs : List PoolCall) →
    Decidable (PoolCall.Valid p held cs)
  | _, _, [] => isTrue trivial
  | p, held, c :: cs =>
    haveI := decValid (c.apply p held).1 (c.apply p held).2 cs
    inferInstanceAs (Decidable (_ ∧ _))

/-- Neither the rounding of `block_size` nor `total_size` wraps. -/
def SizesFit (blockSize numBlocks : UInt64) : Prop :=
  blockSize.toNat + 63 < 2 ^ 64 ∧ (roundedBlockSize blockSize).toNat * numBlocks.toNat + 64 < 2 ^ 64

instance (blockSize numBlocks : UInt64) : Decidable (SizesFit blockSize numBlocks) :=
  inferInstanceAs (Decidable (_ ∧ _))

/-- `make_unique` placed the `total_size` bytes at a non-null address, inside the address space. -/
def StorageFits (blockSize numBlocks base : UInt64) : Prop :=
  0 < base.toNat ∧ base.toNat + (totalSize blockSize numBlocks).toNat ≤ 2 ^ 64

instance (blockSize numBlocks base : UInt64) : Decidable (StorageFits blockSize numBlocks base) :=
  inferInstanceAs (Decidable (_ ∧ _))

/-! ### Rounding up to a cache line -/

theorem and_cacheLineMask {n : Nat} (hn : n < 2 ^ 64) : n &&& (2 ^ 64 - 64) = n / 64 * 64 := by
  have hM : 2 ^ 64 - 64 = 2 ^ 6 * (2 ^ 58 - 1) := by norm_num
  have hD : n / 64 * 64 = 2 ^ 6 * (n >>> 6) := by rw [Nat.shiftRight_eq_div_pow]; ring
  rw [hM, hD]
  refine Nat.eq_of_testBit_eq fun j => ?_
  rw [Nat.testBit_and, Nat.testBit_mul_pow_two, Nat.testBit_mul_pow_two, Nat.testBit_two_pow_sub_one,
    Nat.testBit_shiftRight]
  by_cases hj : 6 ≤ j
  · rw [Nat.add_sub_cancel' hj]
    by_cases hj' : j < 64
    · simp [hj, hj']; omega
    · have : n.testBit j = false :=
        Nat.testBit_eq_false_of_lt (lt_of_lt_of_le hn (Nat.pow_le_pow_right (by norm_num) (by omega)))
      simp [this]
  · simp [hj]

/-- Rounding up that does not wrap. -/
theorem alignUp_toNat {x : UInt64} (hx : x.toNat + 63 < 2 ^ 64) :
    (alignUp x).toNat = (x.toNat + 63) / 64 * 64 := by
  have h1 : (x + cacheLineSize - 1).toNat = x.toNat + 63 := by
    rw [UInt64.toNat_sub, UInt64.toNat_add]
    change (2 ^ 64 - 1 + (x.toNat + 64) % 2 ^ 64) % 2 ^ 64 = _
    omega
  have h2 : (~~~(cacheLineSize - 1)).toNat = 2 ^ 64 - 64 := rfl
  show (x + cacheLineSize - 1).toNat &&& (~~~(cacheLineSize - 1)).toNat = _
  rw [h1, h2, and_cacheLineMask hx]

/-! ### The layout of the blocks -/

/-- The constructor's arithmetic did not wrap: blocks of whole cache lines from
a cache-aligned base, all of them inside the storage. -/
structure Layout (p : PoolMemory) : Prop where
  blockSize_ge : 64 ≤ p.blockSize.toNat
  blockSize_dvd : 64 ∣ p.blockSize.toNat
  base_dvd : 64 ∣ p.alignedBase.toNat
  storage_pos : 0 < p.storage.toNat
  storage_le : p.storage.toNat ≤ p.alignedBase.toNat
  blocks_lt : p.alignedBase.toNat + p.blockSize.toNat * p.numBlocks.toNat <
    p.storage.toNat + p.storageSize.toNat
  storage_fits : p.storage.toNat + p.storageSize.toNat ≤ 2 ^ 64

/-- The constructor's layout, before `reset()`, when the sizes and the storage fit. -/
theorem layout_construct {blockSize numBlocks base : UInt64} (hfit : SizesFit blockSize numBlocks)
    (hbase : StorageFits blockSize numBlocks base) (next : UInt64 → UInt64) (freeList count : UInt64) :
    Layout { blockSize := roundedBlockSize blockSize, numBlocks, storage := base,
             storageSize := totalSize blockSize numBlocks, alignedBase := alignUp base,
             freeList, next, allocatedCount := count } := by
  obtain ⟨hb, hprod⟩ := hfit
  obtain ⟨hpos, hfits⟩ := hbase
  have hmax : (if blockSize < freeNodeSize then freeNodeSize else blockSize).toNat =
      max blockSize.toNat 64 := by
    split_ifs with h
    · have : blockSize.toNat < 64 := h
      exact (max_eq_right this.le).symm
    · have : ¬blockSize.toNat < 64 := h
      exact (max_eq_left (by omega)).symm
  have hbs : (roundedBlockSize blockSize).toNat = (max blockSize.toNat 64 + 63) / 64 * 64 := by
    rw [roundedBlockSize, alignUp_toNat (by rw [hmax]; omega), hmax]
  have htot : (totalSize blockSize numBlocks).toNat =
      (roundedBlockSize blockSize).toNat * numBlocks.toNat + 64 := by
    rw [totalSize, UInt64.toNat_add, UInt64.toNat_mul]
    change ((roundedBlockSize blockSize).toNat * numBlocks.toNat % 2 ^ 64 + 64) % 2 ^ 64 = _
    omega
  have hal : (alignUp base).toNat = (base.toNat + 63) / 64 * 64 := alignUp_toNat (by omega)
  refine ⟨?_, ?_, ?_, hpos, ?_, ?_, ?_⟩ <;> dsimp only <;>
    simp only [hbs, htot, hal] at * <;> omega

/-- The layout reads only the fields no call writes. -/
theorem Layout.with {p : PoolMemory} (hL : Layout p) (freeList : UInt64) (next : UInt64 → UInt64)
    (count : UInt64) : Layout { p with freeList, next, allocatedCount := count } :=
  ⟨hL.1, hL.2, hL.3, hL.4, hL.5, hL.6, hL.7⟩

theorem Layout.reset {p : PoolMemory} (hL : Layout p) : Layout p.reset := hL.with _ _ _

theorem block_succ_le {p : PoolMemory} {i : Nat} (hi : i < p.numBlocks.toNat) :
    i * p.blockSize.toNat + p.blockSize.toNat ≤ p.blockSize.toNat * p.numBlocks.toNat := by
  rw [← Nat.succ_mul, Nat.mul_comm p.blockSize.toNat]
  exact Nat.mul_le_mul_right _ hi

theorem PoolMemory.mem_blocks {p : PoolMemory} {b : UInt64} :
    b ∈ p.blocks ↔ ∃ i < p.numBlocks.toNat, p.block i = b := by
  simp [PoolMemory.blocks]

section Blocks

variable {p : PoolMemory} (hL : Layout p)
include hL

/-- Block `i` is at `aligned_base_ + i * block_size_`: nothing wraps. -/
theorem Layout.block_toNat {i : Nat} (hi : i < p.numBlocks.toNat) :
    (p.block i).toNat = p.alignedBase.toNat + i * p.blockSize.toNat := by
  have h := block_succ_le hi
  have := hL.blocks_lt
  have := hL.storage_fits
  have hi' : i < 2 ^ 64 := lt_trans hi p.numBlocks.toNat_lt
  rw [PoolMemory.block, UInt64.toNat_add, UInt64.toNat_mul]
  change (p.alignedBase.toNat + i % 2 ^ 64 * p.blockSize.toNat % 2 ^ 64) % 2 ^ 64 = _
  rw [Nat.mod_eq_of_lt hi', Nat.mod_eq_of_lt (by omega), Nat.mod_eq_of_lt (by omega)]

/-- Block `i` is cache-aligned, nonzero, and its `block_size_` bytes lie inside the storage. -/
theorem Layout.block_facts {i : Nat} (hi : i < p.numBlocks.toNat) :
    64 ∣ (p.block i).toNat ∧ 0 < (p.block i).toNat ∧ p.storage.toNat ≤ (p.block i).toNat ∧
      (p.block i).toNat + p.blockSize.toNat ≤ p.storage.toNat + p.storageSize.toNat := by
  have h := block_succ_le hi
  have := hL.blocks_lt
  have := hL.storage_le
  have := hL.storage_pos
  rw [hL.block_toNat hi]
  exact ⟨Nat.dvd_add hL.base_dvd (Dvd.dvd.mul_left hL.blockSize_dvd i), by omega, by omega, by omega⟩

theorem Layout.ne_zero_of_mem {b : UInt64} (hb : b ∈ p.blocks) : b ≠ 0 := by
  obtain ⟨i, hi, rfl⟩ := PoolMemory.mem_blocks.1 hb
  intro h0
  have := (hL.block_facts hi).2.1
  rw [h0] at this
  exact absurd this (by decide)

/-- Blocks `i < j` are apart: block `i` ends before block `j` starts. -/
theorem Layout.block_apart {i j : Nat} (hij : i < j) (hj : j < p.numBlocks.toNat) :
    (p.block i).toNat + p.blockSize.toNat ≤ (p.block j).toNat := by
  rw [hL.block_toNat (hij.trans hj), hL.block_toNat hj]
  have : (i + 1) * p.blockSize.toNat ≤ j * p.blockSize.toNat := Nat.mul_le_mul_right _ hij
  rw [Nat.succ_mul] at this
  omega


/-- Two different blocks are apart. -/
theorem Layout.apart_of_ne {b c : UInt64} (hb : b ∈ p.blocks) (hc : c ∈ p.blocks) (hne : b ≠ c) :
    b.toNat + p.blockSize.toNat ≤ c.toNat ∨ c.toNat + p.blockSize.toNat ≤ b.toNat := by
  obtain ⟨i, hi, rfl⟩ := PoolMemory.mem_blocks.1 hb
  obtain ⟨j, hj, rfl⟩ := PoolMemory.mem_blocks.1 hc
  rcases Nat.lt_trichotomy i j with hij | rfl | hji
  · exact .inl (hL.block_apart hij hj)
  · exact absurd rfl hne
  · exact .inr (hL.block_apart hji hi)

theorem Layout.blocks_nodup : p.blocks.Nodup := by
  refine List.Nodup.map_on (fun i hi j hj he => ?_) (List.nodup_range _)
  rw [List.mem_range] at hi hj
  by_contra hne
  have := hL.blockSize_ge
  rcases Nat.lt_or_gt_of_ne hne with hij | hji
  · have := hL.block_apart hij hj; rw [he] at this; omega
  · have := hL.block_apart hji hi; rw [he] at this; omega

/-- A block is a pointer `deallocate` keeps: nonzero and inside its range check. -/
theorem Layout.deallocate_block {b : UInt64} (hb : b ∈ p.blocks) :
    p.deallocate b = { p with next := Function.update p.next b p.freeList, freeList := b,
                              allocatedCount := p.allocatedCount - 1 } := by
  obtain ⟨i, hi, rfl⟩ := PoolMemory.mem_blocks.1 hb
  have h := block_succ_le hi
  have hlt := hL.blocks_lt
  have hfit := hL.storage_fits
  have hge := hL.blockSize_ge
  have hend : (p.alignedBase + p.blockSize * p.numBlocks).toNat =
      p.alignedBase.toNat + p.blockSize.toNat * p.numBlocks.toNat := by
    rw [UInt64.toNat_add, UInt64.toNat_mul]
    change (p.alignedBase.toNat + p.blockSize.toNat * p.numBlocks.toNat % 2 ^ 64) % 2 ^ 64 = _
    rw [Nat.mod_eq_of_lt (by omega), Nat.mod_eq_of_lt (by omega)]
  have hbi := hL.block_toNat hi
  have h0 := hL.ne_zero_of_mem hb
  rw [PoolMemory.deallocate, if_neg h0, if_neg]
  rintro (h' | h')
  · have : (p.block i).toNat < p.alignedBase.toNat := h'
    omega
  · have : (p.alignedBase + p.blockSize * p.numBlocks).toNat ≤ (p.block i).toNat := h'
    omega

end Blocks

/-! ### The free list -/

/-- Following `next` from `head` visits the blocks `F` in order and ends at `nullptr`. -/
def AddrChain (next : UInt64 → UInt64) : UInt64 → List UInt64 → Prop
  | head, [] => head = 0
  | head, a :: F => head = a ∧ a ≠ 0 ∧ AddrChain next (next a) F

theorem AddrChain.congr {next next' : UInt64 → UInt64} {head : UInt64} {F : List UInt64}
    (hc : AddrChain next head F) (he : ∀ a ∈ F, next' a = next a) : AddrChain next' head F := by
  induction F generalizing head with
  | nil => exact hc
  | cons a F ih =>
    obtain ⟨rfl, ha, hc⟩ := hc
    refine ⟨rfl, ha, ?_⟩
    rw [he head (List.mem_cons_self _ _)]
    exact ih hc fun b hb => he b (List.mem_cons_of_mem _ hb)

theorem AddrChain.eq_nil {next : UInt64 → UInt64} {F : List UInt64} (hc : AddrChain next 0 F) :
    F = [] := by
  cases F with
  | nil => rfl
  | cons a F => exact absurd hc.1.symm hc.2.1

theorem PoolMemory.pushBlocks_snoc (p : PoolMemory) (acc : UInt64 × (UInt64 → UInt64)) (is : List Nat)
    (i : Nat) : p.pushBlocks acc (is ++ [i]) =
      (p.block i, Function.update (p.pushBlocks acc is).2 (p.block i) (p.pushBlocks acc is).1) := by
  rw [PoolMemory.pushBlocks, List.foldl_append]; rfl

/-- After the loop of `reset()` over `0, …, n - 1`, the list runs from block
`n - 1` down to block `0`. -/
theorem Layout.pushBlocks_chain {p : PoolMemory} (hL : Layout p) (next : UInt64 → UInt64) {n : Nat}
    (hn : n ≤ p.numBlocks.toNat) :
    AddrChain (p.pushBlocks (0, next) (List.range n)).2 (p.pushBlocks (0, next) (List.range n)).1
      ((List.range n).map p.block).reverse := by
  induction n with
  | zero => rfl
  | succ n ih =>
    have hfresh : p.block n ∉ (List.range n).map p.block := fun hm => by
      obtain ⟨j, hj, he⟩ := List.mem_map.1 hm
      have := hL.blockSize_ge
      have hap := hL.block_apart (List.mem_range.1 hj) hn
      rw [he] at hap; omega
    rw [List.range_succ, p.pushBlocks_snoc, List.map_append, List.reverse_append, List.map_singleton,
      List.reverse_singleton, List.singleton_append]
    refine ⟨rfl, hL.ne_zero_of_mem (List.mem_map_of_mem _ (List.mem_range.2 hn)), ?_⟩
    · dsimp only
      rw [Function.update_same]
      refine (ih (by omega)).congr fun a ha => Function.update_noteq ?_ _ _
      rintro rfl
      exact hfresh (List.mem_reverse.1 ha)

/-- The pool represents the caller's blocks `held`: its layout did not wrap,
the free list and `held` together are the blocks, each once, and
`allocated_count_` counts `held`. -/
structure ArenaOk (p : PoolMemory) (held : List UInt64) : Prop where
  layout : Layout p
  free : ∃ F, AddrChain p.next p.freeList F ∧ (F ++ held).Perm p.blocks
  count : p.allocatedCount.toNat = held.length

theorem ArenaOk.reset {p : PoolMemory} (hL : Layout p) : ArenaOk p.reset [] :=
  ⟨hL.reset, ⟨_, hL.pushBlocks_chain p.next (Nat.le_refl _), by
    rw [List.append_nil]; exact List.reverse_perm _⟩, rfl⟩

theorem ArenaOk.construct {blockSize numBlocks base : UInt64} (hfit : SizesFit blockSize numBlocks)
    (hbase : StorageFits blockSize numBlocks base) :
    ArenaOk (PoolMemory.construct blockSize numBlocks base) [] :=
  ArenaOk.reset (layout_construct hfit hbase _ _ _)

section Step

variable {p : PoolMemory} {held : List UInt64} (h : ArenaOk p held)
include h

theorem ArenaOk.nodup {F : List UInt64} (hF : (F ++ held).Perm p.blocks) : (F ++ held).Nodup :=
  hF.nodup_iff.2 h.layout.blocks_nodup

theorem ArenaOk.length_le : held.length ≤ p.numBlocks.toNat := by
  obtain ⟨F, -, hF⟩ := h.free
  have := hF.length_eq
  simp only [List.length_append, PoolMemory.blocks, List.length_map, List.length_range] at this
  omega

/-- `allocate()` returns `nullptr` exactly when the free list is empty, and
otherwise the head of the list. -/
theorem ArenaOk.allocate_eq :
    (p.allocate.2 = 0 ∧ p.allocate.1 = p ∧ held.length = p.numBlocks.toNat) ∨
      ∃ F, p.allocate.2 ≠ 0 ∧ p.allocate.2 ∉ held ∧
        AddrChain p.next (p.next p.allocate.2) F ∧ (p.allocate.2 :: F ++ held).Perm p.blocks ∧
        p.allocate.1 = { p with freeList := p.next p.allocate.2,
                                allocatedCount := p.allocatedCount + 1 } := by
  obtain ⟨F, hc, hF⟩ := h.free
  unfold PoolMemory.allocate
  split_ifs with h0
  · rw [h0] at hc
    rw [hc.eq_nil, List.nil_append] at hF
    refine .inl ⟨rfl, rfl, ?_⟩
    simpa [PoolMemory.blocks] using hF.length_eq
  · cases F with
    | nil => exact absurd hc h0
    | cons a F =>
      obtain ⟨rfl, ha, hc⟩ := hc
      have hnd := (h.nodup hF)
      refine .inr ⟨F, ha, fun hm => ?_, hc, hF, rfl⟩
      exact (List.nodup_append.1 hnd).2.2 (List.mem_cons_self _ _) hm

theorem ArenaOk.allocate :
    ArenaOk (PoolCall.apply p held .allocate).1 (PoolCall.apply p held .allocate).2 := by
  rcases h.allocate_eq with ⟨h0, hp, -⟩ | ⟨F, h0, -, hc, hF, hp⟩
  · simp only [PoolCall.apply, h0, hp, if_true]; exact h
  · simp only [PoolCall.apply, if_neg h0, hp]
    refine ⟨h.layout.with _ _ _, ⟨F, hc, ?_⟩, ?_⟩
    · have hp : (F ++ (held ++ [p.allocate.2])).Perm (p.allocate.2 :: (F ++ held)) := by
        rw [← List.append_assoc]; exact List.perm_append_singleton _ _
      exact hp.trans hF
    · have hlen := hF.length_eq
      simp only [List.length_append, List.length_cons, PoolMemory.blocks, List.length_map,
        List.length_range] at hlen
      have := p.numBlocks.toNat_lt_size
      rw [uint64_toNat_add_one, h.count, List.length_append, List.length_singleton]
      exact Nat.mod_eq_of_lt (by change _ < 2 ^ 64 at this; omega)

theorem ArenaOk.deallocate {ptr : UInt64} (hptr : ptr ∈ held) :
    ArenaOk (PoolCall.apply p held (.deallocate ptr)).1 (PoolCall.apply p held (.deallocate ptr)).2 := by
  obtain ⟨F, hc, hF⟩ := h.free
  have hb : ptr ∈ p.blocks := hF.mem_iff.1 (List.mem_append_right _ hptr)
  have hnF : ptr ∉ F := fun hm => (List.nodup_append.1 (h.nodup hF)).2.2 hm hptr
  simp only [PoolCall.apply, h.layout.deallocate_block hb]
  refine ⟨h.layout.with _ _ _, ⟨ptr :: F, ⟨rfl, h.layout.ne_zero_of_mem hb, ?_⟩, ?_⟩, ?_⟩
  · dsimp only
    rw [Function.update_same]
    exact hc.congr fun a ha => Function.update_noteq (ne_of_mem_of_not_mem ha hnF) _ _
  · exact (((List.perm_cons_erase hptr).append_left F).trans List.perm_middle).symm.trans hF
  · have hpos := List.length_pos_of_mem hptr
    have := h.length_le
    have := p.numBlocks.toNat_lt
    rw [uint64_toNat_sub_one, h.count, List.length_erase_of_mem hptr]
    omega

theorem ArenaOk.apply {c : PoolCall} (hc : c.allowed held) :
    ArenaOk (c.apply p held).1 (c.apply p held).2 := by
  cases c with
  | allocate => exact h.allocate
  | deallocate ptr => exact h.deallocate hc
  | reset => exact ArenaOk.reset h.layout

end Step

/-- **Every run.** Calls whose `deallocate`s give back held blocks keep the pool
representing the caller's blocks. -/
theorem ArenaOk.run {p : PoolMemory} {held : List UInt64} (h : ArenaOk p held) (cs : List PoolCall)
    (hv : PoolCall.Valid p held cs) : ArenaOk (PoolCall.run p held cs).1 (PoolCall.run p held cs).2 := by
  induction cs generalizing p held with
  | nil => exact h
  | cons c cs ih => exact ih (h.apply hv.1) hv.2

/-! ### What the caller sees -/

/-- What the design promises of a pool `p` whose caller holds the blocks
`held`: `get_allocated_count()` counts them and `get_available_count()` the
others; they are distinct, cache-aligned, apart, and each has its
`block_size()` bytes inside the storage; the next `allocate()` returns
`nullptr` exactly when `capacity()` blocks are held, and otherwise a block not
held. -/
structure PoolSound (p : PoolMemory) (held : List UInt64) : Prop where
  count : p.getAllocatedCount.toNat = held.length
  available : p.getAvailableCount.toNat + held.length = p.capacity.toNat
  nodup : held.Nodup
  aligned : ∀ b ∈ held, 64 ∣ b.toNat
  inside : ∀ b ∈ held,
    p.storage.toNat ≤ b.toNat ∧ b.toNat + p.blockSize.toNat ≤ p.storage.toNat + p.storageSize.toNat
  apart : held.Pairwise fun a b =>
    a.toNat + p.blockSize.toNat ≤ b.toNat ∨ b.toNat + p.blockSize.toNat ≤ a.toNat
  null_iff_full : p.allocate.2 = 0 ↔ held.length = p.capacity.toNat
  fresh : p.allocate.2 ≠ 0 → p.allocate.2 ∉ held

theorem ArenaOk.sound {p : PoolMemory} {held : List UInt64} (h : ArenaOk p held) : PoolSound p held := by
  obtain ⟨F, -, hF⟩ := h.free
  have hmem : ∀ b ∈ held, ∃ i < p.numBlocks.toNat, p.block i = b := fun b hb =>
    PoolMemory.mem_blocks.1 (hF.mem_iff.1 (List.mem_append_right _ hb))
  have hnd : held.Nodup := (h.nodup hF).of_append_right
  refine ⟨h.count, ?_, hnd, fun b hb => ?_, fun b hb => ?_, ?_, ?_, ?_⟩
  · have hle := h.length_le
    rw [PoolMemory.getAvailableCount, PoolMemory.getAllocatedCount, UInt64.toNat_sub_of_le _ _
      (show p.allocatedCount.toNat ≤ p.numBlocks.toNat by rw [h.count]; exact hle), h.count,
      PoolMemory.capacity]
    omega
  · obtain ⟨i, hi, rfl⟩ := hmem b hb
    exact (h.layout.block_facts hi).1
  · obtain ⟨i, hi, rfl⟩ := hmem b hb
    exact (h.layout.block_facts hi).2.2
  · refine hnd.pairwise_of_forall_ne fun a ha b hb hne => h.layout.apart_of_ne ?_ ?_ hne <;>
      exact hF.mem_iff.1 (List.mem_append_right _ ‹_›)
  · rcases h.allocate_eq with ⟨h0, -, hl⟩ | ⟨F', h0, -, -, hF', -⟩
    · exact ⟨fun _ => hl, fun _ => h0⟩
    · refine ⟨fun e => absurd e h0, fun hl => ?_⟩
      have := hF'.length_eq
      simp only [List.length_cons, List.length_append, PoolMemory.blocks, List.length_map,
        List.length_range] at this
      change held.length = p.numBlocks.toNat at hl
      omega
  · rcases h.allocate_eq with ⟨h0, -⟩ | ⟨-, -, hnot, -⟩
    · exact fun h' => absurd h0 h'
    · exact fun _ => hnot

/-- **The pool does what its design says when its sizes do not wrap.** For
every `block_size` and `num_blocks` whose rounding and `total_size` fit in a
`size_t`, every placement of the storage, and every run of `allocate`,
`deallocate` and `reset` calls from one thread whose `deallocate`s give back
blocks allocated since the last `reset()` and not given back yet, the pool and
the blocks held after the run are as `PoolSound` says. -/
theorem pool_sound {blockSize numBlocks base : UInt64} (hfit : SizesFit blockSize numBlocks)
    (hbase : StorageFits blockSize numBlocks base) (calls : List PoolCall)
    (hv : PoolCall.Valid (PoolMemory.construct blockSize numBlocks base) [] calls) :
    PoolSound (PoolCall.run (PoolMemory.construct blockSize numBlocks base) [] calls).1
      (PoolCall.run (PoolMemory.construct blockSize numBlocks base) [] calls).2 :=
  ((ArenaOk.construct hfit hbase).run calls hv).sound

/-- Three blocks of 100 bytes, rounded to 128, the storage at address 4096: two
`allocate`s, which return the blocks at 4352 and 4224, then the first of them
given back. -/
theorem pool_sound_two_allocations :
    let calls := [PoolCall.allocate, .allocate, .deallocate 4352]
    SizesFit 100 3 ∧ StorageFits 100 3 4096 ∧
      PoolCall.Valid (PoolMemory.construct 100 3 4096) [] calls ∧
      PoolSound (PoolCall.run (PoolMemory.construct 100 3 4096) [] calls).1
        (PoolCall.run (PoolMemory.construct 100 3 4096) [] calls).2 :=
  ⟨by decide, by decide, by decide, pool_sound (by decide) (by decide) _ (by decide)⟩

/-- `block_size = SIZE_MAX` and two blocks, the storage placed at address 64. -/
def wrappedBlockPool : PoolMemory := PoolMemory.construct 0xFFFFFFFFFFFFFFFF 2 64

/-- **A block size that wraps.** `SIZE_MAX` rounds to a `block_size_` of 0:
both blocks are address 64, `reset()` links it to itself, and three
`allocate()` calls return it three times, with the count past `capacity()`. -/
theorem pool_size_wrap_breaks_invariant :
    ¬SizesFit 0xFFFFFFFFFFFFFFFF 2 ∧ StorageFits 0xFFFFFFFFFFFFFFFF 2 64 ∧
      wrappedBlockPool.blockSize = 0 ∧ wrappedBlockPool.capacity = 2 ∧
      (PoolCall.run wrappedBlockPool [] [.allocate, .allocate, .allocate]).2 = [64, 64, 64] ∧
      (PoolCall.run wrappedBlockPool [] [.allocate, .allocate, .allocate]).1.getAllocatedCount = 3 := by
  decide

end MarketFeed.Common
