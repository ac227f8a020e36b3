import Mathlib

/-!
# The lock-free memory pool

`MemoryPool` keeps its free blocks on a Treiber stack: `free_list_` points at
the first free block and each free block's `next` at the one after it.
`allocate` loads the head, loads its `next`, and swings the head from the block
to that `next` with `compare_exchange_weak`; `deallocate` stores the head into
the block's `next` and swings the head to the block. The header calls
`free_list_` a tagged pointer for ABA prevention, but it is a plain
`std::atomic<FreeNode*>`.

Blocks are their indices; a pointer is an `Option Nat`. Every atomic load,
store, compare-exchange and counter update is one step of one thread, and a
schedule says which thread takes the next step and whether a weak
compare-exchange that could succeed fails spuriously.

`count_quiescent` shows that `allocated_count_` always matches the blocks the
threads hold; `pool_aba_double_hold` is an interleaving after which two threads
hold the same block.
-/

namespace MarketFeed.Common

/-- The shared state: the number of blocks, `free_list_`, the `next` field of
every block, and `allocated_count_`. -/
structure MemoryPool where
  numBlocks : Nat
  freeList : Option Nat
  next : Nat → Option Nat
  allocatedCount : UInt64

/-- `reset()`: block `i` links to block `i - 1`, the head is the last block. -/
def MemoryPool.reset (numBlocks : Nat) : MemoryPool :=
  let built := (List.range numBlocks).foldl
    (fun (acc : Option Nat × (Nat → Option Nat)) i =>
      (some i, fun j => if j = i then acc.1 else acc.2 j))
    (none, fun _ => none)
  ⟨numBlocks, built.1, built.2, 0⟩

/-- A call a thread makes: `allocate()`, or `deallocate` of the `i`-th block
it holds. -/
inductive PoolOp
  | alloc
  | dealloc (i : Nat)
  deriving DecidableEq, Repr

/-- Where a thread is inside a call. -/
inductive PoolPc
  | idle
  /-- `allocate` holds `node`, the head it loaded or a failed exchange returned. -/
  | allocLoaded (node : Option Nat)
  /-- `allocate` has loaded `node->next`. -/
  | allocNext (node : Nat) (next : Option Nat)
  /-- `allocate`'s exchange succeeded; `fetch_add` is next. -/
  | allocCount (node : Nat)
  /-- `deallocate` holds `expected`; the store into `node->next` is next. -/
  | deallocLoaded (node : Nat) (expected : Option Nat)
  /-- `deallocate` has stored `expected` into `node->next`; the exchange is next. -/
  | deallocStored (node : Nat) (expected : Option Nat)
  /-- `deallocate`'s exchange succeeded; `fetch_sub` is next. -/
  | deallocCount (node : Nat)
  deriving DecidableEq, Repr

/-- A thread inside `deallocate`, past its range check. -/
def PoolPc.inDealloc : PoolPc → Bool
  | .deallocLoaded .. | .deallocStored .. | .deallocCount _ => true
  | _ => false

/-- A thread: the calls it has still to make, where it is, and the blocks it holds. -/
structure PoolThread where
  program : List PoolOp
  pc : PoolPc
  held : List Nat
  deriving DecidableEq, Repr

/-- One step of thread `t`; `spurious` makes a weak exchange fail. -/
def MemoryPool.threadStep (p : MemoryPool) (t : PoolThread) (spurious : Bool) :
    MemoryPool × PoolThread :=
  match t.pc with
  | .idle =>
    match t.program with
    | [] => (p, t)
    | .alloc :: rest => (p, { t with program := rest, pc := .allocLoaded p.freeList })
    | .dealloc i :: rest =>
      match t.held[i]? with
      | some b =>
        if b < p.numBlocks then
          (p, ⟨rest, .deallocLoaded b p.freeList, t.held.eraseIdx i⟩)
        else (p, { t with program := rest })
      | none => (p, { t with program := rest })
  | .allocLoaded none => (p, { t with pc := .idle })
  | .allocLoaded (some n) => (p, { t with pc := .allocNext n (p.next n) })
  | .allocNext n nx =>
    if p.freeList = some n ∧ spurious = false then
      ({ p with freeList := nx }, { t with pc := .allocCount n })
    else (p, { t with pc := .allocLoaded p.freeList })
  | .allocCount n =>
    ({ p with allocatedCount := p.allocatedCount + 1 }, { t with pc := .idle, held := t.held ++ [n] })
  | .deallocLoaded b e =>
    ({ p with next := fun j => if j = b then e else p.next j }, { t with pc := .deallocStored b e })
  | .deallocStored b e =>
    if p.freeList = e ∧ spurious = false then
      ({ p with freeList := some b }, { t with pc := .deallocCount b })
    else (p, { t with pc := .deallocLoaded b p.freeList })
  | .deallocCount _ =>
    ({ p with allocatedCount := p.allocatedCount - 1 }, { t with pc := .idle })

/-- The pool and its threads. -/
structure PoolRun where
  pool : MemoryPool
  threads : List PoolThread

/-- Thread `i` takes one step; a missing thread changes nothing. -/
def PoolRun.step (r : PoolRun) (i : Nat) (spurious : Bool) : PoolRun :=
  match r.threads[i]? with
  | some t =>
    let s := r.pool.threadStep t spurious
    ⟨s.1, r.threads.set i s.2⟩
  | none => r

/-- A schedule of steps. -/
def PoolRun.run (r : PoolRun) : List (Nat × Bool) → PoolRun
  | [] => r
  | (i, spurious) :: sched => (r.step i spurious).run sched

/-! ### The counter matches the blocks held -/

/-- What thread `t` accounts for in `allocated_count_`: the blocks it holds,
and one more while it is inside `deallocate` before its `fetch_sub`. -/
def PoolThread.owed (t : PoolThread) : Nat := t.held.length + if t.pc.inDealloc then 1 else 0

theorem uint64_toNat_add_one (c : UInt64) : (c + 1).toNat = (c.toNat + 1) % 2 ^ 64 := rfl

theorem uint64_toNat_sub_one (c : UInt64) : (c - 1).toNat = (2 ^ 64 - 1 + c.toNat) % 2 ^ 64 :=
  rfl

/-- **One step.** A step moves `allocated_count_` by exactly what it moves the
stepping thread's share. -/
theorem threadStep_count (p : MemoryPool) (t : PoolThread) (spurious : Bool) :
    ((p.threadStep t spurious).1.allocatedCount.toNat + t.owed) % 2 ^ 64 =
      (p.allocatedCount.toNat + (p.threadStep t spurious).2.owed) % 2 ^ 64 := by
  unfold MemoryPool.threadStep
  rcases hpc : t.pc with _ | node | ⟨n, nx⟩ | n | ⟨b, e⟩ | ⟨b, e⟩ | b
  · rcases hprog : t.program with _ | ⟨_ | i, rest⟩
    · rfl
    · simp [PoolThread.owed, hpc, PoolPc.inDealloc]
    · rcases hb : t.held[i]? with _ | b
      · simp [PoolThread.owed, hpc, hb]
      · have hi : i < t.held.length := (List.getElem?_eq_some_iff.mp hb).1
        simp only [hb]
        split_ifs
        · simp [PoolThread.owed, hpc, PoolPc.inDealloc, List.length_eraseIdx, hi]
          omega
        · simp [PoolThread.owed, hpc]
  · cases node <;> simp [PoolThread.owed, hpc, PoolPc.inDealloc]
  · dsimp only; split_ifs <;> simp [PoolThread.owed, hpc, PoolPc.inDealloc]
  · simp only [PoolThread.owed, hpc, PoolPc.inDealloc, uint64_toNat_add_one, List.length_append,
      List.length_singleton]
    omega
  · simp [PoolThread.owed, hpc, PoolPc.inDealloc]
  · dsimp only; split_ifs <;> simp [PoolThread.owed, hpc, PoolPc.inDealloc]
  · simp [PoolThread.owed, hpc, PoolPc.inDealloc, uint64_toNat_sub_one]
    omega

theorem sum_map_set {α : Type} (l : List α) (i : Nat) (a x : α) (f : α → Nat) (h : l[i]? = some a) :
    ((l.set i x).map f).sum + f a = (l.map f).sum + f x := by
  induction l generalizing i with
  | nil => cases h
  | cons y l ih =>
    cases i with
    | zero =>
      obtain rfl : y = a := by simpa using h
      simp only [List.set_cons_zero, List.map_cons, List.sum_cons]
      omega
    | succ i =>
      have := ih i (by simpa using h)
      simp only [List.set_cons_succ, List.map_cons, List.sum_cons]
      omega

/-- The counter is the threads' shares, modulo `2^64`. -/
def PoolRun.CountOk (r : PoolRun) : Prop :=
  r.pool.allocatedCount.toNat = (r.threads.map PoolThread.owed).sum % 2 ^ 64

theorem PoolRun.CountOk.step {r : PoolRun} (h : r.CountOk) (i : Nat) (spurious : Bool) :
    (r.step i spurious).CountOk := by
  unfold PoolRun.step
  rcases ht : r.threads[i]? with _ | t
  · exact h
  · have hs := sum_map_set r.threads i t (r.pool.threadStep t spurious).2 PoolThread.owed ht
    have hc := threadStep_count r.pool t spurious
    have hlt := (r.pool.threadStep t spurious).1.allocatedCount.toNat_lt
    unfold PoolRun.CountOk at h ⊢
    dsimp only
    rw [h] at hc
    change _ < 2 ^ 64 at hlt
    omega

theorem PoolRun.CountOk.run {r : PoolRun} (h : r.CountOk) (sched : List (Nat × Bool)) :
    (r.run sched).CountOk := by
  induction sched generalizing r with
  | nil => exact h
  | cons s sched ih => exact ih (h.step s.1 s.2)

/-- **The counter at rest.** From a reset pool and idle threads holding
nothing, after any schedule in which every thread is back between calls,
`allocated_count_` is the number of blocks the threads hold, counted per
thread. -/
theorem count_quiescent (numBlocks : Nat) (programs : List (List PoolOp))
    (sched : List (Nat × Bool))
    (hidle : ∀ t ∈ (PoolRun.run ⟨.reset numBlocks, programs.map (⟨·, .idle, []⟩)⟩ sched).threads,
      t.pc = .idle) :
    (PoolRun.run ⟨.reset numBlocks, programs.map (⟨·, .idle, []⟩)⟩ sched).pool.allocatedCount =
      UInt64.ofNat
        ((PoolRun.run ⟨.reset numBlocks, programs.map (⟨·, .idle, []⟩)⟩ sched).threads.map
          (·.held.length)).sum := by
  have h0 : PoolRun.CountOk ⟨.reset numBlocks, programs.map (⟨·, .idle, []⟩)⟩ := by
    simp [PoolRun.CountOk, MemoryPool.reset, PoolThread.owed, PoolPc.inDealloc, Function.comp_def]
  have h := h0.run sched
  unfold PoolRun.CountOk at h
  have hmap : (PoolRun.run ⟨.reset numBlocks, programs.map (⟨·, .idle, []⟩)⟩ sched).threads.map
      PoolThread.owed = (PoolRun.run ⟨.reset numBlocks, programs.map (⟨·, .idle, []⟩)⟩ sched).threads.map
      (·.held.length) :=
    List.map_congr_left fun t ht => by simp [PoolThread.owed, hidle t ht, PoolPc.inDealloc]
  rw [UInt64.ext_iff, h, hmap]
  rfl

/-- Three blocks; thread 0 allocates twice, thread 1 allocates twice and gives
back the first block it got. -/
def abaStart : PoolRun :=
  ⟨.reset 3, [⟨[.alloc, .alloc], .idle, []⟩, ⟨[.alloc, .alloc, .dealloc 0], .idle, []⟩]⟩

/-- Thread 0 loads the head and its `next`, then waits; thread 1 makes its three
calls; thread 0 finishes. -/
def abaSchedule : List (Nat × Bool) :=
  List.replicate 2 (0, false) ++ List.replicate 12 (1, false) ++ List.replicate 6 (0, false)

/-- Thread 0 loads the head, block 2, and its `next`, block 1. Thread 1 takes
blocks 2 and 1 and gives block 2 back, so the head is block 2 again. Thread 0's
exchange succeeds and makes block 1, which thread 1 holds, the head, and thread
0's second `allocate` returns it: both threads hold block 1, and
`allocated_count_` is 3 while block 0 is still free. -/
theorem pool_aba_double_hold :
    (abaStart.run abaSchedule).threads = [⟨[], .idle, [2, 1]⟩, ⟨[], .idle, [1]⟩] ∧
      (abaStart.run abaSchedule).pool.freeList = some 0 ∧
      (abaStart.run abaSchedule).pool.allocatedCount = 3 := by
  decide

/-- The run of `pool_aba_double_hold` ends with both threads between calls, and
`allocated_count_`, 3, is the number of blocks they hold, one of them twice. -/
theorem count_quiescent_aba :
    let programs := [[PoolOp.alloc, .alloc], [.alloc, .alloc, .dealloc 0]]
    (∀ t ∈ (PoolRun.run ⟨.reset 3, programs.map (⟨·, .idle, []⟩)⟩ abaSchedule).threads,
      t.pc = .idle) ∧
      (PoolRun.run ⟨.reset 3, programs.map (⟨·, .idle, []⟩)⟩ abaSchedule).pool.allocatedCount =
        UInt64.ofNat ((PoolRun.run ⟨.reset 3, programs.map (⟨·, .idle, []⟩)⟩ abaSchedule).threads.map
          (·.held.length)).sum :=
  ⟨by decide, count_quiescent 3 _ abaSchedule (by decide)⟩

end MarketFeed.Common
