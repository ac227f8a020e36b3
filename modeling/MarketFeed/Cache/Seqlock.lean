import MarketFeed.Cache.SymbolCache

/-!
# The seqlock of one cache entry, under every interleaving

The single writer runs its calls on one symbol while readers run
`get_snapshot` on it. Every load or store of the sequence and every load or
store of a payload field is one step. The writer's own loads of fields only it
writes (`update_count`, `opening_price`) and its id check touch nothing a
reader sees, and are taken with the step after them; calls on other symbols
touch other entries (`SymbolCache.entry_update`) and are left out.

`Seqlock.run` interleaves the writer and the readers by a schedule. The
invariant `Consistent` holds of every reachable state: the sequence is twice
the number of finished calls, plus one inside a write section, mod 2^64; the
entry's state is the state after the finished calls, except for the fields
already stored inside a section; and a reader that has seen an even sequence
agrees with that state on every field it has copied, as long as the sequence
has not moved. Its first two fields, `WriterInv`, involve the writer alone and
hold of every run, however long: the sequence is odd exactly inside a write
section. With fewer than 2^63 calls the sequence cannot come back to a value it
had, so a reader whose two loads agree returns a committed state
(`seqlock_snapshot`). With 2^63 calls of `update_bid` while one reader sleeps
between two field loads, it comes back, and the reader returns a mixture
(`torn_snapshot_after_wrap`).
-/

namespace MarketFeed.Cache

open MarketFeed.Protocol (uint64_ofNat_add)

/-- A field of `MarketState`, in the order `snapshot = entry.state` copies them. -/
inductive Field
  | bestBid
  | bestAsk
  | bidQuantity
  | askQuantity
  | lastTradedPrice
  | lastTradedQuantity
  | lastUpdateTime
  | updateCount
  | openingPrice
  deriving DecidableEq, Repr

/-- Every field, in declaration order. -/
def Field.all : List Field :=
  [.bestBid, .bestAsk, .bidQuantity, .askQuantity, .lastTradedPrice, .lastTradedQuantity,
    .lastUpdateTime, .updateCount, .openingPrice]

/-- One plain load-and-store: field `f` of `src` into `dst`. -/
def Field.copy : Field → MarketState → MarketState → MarketState
  | .bestBid, src, dst => { dst with bestBid := src.bestBid }
  | .bestAsk, src, dst => { dst with bestAsk := src.bestAsk }
  | .bidQuantity, src, dst => { dst with bidQuantity := src.bidQuantity }
  | .askQuantity, src, dst => { dst with askQuantity := src.askQuantity }
  | .lastTradedPrice, src, dst => { dst with lastTradedPrice := src.lastTradedPrice }
  | .lastTradedQuantity, src, dst => { dst with lastTradedQuantity := src.lastTradedQuantity }
  | .lastUpdateTime, src, dst => { dst with lastUpdateTime := src.lastUpdateTime }
  | .updateCount, src, dst => { dst with updateCount := src.updateCount }
  | .openingPrice, src, dst => { dst with openingPrice := src.openingPrice }

/-- The fields `fs`, one after the other, from `src` into `dst`. -/
def copyAll (fs : List Field) (src dst : MarketState) : MarketState :=
  fs.foldl (fun d f => f.copy src d) dst

/-- A call of the writer on the symbol. -/
inductive WriterOp
  | quote (bidPrice : UInt64) (bidQty : UInt32) (askPrice : UInt64) (askQty : UInt32)
      (timestamp : UInt64)
  | trade (price : UInt64) (quantity : UInt32) (timestamp : UInt64)
  | bid (price : UInt64) (quantity : UInt32) (timestamp : UInt64)
  | ask (price : UInt64) (quantity : UInt32) (timestamp : UInt64)
  deriving DecidableEq, Repr

section Writer

variable (midpoint : UInt64 → UInt64 → UInt64)

/-- The state a call leaves: `update_quote`, `update_trade`, `update_bid`, `update_ask`. -/
def WriterOp.apply : WriterOp → MarketState → MarketState
  | .quote bp bq ap aq ts, st => st.quote midpoint bp bq ap aq ts
  | .trade p q ts, st => st.trade p q ts
  | .bid p q ts, st => st.bid p q ts
  | .ask p q ts, st => st.ask p q ts

/-- The field stores of a call, in source order, from the state it starts on. -/
def WriterOp.stores : WriterOp → MarketState → List Field
  | .quote .., st =>
    [.bestBid, .bidQuantity, .bestAsk, .askQuantity, .lastUpdateTime, .updateCount] ++
      if isZero st.openingPrice then [.openingPrice] else []
  | .trade .., st =>
    [.lastTradedPrice, .lastTradedQuantity, .lastUpdateTime, .updateCount] ++
      if isZero st.openingPrice then [.openingPrice] else []
  | .bid .., _ => [.bestBid, .bidQuantity, .lastUpdateTime, .updateCount]
  | .ask .., _ => [.bestAsk, .askQuantity, .lastUpdateTime, .updateCount]

/-- The state after the first `k` calls of the writer's program. -/
def commit (program : List WriterOp) (k : Nat) : MarketState :=
  (program.take k).foldl (fun st op => op.apply midpoint st) {}

end Writer

/-- Where the writer stands. `began seq`: `begin_write` has loaded `seq`;
`writing target pending`: inside the section, `pending` are the stores left and
`target` the state they lead to; `ending seq`: `end_write` has loaded `seq`. -/
inductive WriterPc
  | idle
  | began (seq : UInt64)
  | writing (target : MarketState) (pending : List Field)
  | ending (seq : UInt64)
  deriving DecidableEq, Repr

/-- Between the two sequence stores of a call. -/
def WriterPc.inSection : WriterPc → Bool
  | .writing .. | .ending _ => true
  | _ => false

/-- Where a reader stands. `start snap`: about to load `seq1`, with the
snapshot variable `snap`; `copying seq1 lo snap k`: `seq1` was even, the
first `k` fields are copied; `returned snap lo hi`: `get_snapshot` returned
`snap`. The numbers `lo` and `hi` are ghost: how many writer calls had finished
at the load of `seq1` and at the load of `seq2`. -/
inductive ReaderPc
  | start (snap : MarketState)
  | copying (seq1 : UInt64) (lo : Nat) (snap : MarketState) (k : Nat)
  | returned (snap : MarketState) (lo hi : Nat)
  deriving DecidableEq, Repr

/-- The entry, the writer with its whole program and the number of calls it has
finished, and the readers. -/
structure Seqlock where
  program : List WriterOp
  entry : SymbolEntry
  done : Nat
  writer : WriterPc
  readers : List ReaderPc

/-- A fresh entry, the writer about to run `program`, and `n` readers about to
call `get_snapshot`. -/
def Seqlock.start (program : List WriterOp) (n : Nat) : Seqlock :=
  ⟨program, {}, 0, .idle, List.replicate n (.start {})⟩

/-- Who runs the next step. -/
inductive Actor
  | writer
  | reader (i : Nat)
  deriving DecidableEq, Repr

section Steps

variable (midpoint : UInt64 → UInt64 → UInt64)

/-- One step of the writer. -/
def Seqlock.writerStep (s : Seqlock) : Seqlock :=
  match s.writer, s.program[s.done]? with
  | .idle, some _ => { s with writer := .began s.entry.sequence }
  | .began seq, some op =>
    { s with entry := { s.entry with sequence := seq + 1 },
             writer := .writing (op.apply midpoint s.entry.state) (op.stores s.entry.state) }
  | .writing target (f :: fs), _ =>
    { s with entry := { s.entry with state := f.copy target s.entry.state },
             writer := .writing target fs }
  | .writing _ [], _ => { s with writer := .ending s.entry.sequence }
  | .ending seq, _ =>
    { s with entry := { s.entry with sequence := seq + 1 }, writer := .idle, done := s.done + 1 }
  | _, none => s

/-- One step of a reader on the entry `e`, when `done` writer calls have finished:
a sequence load (spinning while it is odd, retrying when the two loads differ)
or one field copy. -/
def readerStep (e : SymbolEntry) (done : Nat) : ReaderPc → ReaderPc
  | .start snap => if e.sequence % 2 = 1 then .start snap else .copying e.sequence done snap 0
  | .copying seq1 lo snap k =>
    match Field.all[k]? with
    | some f => .copying seq1 lo (f.copy e.state snap) (k + 1)
    | none => if e.sequence = seq1 then .returned snap lo done else .start snap
  | .returned snap lo hi => .returned snap lo hi

/-- One scheduled step. -/
def Seqlock.step (s : Seqlock) : Actor → Seqlock
  | .writer => s.writerStep midpoint
  | .reader i =>
    match s.readers[i]? with
    | some r => { s with readers := s.readers.set i (readerStep s.entry s.done r) }
    | none => s

/-- A run of the schedule. -/
def Seqlock.run (s : Seqlock) : List Actor → Seqlock
  | [] => s
  | a :: rest => (s.step midpoint a).run rest

end Steps

/-! ### Field copies -/

theorem copyAll_append (a b : List Field) (src dst : MarketState) :
    copyAll (a ++ b) src dst = copyAll b src (copyAll a src dst) := List.foldl_append _ _ _ _

/-- Copying every field copies the state. -/
theorem copyAll_all (src dst : MarketState) : copyAll Field.all src dst = src := by
  cases src; rfl

theorem copyAll_stores (midpoint : UInt64 → UInt64 → UInt64) (op : WriterOp) (st : MarketState) :
    copyAll (op.stores st) (op.apply midpoint st) st = op.apply midpoint st := by
  cases op <;> simp only [WriterOp.stores, WriterOp.apply, MarketState.quote, MarketState.trade] <;>
    (try split_ifs) <;> rfl

theorem take_all_succ {k : Nat} {f : Field} (h : Field.all[k]? = some f) :
    Field.all.take (k + 1) = Field.all.take k ++ [f] := by
  rw [List.take_succ, h]; rfl

theorem commit_succ (midpoint : UInt64 → UInt64 → UInt64) {program : List WriterOp} {k : Nat}
    {op : WriterOp} (h : program[k]? = some op) :
    commit midpoint program (k + 1) = op.apply midpoint (commit midpoint program k) := by
  rw [commit, List.take_succ, h]
  simp [commit]

theorem uint64_toNat_ofNat (n : Nat) : (UInt64.ofNat n).toNat = n % 2 ^ 64 := rfl

theorem uint64_add_ofNat_add (a : UInt64) (m n : Nat) :
    a + UInt64.ofNat m + UInt64.ofNat n = a + UInt64.ofNat (m + n) :=
  UInt64.ext (by simp only [UInt64.toNat_add, uint64_toNat_ofNat, UInt64.size]; omega)

theorem uint64_add_ofNat_zero (a : UInt64) : a + UInt64.ofNat 0 = a :=
  UInt64.ext (by simp only [UInt64.toNat_add, uint64_toNat_ofNat, UInt64.size]; have := a.toNat_lt; omega)

theorem uint64_ofNat_succ (n : Nat) : UInt64.ofNat n + 1 = UInt64.ofNat (n + 1) :=
  (uint64_ofNat_add n 1).symm

theorem uint64_ofNat_odd (n : Nat) : UInt64.ofNat n % 2 = 1 ↔ n % 2 = 1 := by
  constructor <;> intro h
  · have := congrArg UInt64.toNat h
    simp only [UInt64.toNat_mod] at this
    change n % 2 ^ 64 % 2 = 1 at this
    omega
  · apply UInt64.ext
    simp only [UInt64.toNat_mod]
    change n % 2 ^ 64 % 2 = 1
    omega

/-! ### The invariant -/

/-- The sequence as an unbounded number: two per finished call, one more inside
a write section. -/
def Seqlock.natSeq (s : Seqlock) : Nat := 2 * s.done + if s.writer.inSection then 1 else 0

section Invariant

variable (midpoint : UInt64 → UInt64 → UInt64)

/-- What the writer's position says about the entry. -/
def WriterOk (s : Seqlock) : Prop :=
  match s.writer with
  | .idle => s.done ≤ s.program.length ∧ s.entry.state = commit midpoint s.program s.done
  | .began seq =>
    seq = s.entry.sequence ∧ s.done < s.program.length ∧
      s.entry.state = commit midpoint s.program s.done
  | .writing target pending =>
    ∃ op, s.program[s.done]? = some op ∧
      target = op.apply midpoint (commit midpoint s.program s.done) ∧
      ∃ pre, pre ++ pending = op.stores (commit midpoint s.program s.done) ∧
        s.entry.state = copyAll pre target (commit midpoint s.program s.done)
  | .ending seq =>
    seq = s.entry.sequence ∧ s.done < s.program.length ∧
      s.entry.state = commit midpoint s.program (s.done + 1)

/-- What a reader's position says: a reader copying after an even `seq1` agrees
with the state of `lo` calls on every field copied, while the sequence has not
moved; a snapshot returned is the state of `k` calls, `lo ≤ k ≤ hi`. -/
def ReaderOk (s : Seqlock) : ReaderPc → Prop
  | .start _ => True
  | .copying seq1 lo snap k =>
    seq1 = UInt64.ofNat (2 * lo) ∧ lo ≤ s.done ∧
      (s.natSeq = 2 * lo → ∃ snap0, snap = copyAll (Field.all.take k) (commit midpoint s.program lo) snap0)
  | .returned snap lo hi =>
    lo ≤ hi ∧ hi ≤ s.done ∧ ∃ k, lo ≤ k ∧ k ≤ hi ∧ snap = commit midpoint s.program k

/-- The invariant of every interleaving. -/
structure Consistent (s : Seqlock) : Prop where
  sequence : s.entry.sequence = UInt64.ofNat s.natSeq
  writer : WriterOk midpoint s
  readers : ∀ r ∈ s.readers, ReaderOk midpoint s r

theorem WriterOk.done_le {s : Seqlock} (h : WriterOk midpoint s) : s.done ≤ s.program.length := by
  unfold WriterOk at h
  split at h
  · exact h.1
  · exact h.2.1.le
  · obtain ⟨op, hop, -⟩ := h
    exact (List.getElem?_eq_some_iff.mp hop).1.le
  · exact h.2.1.le

/-- Outside a section the entry holds the state of the finished calls. -/
theorem WriterOk.state_of_even {s : Seqlock} (h : WriterOk midpoint s)
    (he : s.writer.inSection = false) : s.entry.state = commit midpoint s.program s.done := by
  unfold WriterOk at h
  split at h <;> simp_all [WriterPc.inSection]

/-- A reader's facts survive a step that keeps the program, finishes no fewer
calls, and moves the sequence off every even value `2 * lo` it had left. -/
theorem ReaderOk.mono {s s' : Seqlock} {r : ReaderPc} (h : ReaderOk midpoint s r)
    (hp : s'.program = s.program) (hd : s.done ≤ s'.done)
    (hseq : ∀ lo, lo ≤ s.done → s'.natSeq = 2 * lo → s.natSeq = 2 * lo) : ReaderOk midpoint s' r := by
  cases r with
  | start => trivial
  | copying seq1 lo snap k =>
    obtain ⟨h1, h2, h3⟩ := h
    exact ⟨h1, h2.trans hd, fun e => hp ▸ h3 (hseq lo h2 e)⟩
  | returned snap lo hi =>
    obtain ⟨h1, h2, k, hk⟩ := h
    exact ⟨h1, h2.trans hd, k, hp ▸ hk⟩

theorem readers_mono {s s' : Seqlock} (hr : ∀ r ∈ s.readers, ReaderOk midpoint s r)
    (hrs : s'.readers = s.readers) (hp : s'.program = s.program) (hd : s.done ≤ s'.done)
    (hseq : ∀ lo, lo ≤ s.done → s'.natSeq = 2 * lo → s.natSeq = 2 * lo) :
    ∀ r ∈ s'.readers, ReaderOk midpoint s' r :=
  fun r hm => (hr r (hrs ▸ hm)).mono midpoint hp hd hseq

/-- **The writer's step keeps the invariant.** -/
theorem Consistent.writerStep {s : Seqlock} (h : Consistent midpoint s) :
    Consistent midpoint (s.writerStep midpoint) := by
  obtain ⟨hseq, hw, hr⟩ := h
  have hdone := hw.done_le
  unfold Seqlock.writerStep
  split
  · next op hwp hop =>
    simp only [WriterOk, hwp] at hw
    refine ⟨?_, ⟨rfl, (List.getElem?_eq_some_iff.mp hop).1, hw.2⟩, ?_⟩
    · simpa [Seqlock.natSeq, hwp, WriterPc.inSection] using hseq
    · exact readers_mono midpoint hr rfl rfl le_rfl fun lo _ e => by
        simpa [Seqlock.natSeq, hwp, WriterPc.inSection] using e
  · next seq op hwp hop =>
    simp only [WriterOk, hwp] at hw
    obtain ⟨rfl, -, hst⟩ := hw
    refine ⟨?_, ⟨op, hop, by rw [hst], [], by simp [hst], by rw [hst]; rfl⟩, ?_⟩
    · simp [Seqlock.natSeq, hwp, WriterPc.inSection] at hseq ⊢
      rw [hseq, uint64_ofNat_succ]
    · refine readers_mono midpoint hr rfl rfl le_rfl fun lo _ e => ?_
      simp [Seqlock.natSeq, hwp, WriterPc.inSection] at e; omega
  · next target f fs hwp =>
    simp only [WriterOk, hwp] at hw
    obtain ⟨op, hop, htarget, pre, hpre, hst⟩ := hw
    refine ⟨by simpa [Seqlock.natSeq, hwp, WriterPc.inSection] using hseq,
      ⟨op, hop, htarget, pre ++ [f], by rw [List.append_assoc]; exact hpre, ?_⟩, ?_⟩
    · simp only [copyAll_append, hst]; rfl
    · refine readers_mono midpoint hr rfl rfl le_rfl fun lo _ e => ?_
      simp [Seqlock.natSeq, hwp, WriterPc.inSection] at e; omega
  · next target hwp =>
    simp only [WriterOk, hwp] at hw
    obtain ⟨op, hop, rfl, pre, hpre, hst⟩ := hw
    refine ⟨by simpa [Seqlock.natSeq, hwp, WriterPc.inSection] using hseq,
      ⟨rfl, (List.getElem?_eq_some_iff.mp hop).1, ?_⟩, ?_⟩
    · rw [List.append_nil] at hpre
      rw [hst, commit_succ midpoint hop, hpre, copyAll_stores]
    · refine readers_mono midpoint hr rfl rfl le_rfl fun lo _ e => ?_
      simpa [Seqlock.natSeq, hwp, WriterPc.inSection] using e
  · next seq hwp =>
    simp only [WriterOk, hwp] at hw
    obtain ⟨rfl, hlt, hst⟩ := hw
    refine ⟨?_, ⟨hlt, hst⟩, ?_⟩
    · simp [Seqlock.natSeq, hwp, WriterPc.inSection] at hseq ⊢
      rw [hseq, uint64_ofNat_succ]; congr 1
    · refine readers_mono midpoint hr rfl rfl (Nat.le_succ _) fun lo hlo e => ?_
      simp [Seqlock.natSeq, hwp, WriterPc.inSection] at e; omega
  · exact ⟨hseq, hw, hr⟩

theorem uint64_ofNat_inj {a b : Nat} (h : UInt64.ofNat a = UInt64.ofNat b) (ha : a < 2 ^ 64)
    (hb : b < 2 ^ 64) : a = b := by
  have := congrArg UInt64.toNat h
  change a % 2 ^ 64 = b % 2 ^ 64 at this
  rwa [Nat.mod_eq_of_lt ha, Nat.mod_eq_of_lt hb] at this

theorem Consistent.natSeq_le {s : Seqlock} (h : Consistent midpoint s) :
    s.natSeq ≤ 2 * s.program.length + 1 := by
  have := h.writer.done_le
  unfold Seqlock.natSeq; split <;> omega

/-- A sequence load that reads an even value finds the writer outside a section. -/
theorem Consistent.even {s : Seqlock} (h : Consistent midpoint s) (he : ¬s.entry.sequence % 2 = 1) :
    s.natSeq = 2 * s.done ∧ s.writer.inSection = false := by
  rw [h.sequence, uint64_ofNat_odd] at he
  unfold Seqlock.natSeq at he ⊢
  split at he <;> simp_all
  omega

/-- **A reader's step keeps its facts.** The bound on the program keeps the
sequence from wrapping, so two equal loads mean that it has not moved. -/
theorem ReaderOk.after_readerStep {s : Seqlock} (h : Consistent midpoint s)
    (hlen : s.program.length < 2 ^ 63) {r : ReaderPc} (hr : ReaderOk midpoint s r) :
    ReaderOk midpoint s (readerStep s.entry s.done r) := by
  cases r with
  | start snap =>
    by_cases hodd : s.entry.sequence % 2 = 1
    · simp only [readerStep, if_pos hodd]; trivial
    · simp only [readerStep, if_neg hodd]
      obtain ⟨hn, -⟩ := h.even midpoint hodd
      exact ⟨h.sequence.trans (congrArg _ hn), le_rfl, fun _ => ⟨snap, rfl⟩⟩
  | copying seq1 lo snap k =>
    obtain ⟨h1, h2, h3⟩ := hr
    rcases hf : Field.all[k]? with _ | f
    · simp only [readerStep, hf]
      by_cases he : s.entry.sequence = seq1
      · rw [if_pos he]
        have hn : s.natSeq = 2 * lo := by
          rw [h.sequence, h1] at he
          have := h.natSeq_le midpoint
          have := h.writer.done_le midpoint
          exact uint64_ofNat_inj he (by omega) (by omega)
        obtain ⟨snap0, rfl⟩ := h3 hn
        have hall : Field.all.take k = Field.all :=
          List.take_of_length_le (by simpa using List.getElem?_eq_none_iff.mp hf)
        exact ⟨h2, le_rfl, lo, le_rfl, h2, by rw [hall, copyAll_all]⟩
      · rw [if_neg he]; trivial
    · simp only [readerStep, hf]
      refine ⟨h1, h2, fun e => ?_⟩
      obtain ⟨snap0, rfl⟩ := h3 e
      have hin : s.writer.inSection = false := by
        unfold Seqlock.natSeq at e; split at e <;> simp_all; omega
      have hlo : lo = s.done := by unfold Seqlock.natSeq at e; simp [hin] at e; omega
      refine ⟨snap0, ?_⟩
      rw [take_all_succ hf, copyAll_append, h.writer.state_of_even midpoint hin, hlo]
      rfl
  | returned snap lo hi => exact hr

theorem Consistent.step {s : Seqlock} (h : Consistent midpoint s)
    (hlen : s.program.length < 2 ^ 63) (a : Actor) : Consistent midpoint (s.step midpoint a) := by
  cases a with
  | writer => exact h.writerStep midpoint
  | reader i =>
    rcases hri : s.readers[i]? with _ | r
    · simpa [Seqlock.step, hri] using h
    · simp only [Seqlock.step, hri]
      refine ⟨h.sequence, h.writer, fun r' hm => ?_⟩
      rcases List.mem_or_eq_of_mem_set hm with hm | rfl
      · exact h.readers r' hm
      · exact (h.readers r (List.getElem?_mem hri)).after_readerStep midpoint h hlen

theorem Seqlock.writerStep_program (s : Seqlock) : (s.writerStep midpoint).program = s.program := by
  unfold writerStep; split <;> rfl

theorem Seqlock.step_program (s : Seqlock) (a : Actor) : (s.step midpoint a).program = s.program := by
  cases a with
  | writer => exact s.writerStep_program midpoint
  | reader i => simp only [step]; split <;> rfl

theorem Consistent.run {s : Seqlock} (h : Consistent midpoint s)
    (hlen : s.program.length < 2 ^ 63) (sched : List Actor) :
    Consistent midpoint (s.run midpoint sched) ∧ (s.run midpoint sched).program = s.program := by
  induction sched generalizing s with
  | nil => exact ⟨h, rfl⟩
  | cons a rest ih =>
    have hp := s.step_program midpoint a
    obtain ⟨h', hp'⟩ := ih (h.step midpoint hlen a) (hp ▸ hlen)
    exact ⟨h', hp'.trans hp⟩

theorem consistent_start (program : List WriterOp) (n : Nat) :
    Consistent midpoint (Seqlock.start program n) where
  sequence := rfl
  writer := ⟨Nat.zero_le _, rfl⟩
  readers r hr := by
    obtain ⟨-, rfl⟩ := List.mem_replicate.mp hr
    trivial

/-! ### The writer alone -/

/-- What the writer keeps by itself, with no reader and no bound on its program:
the sequence is the unbounded count modulo 2^64, and its position says what
the entry holds. -/
structure WriterInv (s : Seqlock) : Prop where
  sequence : s.entry.sequence = UInt64.ofNat s.natSeq
  writer : WriterOk midpoint s

theorem Seqlock.writerStep_forget (s : Seqlock) :
    ({ s with readers := [] } : Seqlock).writerStep midpoint =
      { s.writerStep midpoint with readers := [] } := by
  obtain ⟨program, entry, done, writer, readers⟩ := s
  rcases writer with _ | seq | ⟨target, _ | ⟨f, fs⟩⟩ | seq <;>
    rcases h : program[done]? with _ | op <;> simp only [Seqlock.writerStep, h]

/-- Every step keeps the writer's invariant: the writer's by
`Consistent.writerStep` with the readers forgotten, a reader's because it
writes nothing the writer reads. -/
theorem WriterInv.step {s : Seqlock} (h : WriterInv midpoint s) (a : Actor) :
    WriterInv midpoint (s.step midpoint a) := by
  cases a with
  | writer =>
    have hc := Consistent.writerStep midpoint (s := { s with readers := [] })
      ⟨h.sequence, h.writer, by simp⟩
    rw [Seqlock.writerStep_forget] at hc
    exact ⟨hc.sequence, hc.writer⟩
  | reader i =>
    simp only [Seqlock.step]
    split
    · exact ⟨h.sequence, h.writer⟩
    · exact h

theorem WriterInv.run {s : Seqlock} (h : WriterInv midpoint s) (sched : List Actor) :
    WriterInv midpoint (s.run midpoint sched) := by
  induction sched generalizing s with
  | nil => exact h
  | cons a rest ih => exact ih (h.step midpoint a)

theorem writerInv_start (program : List WriterOp) (n : Nat) :
    WriterInv midpoint (Seqlock.start program n) :=
  ⟨(consistent_start midpoint program n).sequence, (consistent_start midpoint program n).writer⟩

/-- The sequence is odd exactly inside a write section. -/
theorem WriterInv.odd_iff {s : Seqlock} (h : WriterInv midpoint s) :
    s.entry.sequence % 2 = 1 ↔ s.writer.inSection = true := by
  rw [h.sequence, uint64_ofNat_odd, Seqlock.natSeq]
  cases s.writer.inSection <;> simp
  omega

/-- **Snapshots are committed states, while the sequence cannot wrap.** From a
fresh entry, with any writer program and any number of readers, in every
interleaving, the sequence is odd exactly inside a write section. When the
program has fewer than 2^63 calls, every snapshot a reader returns is the state
after some `k` finished calls, where `k` lies between the calls finished at the
reader's load of `seq1` and at its load of `seq2`. -/
theorem seqlock_snapshot (midpoint : UInt64 → UInt64 → UInt64) (program : List WriterOp)
    (n : Nat) (sched : List Actor) :
    let s := (Seqlock.start program n).run midpoint sched
    (s.entry.sequence % 2 = 1 ↔ s.writer.inSection = true) ∧
      (program.length < 2 ^ 63 → ∀ r ∈ s.readers, ∀ snap lo hi, r = .returned snap lo hi →
        lo ≤ hi ∧ hi ≤ s.done ∧ ∃ k, lo ≤ k ∧ k ≤ hi ∧ snap = commit midpoint program k) := by
  intro s
  refine ⟨((writerInv_start midpoint program n).run midpoint sched).odd_iff midpoint,
    fun hlen r hr snap lo hi e => ?_⟩
  obtain ⟨h, hp⟩ := (consistent_start midpoint program n).run midpoint hlen sched
  have := h.readers r hr
  subst e
  obtain ⟨h1, h2, k, hk⟩ := this
  have hp' : s.program = program := hp
  exact ⟨h1, h2, k, hp' ▸ hk⟩

/-- A quote then a bid, with two readers interleaved between the writer's stores. -/
theorem seqlock_snapshot_quote_bid :
    [WriterOp.quote 10 1 20 2 5, .bid 11 3 6].length < 2 ^ 63 ∧
      let s := (Seqlock.start [.quote 10 1 20 2 5, .bid 11 3 6] 2).run (fun b _ => b)
        [.reader 0, .writer, .writer, .reader 1, .writer, .reader 0, .writer, .reader 1]
      (s.entry.sequence % 2 = 1 ↔ s.writer.inSection = true) ∧
        ∀ r ∈ s.readers, ∀ snap lo hi, r = .returned snap lo hi →
          lo ≤ hi ∧ hi ≤ s.done ∧
            ∃ k, lo ≤ k ∧ k ≤ hi ∧
              snap = commit (fun b _ => b) [.quote 10 1 20 2 5, .bid 11 3 6] k :=
  ⟨by decide, (seqlock_snapshot _ _ _ _).1, (seqlock_snapshot _ _ _ _).2 (by decide)⟩

/-! ### When the sequence wraps -/

theorem Seqlock.run_append (midpoint : UInt64 → UInt64 → UInt64) (s : Seqlock) (a b : List Actor) :
    s.run midpoint (a ++ b) = (s.run midpoint a).run midpoint b := by
  induction a generalizing s with
  | nil => rfl
  | cons x a ih => exact ih _

section Wrap

variable (midpoint : UInt64 → UInt64 → UInt64) (p : UInt64) (q : UInt32) (t : UInt64)

/-- The state after `m + 1` calls of `update_bid(p, q, t)`. -/
theorem foldl_bid (m : Nat) (st : MarketState) :
    (List.replicate (m + 1) (WriterOp.bid p q t)).foldl (fun st op => op.apply midpoint st) st =
      { st with bestBid := p, bidQuantity := q, lastUpdateTime := t,
                updateCount := st.updateCount + .ofNat (m + 1) } := by
  induction m generalizing st with
  | zero => rfl
  | succ m ih =>
    rw [List.replicate_succ, List.foldl_cons, ih]
    congr 1
    exact (uint64_add_ofNat_add _ 1 (m + 1)).trans (by rw [Nat.add_comm])

/-- One call of `update_bid` is eight writer steps. -/
theorem writer_bid_call (s : Seqlock) (hw : s.writer = .idle)
    (hop : s.program[s.done]? = some (.bid p q t)) :
    s.run midpoint (List.replicate 8 .writer) =
      { s with entry := ⟨s.entry.sequence + .ofNat 2, s.entry.state.bid p q t⟩,
               done := s.done + 1 } := by
  simp only [List.replicate, Seqlock.run, Seqlock.step, Seqlock.writerStep, hw, hop,
    WriterOp.stores, WriterOp.apply]
  rw [← hw, ← uint64_add_ofNat_add _ 1 1]
  rfl

/-- `m` calls of `update_bid`, run by the writer alone, move the sequence on by `2m`. -/
theorem writer_bid_calls (m : Nat) :
    ∀ s : Seqlock, s.writer = .idle → (∀ j < m, s.program[s.done + j]? = some (.bid p q t)) →
      s.run midpoint (List.replicate (8 * m) .writer) =
        { s with entry := ⟨s.entry.sequence + .ofNat (2 * m),
                   (List.replicate m (WriterOp.bid p q t)).foldl
                     (fun st op => op.apply midpoint st) s.entry.state⟩,
                 done := s.done + m } := by
  induction m with
  | zero => intro s _ _; simp [Seqlock.run, uint64_add_ofNat_zero]
  | succ m ih =>
    intro s hw hops
    rw [show 8 * (m + 1) = 8 + 8 * m by ring, List.replicate_add, Seqlock.run_append,
      writer_bid_call midpoint p q t s hw (by simpa using hops 0 (by omega)), ih]
    · simp only [List.replicate_succ, List.foldl_cons, uint64_add_ofNat_add]
      rw [show 2 + 2 * m = 2 * (m + 1) by ring, Nat.add_right_comm]
      rfl
    · exact hw
    · intro j hj
      have := hops (j + 1) (by omega)
      rwa [show s.done + (j + 1) = s.done + 1 + j by omega] at this

end Wrap

/-- **A torn snapshot once the sequence wraps.** One reader loads the even
sequence `0` and copies `best_bid`. The writer then runs 2^63 calls of
`update_bid(1, 1, 1)`, which bring the sequence back to `0`; the reader copies
the other eight fields and loads `0` again. It returns `best_bid = 0` with
`update_count = 2^63`, a state that no prefix of the writer's calls leaves. -/
theorem torn_snapshot_after_wrap (midpoint : UInt64 → UInt64 → UInt64) :
    let program := List.replicate (2 ^ 63) (WriterOp.bid 1 1 1)
    let sched := [Actor.reader 0, .reader 0] ++ List.replicate (8 * 2 ^ 63) .writer ++
      List.replicate 9 (.reader 0)
    ∃ snap lo hi, ((Seqlock.start program 1).run midpoint sched).readers = [.returned snap lo hi] ∧
      ∀ k, snap ≠ commit midpoint program k := by
  intro program sched
  let wrapped : MarketState :=
    { bestBid := 1, bidQuantity := 1, lastUpdateTime := 1, updateCount := 0 + .ofNat (2 ^ 63) }
  have hA : (Seqlock.start program 1).run midpoint [.reader 0, .reader 0] =
      ⟨program, {}, 0, .idle, [.copying 0 0 {} 1]⟩ := rfl
  have hB := writer_bid_calls midpoint 1 1 1 (2 ^ 63) ⟨program, {}, 0, .idle, [.copying 0 0 {} 1]⟩
    rfl fun j hj => by
      show (List.replicate (2 ^ 63) (WriterOp.bid 1 1 1))[0 + j]? = _
      rw [Nat.zero_add, List.getElem?_replicate, if_pos hj]
  have hS : (List.replicate (2 ^ 63) (WriterOp.bid 1 1 1)).foldl
      (fun st op => op.apply midpoint st) ({} : MarketState) = wrapped := by
    have h := foldl_bid midpoint 1 1 1 (2 ^ 63 - 1) {}
    rwa [show 2 ^ 63 - 1 + 1 = 2 ^ 63 by norm_num] at h
  have hz : (0 : UInt64) + UInt64.ofNat (2 * 2 ^ 63) = 0 := rfl
  have hC : ∀ (d : Nat) (st : MarketState),
      ((⟨program, ⟨0, st⟩, d, .idle, [.copying 0 0 {} 1]⟩ : Seqlock).run midpoint
        (List.replicate 9 (.reader 0))).readers = [.returned (copyAll (Field.all.drop 1) st {}) 0 d] := by
    intro d st
    simp [Seqlock.run, Seqlock.step, readerStep, Field.all, copyAll]
  refine ⟨copyAll (Field.all.drop 1) wrapped {}, 0, 0 + 2 ^ 63, ?_, fun k hk => ?_⟩
  · rw [Seqlock.run_append, Seqlock.run_append, hA, hB]
    simp only [hS, hz]
    exact hC _ _
  · rcases Nat.eq_zero_or_pos (min k (2 ^ 63)) with h0 | hpos
    · have : commit midpoint program k = {} := by
        simp only [commit, program, List.take_replicate, h0]; rfl
      rw [this] at hk
      exact absurd (congrArg MarketState.updateCount hk) (by decide)
    · obtain ⟨m, hm⟩ := Nat.exists_eq_succ_of_ne_zero hpos.ne'
      have : (commit midpoint program k).bestBid = 1 := by
        simp only [commit, program, List.take_replicate, hm, foldl_bid]
      exact absurd (this ▸ congrArg MarketState.bestBid hk) (by decide)

/-- The same run with the midpoint taken as the bid; `update_bid` never reads it. -/
theorem seqlock_torn_after_wrap :
    let program := List.replicate (2 ^ 63) (WriterOp.bid 1 1 1)
    let sched := [Actor.reader 0, .reader 0] ++ List.replicate (8 * 2 ^ 63) .writer ++
      List.replicate 9 (.reader 0)
    ∃ snap lo hi, ((Seqlock.start program 1).run (fun b _ => b) sched).readers =
        [.returned snap lo hi] ∧ ∀ k, snap ≠ commit (fun b _ => b) program k :=
  torn_snapshot_after_wrap fun b _ => b

end Invariant

end MarketFeed.Cache
