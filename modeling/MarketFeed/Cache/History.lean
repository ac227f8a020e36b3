import MarketFeed.Cache.Seqlock

/-!
# The symbol cache is the fold of its writes

With one writer and every read made in quiescence, the cache holds, for each
symbol in range, what the writes made on it since the last `reset()` say it
should. The abstract model keeps exactly that list per symbol
(`writesSinceReset`); `Reflects` relates a cache to it entry by entry, one call
keeps the relation (`Reflects.call`) and so does every run (`Reflects.run`).
What each field of a snapshot reads then follows from one law per field of
`WriterOp.apply`: the field is that of the last write that sets it
(`foldl_apply_lastOf`), and `update_count` counts the writes.

The opening price follows a law of its own. Only quotes and trades set it, and
only while it still compares equal to `0.0`, so it is the first quote midpoint
or trade price that is not `±0.0`, and a value that is not `±0.0` is never
overwritten before the next reset (`opening_price_first_offer`). `update_bid` and
`update_ask` never set it, although `update_quote` and `update_trade` do and
the design stores the opening price on the first update: after a bid and then
a trade, the opening price is the trade's (`opening_price_not_first_call`).
-/

namespace MarketFeed.Cache

open MarketFeed.Protocol

/-- A call of the single writer on the cache: one of the four updates of a
symbol, or `reset()`. -/
inductive CacheCall
  | write (sid : UInt16) (op : WriterOp)
  | reset
  deriving DecidableEq, Repr

section Calls

variable (midpoint : UInt64 → UInt64 → UInt64)

/-- The update a call names: `update_quote`, `update_trade`, `update_bid` or `update_ask`. -/
def SymbolCache.write (c : SymbolCache) (sid : UInt16) : WriterOp → SymbolCache
  | .quote bp bq ap aq ts => c.updateQuote midpoint sid bp bq ap aq ts
  | .trade p q ts => c.updateTrade sid p q ts
  | .bid p q ts => c.updateBid sid p q ts
  | .ask p q ts => c.updateAsk sid p q ts

def SymbolCache.call (c : SymbolCache) : CacheCall → SymbolCache
  | .write sid op => c.write midpoint sid op
  | .reset => c.reset

/-- The cache after a run of calls, one after the other. -/
def SymbolCache.runCalls (c : SymbolCache) (calls : List CacheCall) : SymbolCache :=
  calls.foldl (SymbolCache.call midpoint) c

end Calls

/-- `get_total_updates()`: the update counts of the symbols in range, summed in
`uint64_t`. -/
def SymbolCache.getTotalUpdates (c : SymbolCache) : UInt64 :=
  (List.range c.numSymbols).foldl
    (fun total i => total + (c.getSnapshot (UInt16.ofNat i)).updateCount) 0

/-! ### The abstract model: the writes since the last reset -/

/-- One call on the record of writes per symbol: an update in range is appended
to its symbol's list, one out of range is ignored, and `reset()` empties all. -/
def recordCall (n : Nat) (w : Nat → List WriterOp) : CacheCall → Nat → List WriterOp
  | .write sid op => if sid.toNat < n then Function.update w sid.toNat (w sid.toNat ++ [op]) else w
  | .reset => fun _ => []

/-- The writes made on each symbol since the last reset, `n` symbols in range. -/
def writesSinceReset (n : Nat) (calls : List CacheCall) : Nat → List WriterOp :=
  calls.foldl (recordCall n) fun _ => []

/-- The number of updates in range since the last reset. -/
def updatesSinceReset (n : Nat) (calls : List CacheCall) : Nat :=
  calls.foldl (fun k call => match call with
    | .write sid _ => if sid.toNat < n then k + 1 else k
    | .reset => 0) 0

/-- The value the last write that sets a field gives it, `d` when none does. -/
def lastOf {β : Type} (f : WriterOp → Option β) (ops : List WriterOp) (d : β) : β :=
  ((ops.filterMap f).getLast?).getD d

/-- What a write sets on the bid side: a quote and `update_bid`. -/
def WriterOp.bidSide? : WriterOp → Option (UInt64 × UInt32)
  | .quote bp bq _ _ _ => some (bp, bq)
  | .bid p q _ => some (p, q)
  | _ => none

/-- What a write sets on the ask side: a quote and `update_ask`. -/
def WriterOp.askSide? : WriterOp → Option (UInt64 × UInt32)
  | .quote _ _ ap aq _ => some (ap, aq)
  | .ask p q _ => some (p, q)
  | _ => none

/-- What a trade sets. -/
def WriterOp.traded? : WriterOp → Option (UInt64 × UInt32)
  | .trade p q _ => some (p, q)
  | _ => none

def WriterOp.timestamp : WriterOp → UInt64
  | .quote _ _ _ _ ts | .trade _ _ ts | .bid _ _ ts | .ask _ _ ts => ts

/-- The price a write offers as the opening price: the midpoint of a quote, the
price of a trade. -/
def WriterOp.openingCandidate? (midpoint : UInt64 → UInt64 → UInt64) : WriterOp → Option UInt64
  | .quote bp _ ap _ _ => some (midpoint bp ap)
  | .trade p _ _ => some p
  | _ => none

section Laws

variable (midpoint : UInt64 → UInt64 → UInt64)

/-! ### One write, field by field -/

theorem WriterOp.apply_bidSide (op : WriterOp) (st : MarketState) :
    ((op.apply midpoint st).bestBid, (op.apply midpoint st).bidQuantity) =
      op.bidSide?.getD (st.bestBid, st.bidQuantity) := by
  cases op <;> simp only [WriterOp.apply, MarketState.quote, MarketState.trade, MarketState.bid,
    MarketState.ask, WriterOp.bidSide?, Option.getD] <;> split_ifs <;> rfl

theorem WriterOp.apply_askSide (op : WriterOp) (st : MarketState) :
    ((op.apply midpoint st).bestAsk, (op.apply midpoint st).askQuantity) =
      op.askSide?.getD (st.bestAsk, st.askQuantity) := by
  cases op <;> simp only [WriterOp.apply, MarketState.quote, MarketState.trade, MarketState.bid,
    MarketState.ask, WriterOp.askSide?, Option.getD] <;> split_ifs <;> rfl

theorem WriterOp.apply_traded (op : WriterOp) (st : MarketState) :
    ((op.apply midpoint st).lastTradedPrice, (op.apply midpoint st).lastTradedQuantity) =
      op.traded?.getD (st.lastTradedPrice, st.lastTradedQuantity) := by
  cases op <;> simp only [WriterOp.apply, MarketState.quote, MarketState.trade, MarketState.bid,
    MarketState.ask, WriterOp.traded?, Option.getD] <;> split_ifs <;> rfl

theorem WriterOp.apply_lastUpdateTime (op : WriterOp) (st : MarketState) :
    (op.apply midpoint st).lastUpdateTime = (some op.timestamp).getD st.lastUpdateTime := by
  cases op <;> simp only [WriterOp.apply, MarketState.quote, MarketState.trade, MarketState.bid,
    MarketState.ask, WriterOp.timestamp, Option.getD] <;> split_ifs <;> rfl

theorem WriterOp.apply_updateCount (op : WriterOp) (st : MarketState) :
    (op.apply midpoint st).updateCount = st.updateCount + 1 := by
  cases op <;> simp only [WriterOp.apply, MarketState.quote, MarketState.trade, MarketState.bid,
    MarketState.ask] <;> split_ifs <;> rfl

/-- The opening price moves only while it compares equal to `0.0`, and then to
the price a quote or a trade offers. -/
theorem WriterOp.apply_openingPrice (op : WriterOp) (st : MarketState) :
    (op.apply midpoint st).openingPrice =
      if isZero st.openingPrice then (op.openingCandidate? midpoint).getD st.openingPrice
      else st.openingPrice := by
  cases op <;> simp only [WriterOp.apply, MarketState.quote, MarketState.trade, MarketState.bid,
    MarketState.ask, WriterOp.openingCandidate?, Option.getD] <;> split_ifs <;> rfl

/-! ### A run of writes -/

/-- **The last write wins.** A field that each write either sets to `f op` or
leaves alone ends at the value of the last write that sets it. -/
theorem foldl_apply_lastOf {β : Type} (proj : MarketState → β) (f : WriterOp → Option β)
    (hf : ∀ op st, proj (op.apply midpoint st) = (f op).getD (proj st)) (ops : List WriterOp)
    (st : MarketState) :
    proj (ops.foldl (fun st op => op.apply midpoint st) st) = lastOf f ops (proj st) := by
  induction ops generalizing st with
  | nil => rfl
  | cons op ops ih =>
    rw [List.foldl_cons, ih, hf, lastOf, lastOf, List.filterMap_cons]
    cases f op <;> simp [List.getLast?_cons]

theorem foldl_apply_updateCount (ops : List WriterOp) (st : MarketState) :
    (ops.foldl (fun st op => op.apply midpoint st) st).updateCount =
      st.updateCount + UInt64.ofNat ops.length := by
  induction ops generalizing st with
  | nil => exact (uint64_add_ofNat_zero _).symm
  | cons op ops ih =>
    rw [List.foldl_cons, ih, WriterOp.apply_updateCount, List.length_cons, ← uint64_ofNat_succ,
      add_assoc, add_comm 1]

/-- Once the opening price is not `±0.0`, no write changes it. -/
theorem foldl_apply_openingPrice_set (ops : List WriterOp) (st : MarketState)
    (h : isZero st.openingPrice = false) :
    (ops.foldl (fun st op => op.apply midpoint st) st).openingPrice = st.openingPrice := by
  induction ops generalizing st with
  | nil => rfl
  | cons op ops ih =>
    have hop : (op.apply midpoint st).openingPrice = st.openingPrice := by
      rw [WriterOp.apply_openingPrice, h, if_neg Bool.false_ne_true]
    rw [List.foldl_cons, ih _ (hop ▸ h), hop]

/-- From an unset opening price, a run of writes sets it to the first offered
price that is not `±0.0`, and with no such offer leaves it comparing equal to `0.0`. -/
theorem foldl_apply_openingPrice_unset (ops : List WriterOp) (st : MarketState)
    (h : isZero st.openingPrice = true) :
    ((ops.filterMap (WriterOp.openingCandidate? midpoint)).find? (fun x => !isZero x)).elim
      (isZero (ops.foldl (fun st op => op.apply midpoint st) st).openingPrice = true)
      ((ops.foldl (fun st op => op.apply midpoint st) st).openingPrice = ·) := by
  induction ops generalizing st with
  | nil => exact h
  | cons op ops ih =>
    have hop := WriterOp.apply_openingPrice midpoint op st
    rw [h, if_pos rfl] at hop
    rw [List.filterMap_cons, List.foldl_cons]
    cases hc : op.openingCandidate? midpoint with
    | none =>
      rw [hc] at hop
      exact ih _ (hop ▸ h)
    | some x =>
      rw [hc] at hop
      cases hx : isZero x
      · rw [List.find?_cons, hx, foldl_apply_openingPrice_set _ _ _ (hop ▸ hx)]
        exact hop
      · rw [List.find?_cons, hx]
        exact ih _ (hop ▸ hx)

/-! ### The cache refines the record of writes -/

/-- The entry the writes `ops` leave from a reset entry: the sequence moved on
by two per write, the state folded from the zero state. -/
def SymbolEntry.ofWrites (ops : List WriterOp) : SymbolEntry :=
  ⟨UInt64.ofNat (2 * ops.length), ops.foldl (fun st op => op.apply midpoint st) {}⟩

/-- Each entry of the cache is the one its symbol's writes leave. -/
def Reflects (c : SymbolCache) (w : Nat → List WriterOp) : Prop :=
  ∀ s : UInt16, c.entry s = SymbolEntry.ofWrites midpoint (w s.toNat)

theorem SymbolCache.write_eq_update (c : SymbolCache) (sid : UInt16) (op : WriterOp) :
    c.write midpoint sid op = c.update sid (op.apply midpoint) := by
  cases op <;> rfl

@[simp] theorem SymbolCache.call_numSymbols (c : SymbolCache) (x : CacheCall) :
    (c.call midpoint x).numSymbols = c.numSymbols := by
  cases x
  · rw [call, write_eq_update, update_numSymbols]
  · rfl

@[simp] theorem SymbolCache.runCalls_numSymbols (c : SymbolCache) (calls : List CacheCall) :
    (c.runCalls midpoint calls).numSymbols = c.numSymbols := by
  induction calls generalizing c with
  | nil => rfl
  | cons x xs ih => rw [runCalls, List.foldl_cons, ← runCalls, ih, call_numSymbols]

theorem SymbolEntry.ofWrites_snoc (ops : List WriterOp) (op : WriterOp) :
    SymbolEntry.ofWrites midpoint (ops ++ [op]) =
      ⟨(SymbolEntry.ofWrites midpoint ops).sequence + 2,
        op.apply midpoint (SymbolEntry.ofWrites midpoint ops).state⟩ := by
  simp only [ofWrites, List.length_append, List.length_singleton, List.foldl_append,
    List.foldl_cons, List.foldl_nil, Nat.mul_succ, uint64_ofNat_add]
  rfl

/-- **One call keeps the refinement.** -/
theorem Reflects.call {c : SymbolCache} {w : Nat → List WriterOp} (h : Reflects midpoint c w)
    (x : CacheCall) : Reflects midpoint (c.call midpoint x) (recordCall c.numSymbols w x) := by
  intro s
  cases x with
  | reset => rfl
  | write sid op =>
    rw [SymbolCache.call, SymbolCache.write_eq_update, SymbolCache.entry_update, recordCall]
    by_cases hs : s = sid ∧ sid.toNat < c.numSymbols
    · rw [if_pos hs, if_pos hs.2, hs.1, Function.update_same, SymbolEntry.ofWrites_snoc, ← h sid]
    · rw [if_neg hs, h s]
      split_ifs with hr
      · rw [Function.update_noteq fun e => hs ⟨UInt16.toNat.inj e, hr⟩]
      · rfl

/-- **Every run keeps the refinement.** -/
theorem Reflects.run {c : SymbolCache} {w : Nat → List WriterOp} (h : Reflects midpoint c w)
    (calls : List CacheCall) :
    Reflects midpoint (c.runCalls midpoint calls) (calls.foldl (recordCall c.numSymbols) w) := by
  induction calls generalizing c w with
  | nil => exact h
  | cons x xs ih =>
    have := ih (h.call midpoint x)
    rwa [SymbolCache.call_numSymbols] at this

theorem reflects_new (n : Nat) : Reflects midpoint (SymbolCache.new n) fun _ => [] :=
  fun _ => rfl

theorem reflects_runCalls_new (n : Nat) (calls : List CacheCall) :
    Reflects midpoint ((SymbolCache.new n).runCalls midpoint calls)
      (writesSinceReset (min n maxSymbols) calls) :=
  (reflects_new midpoint n).run midpoint calls

/-- A snapshot in range reads the state its writes since the last reset fold to. -/
theorem getSnapshot_runCalls_new (n : Nat) (calls : List CacheCall) {s : UInt16}
    (hs : s.toNat < min n maxSymbols) :
    ((SymbolCache.new n).runCalls midpoint calls).getSnapshot s =
      (SymbolEntry.ofWrites midpoint (writesSinceReset (min n maxSymbols) calls s.toNat)).state := by
  have hn : ((SymbolCache.new n).runCalls midpoint calls).numSymbols = min n maxSymbols :=
    SymbolCache.runCalls_numSymbols midpoint _ _
  rw [SymbolCache.getSnapshot, if_neg (by omega), reflects_runCalls_new midpoint n calls s]

/-! ### The total -/

theorem recordCall_length (n : Nat) (w : Nat → List WriterOp) (sid : UInt16) (op : WriterOp)
    (i : Nat) :
    (recordCall n w (.write sid op) i).length =
      (w i).length + if sid.toNat < n ∧ sid.toNat = i then 1 else 0 := by
  unfold recordCall
  by_cases hr : sid.toNat < n
  · by_cases hi : sid.toNat = i
    · subst hi
      simp [hr]
    · simp [hr, hi, Function.update_noteq (Ne.symm hi)]
  · simp [hr]

/-- The record of writes counts every update in range since the last reset. -/
theorem sum_writesSinceReset (n : Nat) (calls : List CacheCall) :
    ((List.range n).map fun i => (writesSinceReset n calls i).length).sum =
      updatesSinceReset n calls := by
  suffices ∀ w k, ((List.range n).map fun i => (w i).length).sum = k →
      ((List.range n).map fun i => (calls.foldl (recordCall n) w i).length).sum =
        calls.foldl (fun k call => match call with
          | .write sid _ => if sid.toNat < n then k + 1 else k
          | .reset => 0) k from this _ 0 (by simp)
  induction calls with
  | nil => exact fun _ _ h => h
  | cons x xs ih =>
    intro w k h
    refine ih _ _ ?_
    cases x with
    | reset => simp [recordCall]
    | write sid op =>
      simp only [recordCall_length, List.sum_map_add, h, sum_range_indicator, and_self]
      split_ifs <;> rfl

theorem Reflects.getTotalUpdates {c : SymbolCache} {w : Nat → List WriterOp}
    (h : Reflects midpoint c w) :
    c.getTotalUpdates = UInt64.ofNat ((List.range c.numSymbols).map fun i => (w i).length).sum := by
  have hc : ∀ i ∈ List.range c.numSymbols,
      (c.getSnapshot (UInt16.ofNat i)).updateCount = UInt64.ofNat (w i).length := by
    intro i hi
    have hi := List.mem_range.mp hi
    have hlt : i < UInt16.size := lt_of_lt_of_le hi (c.numSymbols_le.trans (by decide))
    have hoi : (UInt16.ofNat i).toNat = i := UInt16.toNat_ofNat_of_lt hlt
    rw [SymbolCache.getSnapshot, if_neg (by omega), h, hoi, SymbolEntry.ofWrites,
      foldl_apply_updateCount]
    exact UInt64.ext (by simp [uint64_toNat_ofNat])
  rw [SymbolCache.getTotalUpdates, List.foldl_ext _ (fun total i => total + UInt64.ofNat (w i).length)
    _ fun a i hi => by rw [hc i hi]]
  exact (foldl_add_ofNat (fun i => (w i).length) 0 _).trans (by rw [Nat.zero_add])

/-! ### What a snapshot reads -/

/-- **The cache is the fold of its updates.** After any run of the four
updates and resets from construction, each symbol `s` in range reads as its
writes since the last reset say: the bid side of the last quote or
`update_bid`, the ask side of the last quote or `update_ask`, the last trade,
the timestamp of the last write, as many updates as writes and a sequence of
twice that. An update out of range changes nothing, a snapshot out of range is
the zero state, and `get_total_updates()` counts the updates in range since the
last reset. -/
theorem cache_is_fold_of_updates (n : Nat) (calls : List CacheCall) :
    (∀ s : UInt16, s.toNat < min n maxSymbols →
      (((SymbolCache.new n).runCalls midpoint calls).getSnapshot s).bestBid =
          (lastOf WriterOp.bidSide? (writesSinceReset (min n maxSymbols) calls s.toNat) (0, 0)).1 ∧
        (((SymbolCache.new n).runCalls midpoint calls).getSnapshot s).bidQuantity =
          (lastOf WriterOp.bidSide? (writesSinceReset (min n maxSymbols) calls s.toNat) (0, 0)).2 ∧
        (((SymbolCache.new n).runCalls midpoint calls).getSnapshot s).bestAsk =
          (lastOf WriterOp.askSide? (writesSinceReset (min n maxSymbols) calls s.toNat) (0, 0)).1 ∧
        (((SymbolCache.new n).runCalls midpoint calls).getSnapshot s).askQuantity =
          (lastOf WriterOp.askSide? (writesSinceReset (min n maxSymbols) calls s.toNat) (0, 0)).2 ∧
        (((SymbolCache.new n).runCalls midpoint calls).getSnapshot s).lastTradedPrice =
          (lastOf WriterOp.traded? (writesSinceReset (min n maxSymbols) calls s.toNat) (0, 0)).1 ∧
        (((SymbolCache.new n).runCalls midpoint calls).getSnapshot s).lastTradedQuantity =
          (lastOf WriterOp.traded? (writesSinceReset (min n maxSymbols) calls s.toNat) (0, 0)).2 ∧
        (((SymbolCache.new n).runCalls midpoint calls).getSnapshot s).lastUpdateTime =
          lastOf (fun op => some op.timestamp) (writesSinceReset (min n maxSymbols) calls s.toNat) 0 ∧
        (((SymbolCache.new n).runCalls midpoint calls).getSnapshot s).updateCount =
          UInt64.ofNat (writesSinceReset (min n maxSymbols) calls s.toNat).length ∧
        (((SymbolCache.new n).runCalls midpoint calls).entry s).sequence =
          UInt64.ofNat (2 * (writesSinceReset (min n maxSymbols) calls s.toNat).length)) ∧
      (∀ (c : SymbolCache) (sid : UInt16) (op : WriterOp), c.numSymbols ≤ sid.toNat →
        c.call midpoint (.write sid op) = c) ∧
      (∀ s : UInt16, min n maxSymbols ≤ s.toNat →
        ((SymbolCache.new n).runCalls midpoint calls).getSnapshot s = {}) ∧
      ((SymbolCache.new n).runCalls midpoint calls).getTotalUpdates =
        UInt64.ofNat (updatesSinceReset (min n maxSymbols) calls) := by
  have h := reflects_runCalls_new midpoint n calls
  have hn : ((SymbolCache.new n).runCalls midpoint calls).numSymbols = min n maxSymbols :=
    SymbolCache.runCalls_numSymbols midpoint _ _
  refine ⟨fun s hs => ?_, fun c sid op hr => ?_, fun s hs => ?_, ?_⟩
  · have hb := foldl_apply_lastOf midpoint (fun st => (st.bestBid, st.bidQuantity))
      WriterOp.bidSide? (WriterOp.apply_bidSide midpoint)
      (writesSinceReset (min n maxSymbols) calls s.toNat) {}
    have ha := foldl_apply_lastOf midpoint (fun st => (st.bestAsk, st.askQuantity))
      WriterOp.askSide? (WriterOp.apply_askSide midpoint)
      (writesSinceReset (min n maxSymbols) calls s.toNat) {}
    have ht := foldl_apply_lastOf midpoint (fun st => (st.lastTradedPrice, st.lastTradedQuantity))
      WriterOp.traded? (WriterOp.apply_traded midpoint)
      (writesSinceReset (min n maxSymbols) calls s.toNat) {}
    have hu := foldl_apply_lastOf midpoint MarketState.lastUpdateTime (fun op => some op.timestamp)
      (WriterOp.apply_lastUpdateTime midpoint)
      (writesSinceReset (min n maxSymbols) calls s.toNat) {}
    rw [getSnapshot_runCalls_new midpoint n calls hs, SymbolEntry.ofWrites, ← hb, ← ha, ← ht, ← hu,
      foldl_apply_updateCount, h s]
    exact ⟨rfl, rfl, rfl, rfl, rfl, rfl, rfl, UInt64.ext (by simp [uint64_toNat_ofNat]), rfl⟩
  · rw [SymbolCache.call, SymbolCache.write_eq_update, SymbolCache.update, if_pos hr]
  · rw [SymbolCache.getSnapshot, if_pos (hn ▸ hs)]
  · rw [h.getTotalUpdates, hn, sum_writesSinceReset]

/-! ### The opening price -/

theorem SymbolCache.getSnapshot_update_any (c : SymbolCache) (sid s : UInt16)
    (f : MarketState → MarketState) :
    (c.update sid f).getSnapshot s =
      if s = sid ∧ sid.toNat < c.numSymbols then f (c.getSnapshot s) else c.getSnapshot s := by
  by_cases h : s = sid ∧ sid.toNat < c.numSymbols
  · obtain ⟨rfl, hs⟩ := h
    rw [getSnapshot_update, if_pos hs, if_pos ⟨rfl, hs⟩]
  · simp only [getSnapshot, update_numSymbols, entry_update, h, if_false]

theorem SymbolCache.runCalls_append (c : SymbolCache) (a b : List CacheCall) :
    c.runCalls midpoint (a ++ b) = (c.runCalls midpoint a).runCalls midpoint b :=
  List.foldl_append _ _ _ _

/-- An opening price that is not `±0.0` survives every update. -/
theorem SymbolCache.call_openingPrice_set (c : SymbolCache) {x : CacheCall} (hx : x ≠ .reset)
    (s : UInt16) (h : isZero (c.getSnapshot s).openingPrice = false) :
    ((c.call midpoint x).getSnapshot s).openingPrice = (c.getSnapshot s).openingPrice := by
  cases x with
  | reset => exact absurd rfl hx
  | write sid op =>
    rw [call, write_eq_update, getSnapshot_update_any]
    split_ifs
    · rw [WriterOp.apply_openingPrice, h, if_neg Bool.false_ne_true]
    · rfl

theorem SymbolCache.runCalls_openingPrice_set (c : SymbolCache) (more : List CacheCall)
    (hmore : ∀ x ∈ more, x ≠ .reset) (s : UInt16) (h : isZero (c.getSnapshot s).openingPrice = false) :
    ((c.runCalls midpoint more).getSnapshot s).openingPrice = (c.getSnapshot s).openingPrice := by
  induction more generalizing c with
  | nil => rfl
  | cons x xs ih =>
    have hx := c.call_openingPrice_set midpoint (hmore x (List.mem_cons_self _ _)) s h
    rw [runCalls, List.foldl_cons, ← runCalls, ih _ (fun y hy => hmore y (List.mem_cons_of_mem _ hy))
      (hx ▸ h), hx]

/-- **The opening price is the first price offered that is not `±0.0`.** Among
the writes on a symbol in range since the last reset, only quotes (with their
midpoint) and trades (with their price) offer an opening price. The opening
price is the first offer that is not `±0.0`; with no such offer it still
compares equal to `0.0`; and once it is set, no update before the next reset
changes it. -/
theorem opening_price_first_offer (n : Nat) (calls : List CacheCall) :
    (∀ (s : UInt16) (v : UInt64), s.toNat < min n maxSymbols →
      ((writesSinceReset (min n maxSymbols) calls s.toNat).filterMap
          (WriterOp.openingCandidate? midpoint)).find? (fun x => !isZero x) = some v →
      (((SymbolCache.new n).runCalls midpoint calls).getSnapshot s).openingPrice = v) ∧
    (∀ s : UInt16, s.toNat < min n maxSymbols →
      ((writesSinceReset (min n maxSymbols) calls s.toNat).filterMap
          (WriterOp.openingCandidate? midpoint)).find? (fun x => !isZero x) = none →
      isZero (((SymbolCache.new n).runCalls midpoint calls).getSnapshot s).openingPrice = true) ∧
    (∀ (s : UInt16) (more : List CacheCall), (∀ x ∈ more, x ≠ .reset) →
      isZero (((SymbolCache.new n).runCalls midpoint calls).getSnapshot s).openingPrice = false →
      (((SymbolCache.new n).runCalls midpoint (calls ++ more)).getSnapshot s).openingPrice =
        (((SymbolCache.new n).runCalls midpoint calls).getSnapshot s).openingPrice) := by
  refine ⟨fun s v hs hv => ?_, fun s hs hv => ?_, fun s more hmore hset => ?_⟩
  · have hfold := foldl_apply_openingPrice_unset midpoint
      (writesSinceReset (min n maxSymbols) calls s.toNat) {} rfl
    rw [hv] at hfold
    rwa [getSnapshot_runCalls_new midpoint n calls hs]
  · have hfold := foldl_apply_openingPrice_unset midpoint
      (writesSinceReset (min n maxSymbols) calls s.toNat) {} rfl
    rw [hv] at hfold
    rwa [getSnapshot_runCalls_new midpoint n calls hs]
  · rw [SymbolCache.runCalls_append]
    exact SymbolCache.runCalls_openingPrice_set midpoint _ more hmore s hset

end Laws

/-- A bid of `5.0`, then a trade at `10.0`, on the one symbol of a cache. -/
def bidThenTrade : List CacheCall :=
  [.write 0 (.bid 0x4014000000000000 10 1), .write 0 (.trade 0x4024000000000000 5 2)]

/-- **`update_bid` does not set the opening price.** After a bid of `5.0` and
then a trade at `10.0`, the opening price is the trade's `10.0`, not the price
of the first update. -/
theorem opening_price_not_first_call :
    (((SymbolCache.new 1).runCalls (fun _ _ => 0) bidThenTrade).getSnapshot 0).openingPrice =
      0x4024000000000000 :=
  (opening_price_first_offer (fun _ _ => 0) 1 bidThenTrade).1 0 _ (by decide) (by decide)

end MarketFeed.Cache
