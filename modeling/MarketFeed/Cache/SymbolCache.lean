import MarketFeed.Protocol.Wire

/-!
# The symbol cache, one call at a time

`SymbolCache` keeps one `MarketState` per symbol behind a sequence counter that
`begin_write` makes odd and `end_write` makes even again. Here every call runs
without interruption, as the single writer sees it; the interleavings of the
writer with readers are in `MarketFeed.Cache.Seqlock`.

Doubles are kept as their IEEE-754 bit patterns, the bits the wire carries. The
cache performs one floating-point operation, the opening midpoint
`(bid_price + ask_price) / 2.0`; it is the parameter `midpoint`, and every
result holds for every choice of it.
-/

namespace MarketFeed.Cache

open MarketFeed.Protocol

/-- `MarketState`: prices are the bits of a `double`, all fields start at zero. -/
structure MarketState where
  bestBid : UInt64 := 0
  bestAsk : UInt64 := 0
  bidQuantity : UInt32 := 0
  askQuantity : UInt32 := 0
  lastTradedPrice : UInt64 := 0
  lastTradedQuantity : UInt32 := 0
  lastUpdateTime : UInt64 := 0
  updateCount : UInt64 := 0
  openingPrice : UInt64 := 0
  deriving DecidableEq, Repr

/-- `x == 0.0` for the double with bits `x`: true for `+0.0` and `-0.0` only. -/
def isZero (x : UInt64) : Bool := x &&& 0x7FFFFFFFFFFFFFFF == 0

/-- `SymbolEntry`: the seqlock counter and the state it guards. -/
structure SymbolEntry where
  sequence : UInt64 := 0
  state : MarketState := {}
  deriving DecidableEq, Repr

/-- The cache. `entries_` has `MAX_SYMBOLS` slots; only ids below `num_symbols_`
are ever touched. -/
structure SymbolCache where
  numSymbols : Nat
  entries : Nat → SymbolEntry
  numSymbols_le : numSymbols ≤ maxSymbols

/-- The constructor: `num_symbols_ = min(num_symbols, MAX_SYMBOLS)`, then `reset()`. -/
def SymbolCache.new (n : Nat) : SymbolCache :=
  ⟨min n maxSymbols, fun _ => {}, Nat.min_le_right _ _⟩

/-- `reset()`: every entry back to sequence 0 and a zero state. -/
def SymbolCache.reset (c : SymbolCache) : SymbolCache := { c with entries := fun _ => {} }

/-- `entries_[symbol_id]`. -/
def SymbolCache.entry (c : SymbolCache) (sid : UInt16) : SymbolEntry := c.entries sid.toNat

/-- Rewrite one entry and leave the others alone. -/
def SymbolCache.modifyEntry (c : SymbolCache) (sid : UInt16) (f : SymbolEntry → SymbolEntry) :
    SymbolCache :=
  { c with entries := Function.update c.entries sid.toNat (f (c.entry sid)) }

/-- The body `begin_write` and `end_write` share: past the id check, load the
sequence and store it plus one. -/
def SymbolCache.bumpSequence (c : SymbolCache) (sid : UInt16) : SymbolCache :=
  if c.numSymbols ≤ sid.toNat then c
  else c.modifyEntry sid fun e => { e with sequence := e.sequence + 1 }

/-- `begin_write`: the sequence becomes odd. -/
def SymbolCache.beginWrite (c : SymbolCache) (sid : UInt16) : SymbolCache := c.bumpSequence sid

/-- `end_write`: the sequence becomes even again. -/
def SymbolCache.endWrite (c : SymbolCache) (sid : UInt16) : SymbolCache := c.bumpSequence sid

/-- The shape of the four writers: check the id, `begin_write`, change the state,
`end_write`. -/
def SymbolCache.update (c : SymbolCache) (sid : UInt16) (f : MarketState → MarketState) :
    SymbolCache :=
  if c.numSymbols ≤ sid.toNat then c
  else ((c.beginWrite sid).modifyEntry sid fun e => { e with state := f e.state }).endWrite sid

section Writers

variable (midpoint : UInt64 → UInt64 → UInt64)

/-- The state change of `update_quote`; the opening price is set on the first update. -/
def MarketState.quote (st : MarketState) (bidPrice : UInt64) (bidQty : UInt32) (askPrice : UInt64)
    (askQty : UInt32) (timestamp : UInt64) : MarketState :=
  let st' := { st with bestBid := bidPrice, bidQuantity := bidQty, bestAsk := askPrice,
                       askQuantity := askQty, lastUpdateTime := timestamp,
                       updateCount := st.updateCount + 1 }
  if isZero st.openingPrice then { st' with openingPrice := midpoint bidPrice askPrice } else st'

/-- The state change of `update_trade`; the opening price is set on the first trade. -/
def MarketState.trade (st : MarketState) (price : UInt64) (quantity : UInt32) (timestamp : UInt64) :
    MarketState :=
  let st' := { st with lastTradedPrice := price, lastTradedQuantity := quantity,
                       lastUpdateTime := timestamp, updateCount := st.updateCount + 1 }
  if isZero st.openingPrice then { st' with openingPrice := price } else st'

/-- The state change of `update_bid`. -/
def MarketState.bid (st : MarketState) (price : UInt64) (quantity : UInt32) (timestamp : UInt64) :
    MarketState :=
  { st with bestBid := price, bidQuantity := quantity, lastUpdateTime := timestamp,
            updateCount := st.updateCount + 1 }

/-- The state change of `update_ask`. -/
def MarketState.ask (st : MarketState) (price : UInt64) (quantity : UInt32) (timestamp : UInt64) :
    MarketState :=
  { st with bestAsk := price, askQuantity := quantity, lastUpdateTime := timestamp,
            updateCount := st.updateCount + 1 }

/-- `update_quote`. -/
def SymbolCache.updateQuote (c : SymbolCache) (sid : UInt16) (bidPrice : UInt64) (bidQty : UInt32)
    (askPrice : UInt64) (askQty : UInt32) (timestamp : UInt64) : SymbolCache :=
  c.update sid fun st => st.quote midpoint bidPrice bidQty askPrice askQty timestamp

end Writers

/-- `update_trade`. -/
def SymbolCache.updateTrade (c : SymbolCache) (sid : UInt16) (price : UInt64) (quantity : UInt32)
    (timestamp : UInt64) : SymbolCache :=
  c.update sid fun st => st.trade price quantity timestamp

/-- `update_bid`. -/
def SymbolCache.updateBid (c : SymbolCache) (sid : UInt16) (price : UInt64) (quantity : UInt32)
    (timestamp : UInt64) : SymbolCache :=
  c.update sid fun st => st.bid price quantity timestamp

/-- `update_ask`. -/
def SymbolCache.updateAsk (c : SymbolCache) (sid : UInt16) (price : UInt64) (quantity : UInt32)
    (timestamp : UInt64) : SymbolCache :=
  c.update sid fun st => st.ask price quantity timestamp

/-- `get_snapshot` with no writer running: the state, or a zero state for an id
out of range. -/
def SymbolCache.getSnapshot (c : SymbolCache) (sid : UInt16) : MarketState :=
  if c.numSymbols ≤ sid.toNat then {} else (c.entry sid).state

/-! ### What one update does -/

@[simp] theorem SymbolCache.modifyEntry_numSymbols (c : SymbolCache) (sid : UInt16) (f) :
    (c.modifyEntry sid f).numSymbols = c.numSymbols := rfl

@[simp] theorem SymbolCache.bumpSequence_numSymbols (c : SymbolCache) (sid : UInt16) :
    (c.bumpSequence sid).numSymbols = c.numSymbols := by
  unfold bumpSequence; split_ifs <;> rfl

theorem SymbolCache.entry_modifyEntry (c : SymbolCache) (sid sid' : UInt16) (f) :
    (c.modifyEntry sid f).entry sid' = if sid' = sid then f (c.entry sid) else c.entry sid' := by
  simp only [entry, modifyEntry, Function.update_apply, ← UInt16.ext_iff]

/-- **One update.** In range, the entry's sequence moves on by two and its state
by `f`; every other entry, and anything out of range, is left alone. -/
theorem SymbolCache.entry_update (c : SymbolCache) (sid sid' : UInt16) (f) :
    (c.update sid f).entry sid' =
      if sid' = sid ∧ sid.toNat < c.numSymbols then
        { sequence := (c.entry sid).sequence + 2, state := f (c.entry sid).state }
      else c.entry sid' := by
  unfold update
  by_cases hr : c.numSymbols ≤ sid.toNat
  · simp [hr, Nat.not_lt.mpr hr]
  · have hlt : sid.toNat < c.numSymbols := by omega
    simp only [hr, if_false, endWrite, beginWrite, bumpSequence, modifyEntry_numSymbols,
      bumpSequence_numSymbols, entry_modifyEntry]
    by_cases hs : sid' = sid <;> simp [hs, hlt, add_assoc]

@[simp] theorem SymbolCache.update_numSymbols (c : SymbolCache) (sid : UInt16) (f) :
    (c.update sid f).numSymbols = c.numSymbols := by
  unfold update; split_ifs <;> simp [endWrite, beginWrite]

/-- The snapshot after an update with no reader racing: the new state in range. -/
theorem SymbolCache.getSnapshot_update (c : SymbolCache) (sid : UInt16) (f) :
    (c.update sid f).getSnapshot sid =
      if sid.toNat < c.numSymbols then f (c.getSnapshot sid) else {} := by
  simp only [getSnapshot, update_numSymbols, entry_update, true_and]
  split_ifs <;> first | rfl | omega

end MarketFeed.Cache
