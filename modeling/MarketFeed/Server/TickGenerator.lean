import MarketFeed.Protocol.Wire

/-!
# The tick generator

`TickGenerator` numbers every frame it writes from one `uint32_t` counter and
lays the frame out as the wire format has it: header, payload, checksum. The
simulated market behind the payloads (the price walk, the spread, the
trade-or-quote coin, the quantities) and the clock are drawn from the
generator's random engine; here they are one `TickDraw` per tick, and every
result holds for every draw. The one bound the draws obey is the range of
`symbol_dist_`, `[0, static_cast<uint16_t>(num_symbols - 1)]`.
-/

namespace MarketFeed.Server

open MarketFeed.Protocol

/-- What the random engine and the clock give one tick. -/
structure TickDraw where
  symbolId : UInt16
  isTrade : Bool
  trade : TradePayload
  quote : QuotePayload
  timestampNs : UInt64
  deriving DecidableEq, Repr

/-- The generator's state the frames depend on: `num_symbols_` and `sequence_`. -/
structure TickGenerator where
  numSymbols : Nat
  sequence : UInt32
  deriving DecidableEq, Repr

/-- The constructor; `reset()` sets `sequence_` to zero. -/
def TickGenerator.new (numSymbols : Nat) : TickGenerator := ⟨numSymbols, 0⟩

/-- The upper end of `symbol_dist_`: `num_symbols - 1` in `size_t`, cast to
`uint16_t`. For `num_symbols = 0` the subtraction wraps to `SIZE_MAX`, whose low
sixteen bits are `65535`. -/
def TickGenerator.symbolBound (g : TickGenerator) : UInt16 :=
  if g.numSymbols = 0 then 65535 else UInt16.ofNat (g.numSymbols - 1)

/-- A draw `symbol_dist_` can produce. -/
def TickDraw.InRange (g : TickGenerator) (d : TickDraw) : Prop := d.symbolId ≤ g.symbolBound

instance (g : TickGenerator) (d : TickDraw) : Decidable (d.InRange g) :=
  inferInstanceAs (Decidable (d.symbolId ≤ g.symbolBound))

/-- `generate_tick_for_symbol`: the new generator, the bytes written and
`out_size`. An id out of range writes nothing and reports size zero. -/
def TickGenerator.generateTickForSymbol (g : TickGenerator) (sid : UInt16) (d : TickDraw) :
    TickGenerator × List UInt8 × Nat :=
  if g.numSymbols ≤ sid.toNat then (g, [], 0)
  else
    let f : Frame := ⟨g.sequence + 1, d.timestampNs, sid,
      if d.isTrade then .trade d.trade else .quote d.quote⟩
    ({ g with sequence := g.sequence + 1 }, f.encode,
      if d.isTrade then tradeMsgSize else quoteMsgSize)

/-- `generate_tick`: a random symbol, then `generate_tick_for_symbol`. -/
def TickGenerator.generateTick (g : TickGenerator) (d : TickDraw) :
    TickGenerator × List UInt8 × Nat :=
  g.generateTickForSymbol d.symbolId d

/-- `generate_heartbeat`: a numbered heartbeat for symbol 0. -/
def TickGenerator.generateHeartbeat (g : TickGenerator) (timestampNs : UInt64) :
    TickGenerator × List UInt8 × Nat :=
  let f : Frame := ⟨g.sequence + 1, timestampNs, 0, .heartbeat⟩
  ({ g with sequence := g.sequence + 1 }, f.encode, heartbeatMsgSize)

/-! ### What a tick is -/

@[simp] theorem TickGenerator.generateTick_numSymbols (g : TickGenerator) (d : TickDraw) :
    (g.generateTick d).1.numSymbols = g.numSymbols := by
  unfold generateTick generateTickForSymbol; split_ifs <;> rfl

@[simp] theorem TickGenerator.generateHeartbeat_numSymbols (g : TickGenerator) (ts : UInt64) :
    (g.generateHeartbeat ts).1.numSymbols = g.numSymbols := rfl

/-- With at least one symbol every draw is in range: `symbol_dist_` never leaves
`[0, num_symbols)`, also when `num_symbols - 1` does not fit sixteen bits. -/
theorem TickDraw.lt_of_inRange {g : TickGenerator} {d : TickDraw} (hn : 0 < g.numSymbols)
    (hd : d.InRange g) : d.symbolId.toNat < g.numSymbols := by
  have hb : g.symbolBound.toNat ≤ g.numSymbols - 1 := by
    simp only [TickGenerator.symbolBound, if_neg (Nat.pos_iff_ne_zero.mp hn)]
    exact (Nat.mod_le _ _)
  have : d.symbolId.toNat ≤ g.symbolBound.toNat := hd
  omega

/-- **A tick in range.** It is the encoded frame numbered `sequence_ + 1`, a
trade or a quote for the drawn symbol, `out_size` is its length, and the
counter moves on by one. -/
theorem TickGenerator.generateTick_frame (g : TickGenerator) (d : TickDraw)
    (h : d.symbolId.toNat < g.numSymbols) :
    ∃ f : Frame, (g.generateTick d).2.1 = f.encode ∧ (g.generateTick d).2.2 = f.encode.length ∧
      f.sequenceNumber = g.sequence + 1 ∧ f.symbolId = d.symbolId ∧
      (f.payload.kind = .trade ∨ f.payload.kind = .quote) ∧
      (g.generateTick d).1.sequence = g.sequence + 1 := by
  refine ⟨⟨g.sequence + 1, d.timestampNs, d.symbolId,
    if d.isTrade then .trade d.trade else .quote d.quote⟩, ?_⟩
  simp only [generateTick, generateTickForSymbol, if_neg (Nat.not_le.mpr h), Frame.encode_length,
    true_and]
  cases d.isTrade <;> simp [Payload.kind, MessageType.msgSize]

/-- A tick out of range: nothing written, size zero, the counter unchanged. -/
theorem TickGenerator.generateTick_outOfRange (g : TickGenerator) (d : TickDraw)
    (h : g.numSymbols ≤ d.symbolId.toNat) : g.generateTick d = (g, [], 0) := by
  simp [generateTick, generateTickForSymbol, h]

/-- With no symbols every tick is out of range. -/
theorem TickGenerator.generateTick_noSymbols (g : TickGenerator) (d : TickDraw)
    (h : g.numSymbols = 0) : g.generateTick d = (g, [], 0) :=
  g.generateTick_outOfRange d (by omega)

/-- A heartbeat is the encoded frame numbered `sequence_ + 1`. -/
theorem TickGenerator.generateHeartbeat_frame (g : TickGenerator) (ts : UInt64) :
    (g.generateHeartbeat ts).2.1 = (Frame.mk (g.sequence + 1) ts 0 .heartbeat).encode ∧
      (g.generateHeartbeat ts).2.2 = heartbeatMsgSize ∧
      (g.generateHeartbeat ts).1.sequence = g.sequence + 1 := ⟨rfl, rfl, rfl⟩

end MarketFeed.Server
