import MarketFeed.Client.RoundTrip
import MarketFeed.Cache.SymbolCache
import MarketFeed.Stats.LatencyTracker

/-!
# The feed handler: from receives to the symbol cache

`FeedHandler::process_data` drains the socket: each receive goes to
`append_data`, then `parse_messages` runs the callbacks, and `on_trade` and
`on_quote` record a latency sample and update the cache. The callbacks run
inside `parse_messages` and touch neither the parser nor each other's data, so
they are applied here, in order, to the list `parse_messages` returns.

The clock is the parameter `clock`: `clock n` is what
`high_resolution_clock::now()` reads, in nanoseconds, the `n`-th time the
handler reads it. The result on the cache holds for every clock and every
`midpoint`.
-/

namespace MarketFeed.Client

open MarketFeed.Protocol MarketFeed.Cache MarketFeed.Stats

/-- The handler's state that `process_data` and the callbacks touch;
`clockReads` counts the clock readings so far. -/
structure FeedHandler where
  parser : MessageParser
  cache : SymbolCache
  latencyTracker : LatencyTracker
  messagesReceived : UInt64
  bytesReceived : UInt64
  clockReads : Nat

section Handler

variable (clock : Nat → UInt64) (midpoint : UInt64 → UInt64 → UInt64)

/-- The body `on_trade` and `on_quote` share: read the clock, record
`now - timestamp_ns` when the clock is past the timestamp, then update the cache. -/
def FeedHandler.onUpdate (h : FeedHandler) (header : MessageHeader)
    (update : SymbolCache → SymbolCache) : FeedHandler :=
  let nowNs := clock h.clockReads
  { h with
    clockReads := h.clockReads + 1
    latencyTracker :=
      if header.timestampNs < nowNs then h.latencyTracker.record (nowNs - header.timestampNs)
      else h.latencyTracker
    cache := update h.cache }

/-- `on_trade`. -/
def FeedHandler.onTrade (h : FeedHandler) (header : MessageHeader) (payload : TradePayload) :
    FeedHandler :=
  h.onUpdate clock header fun c =>
    c.updateTrade header.symbolId payload.price payload.quantity header.timestampNs

/-- `on_quote`. -/
def FeedHandler.onQuote (h : FeedHandler) (header : MessageHeader) (payload : QuotePayload) :
    FeedHandler :=
  h.onUpdate clock header fun c =>
    c.updateQuote midpoint header.symbolId payload.bidPrice payload.bidQuantity payload.askPrice
      payload.askQuantity header.timestampNs

/-- The callback the parser invokes: `on_heartbeat` and `on_sequence_gap` only
log, and change nothing here. -/
def FeedHandler.onCallback (h : FeedHandler) : Callback → FeedHandler
  | .trade header payload => h.onTrade clock header payload
  | .quote header payload => h.onQuote clock midpoint header payload
  | .heartbeat _ => h
  | .gap _ _ => h

/-- One receive of `n > 0` bytes: `append_data`, `bytes_received_ += n`,
`parse_messages` with its callbacks, `messages_received_ += parsed`. -/
def FeedHandler.receive (h : FeedHandler) (chunk : List UInt8) : FeedHandler :=
  let p := (appendData h.parser chunk).1
  let m := parseMessages p
  let h' := m.2.2.foldl (FeedHandler.onCallback clock midpoint) h
  { h' with
    parser := m.1
    bytesReceived := h.bytesReceived + .ofNat chunk.length
    messagesReceived := h.messagesReceived + .ofNat m.2.1 }

/-- `process_data`: the receives that return data before one returns `0` or an
error, each handled in turn. -/
def FeedHandler.processData (h : FeedHandler) : List (List UInt8) → FeedHandler
  | [] => h
  | c :: cs => (h.receive clock midpoint c).processData cs

/-- What a callback does to the cache. -/
def applyCallback (c : SymbolCache) : Callback → SymbolCache
  | .trade header p => c.updateTrade header.symbolId p.price p.quantity header.timestampNs
  | .quote header p =>
    c.updateQuote midpoint header.symbolId p.bidPrice p.bidQuantity p.askPrice p.askQuantity
      header.timestampNs
  | .heartbeat _ => c
  | .gap _ _ => c

/-- What a frame should do to the cache: `update_quote` with the quote's fields
for a quote, `update_trade` with the trade's for a trade, nothing for a heartbeat. -/
def applyFrame (c : SymbolCache) (f : Frame) : SymbolCache :=
  match f.payload with
  | .trade p => c.updateTrade f.symbolId p.price p.quantity f.timestampNs
  | .quote p =>
    c.updateQuote midpoint f.symbolId p.bidPrice p.bidQuantity p.askPrice p.askQuantity
      f.timestampNs
  | .heartbeat => c

/-! ### The cache sees the callbacks, in order -/

theorem onCallback_cache (h : FeedHandler) (cb : Callback) :
    (h.onCallback clock midpoint cb).cache = applyCallback midpoint h.cache cb := by
  cases cb <;> rfl

theorem foldl_onCallback_cache (h : FeedHandler) (cbs : List Callback) :
    (cbs.foldl (FeedHandler.onCallback clock midpoint) h).cache =
      cbs.foldl (applyCallback midpoint) h.cache := by
  induction cbs generalizing h with
  | nil => rfl
  | cons cb cbs ih => simp only [List.foldl_cons, ih, onCallback_cache]

theorem applyCallback_ofFrame (c : SymbolCache) (f : Frame) :
    applyCallback midpoint c (Callback.ofFrame f) = applyFrame midpoint c f := by
  unfold Callback.ofFrame applyFrame
  cases f.payload <;> rfl

/-- `process_data` runs the parser as `feedChunks` does, applies the callbacks
to the cache in order, and adds up the parsed counts. -/
theorem processData_feedChunks (h : FeedHandler) (chunks : List (List UInt8)) :
    (h.processData clock midpoint chunks).parser = (feedChunks h.parser chunks).1 ∧
      (h.processData clock midpoint chunks).cache =
        (feedChunks h.parser chunks).2.2.2.foldl (applyCallback midpoint) h.cache ∧
      (h.processData clock midpoint chunks).messagesReceived =
        h.messagesReceived + .ofNat (feedChunks h.parser chunks).2.2.1.sum := by
  induction chunks generalizing h with
  | nil => simp [FeedHandler.processData, feedChunks]
  | cons c cs ih =>
    obtain ⟨hp, hc, hm⟩ := ih (h.receive clock midpoint c)
    rw [FeedHandler.processData]
    refine ⟨hp, ?_, ?_⟩
    · rw [hc]
      simp only [FeedHandler.receive, foldl_onCallback_cache, feedChunks, List.foldl_append]
    · rw [hm]
      simp only [FeedHandler.receive, feedChunks, List.sum_cons, uint64_ofNat_add, add_assoc]

/-- **From the socket to the cache.** A handler whose parser is fresh receives
consecutive frames in any chunking with at most `RECV_BUFFER_SIZE` bytes per
receive. After `process_data` the cache is what applying each frame once, in
stream order, gives, and `messages_received_` has grown by the number of frames. -/
theorem processData_applies_frames (h : FeedHandler) (hp : h.parser = .init) (frames : List Frame)
    (hseq : frames.Chain' fun f g => g.sequenceNumber = f.sequenceNumber + 1)
    (chunks : List (List UInt8)) (hsplit : chunks.flatten = frames.flatMap Frame.encode)
    (hc : ∀ c ∈ chunks, c.length ≤ recvBufferSize) :
    (h.processData clock midpoint chunks).cache = frames.foldl (applyFrame midpoint) h.cache ∧
      (h.processData clock midpoint chunks).messagesReceived =
        h.messagesReceived + .ofNat frames.length := by
  obtain ⟨-, hcache, hmsg⟩ := processData_feedChunks clock midpoint h chunks
  obtain ⟨hcb, hcount⟩ := feedChunks_encoded frames hseq chunks hsplit hc
  rw [hp] at hcache hmsg
  rw [hcache, hmsg, hcb, hcount, List.foldl_map]
  exact ⟨by simp only [applyCallback_ofFrame], rfl⟩

end Handler

/-- A heartbeat and a trade in one receive, on a fresh handler: the trade lands
in the cache and two messages are counted. -/
theorem processData_applies_heartbeat_trade :
    let h : FeedHandler := ⟨.init, SymbolCache.new maxSymbols, .init, 0, 0, 0⟩
    let frames := [Frame.mk 7 1000000000 42 .heartbeat,
      Frame.mk 8 1000000001 3 (.trade ⟨0x4059100000000000, 1000⟩)]
    h.parser = .init ∧
      frames.Chain' (fun f g => g.sequenceNumber = f.sequenceNumber + 1) ∧
      [frames.flatMap Frame.encode].flatten = frames.flatMap Frame.encode ∧
      (∀ c ∈ [frames.flatMap Frame.encode], c.length ≤ recvBufferSize) ∧
      (h.processData (fun _ => 2000000000) (fun b _ => b) [frames.flatMap Frame.encode]).cache =
          frames.foldl (applyFrame fun b _ => b) h.cache ∧
        (h.processData (fun _ => 2000000000) (fun b _ => b)
            [frames.flatMap Frame.encode]).messagesReceived =
          h.messagesReceived + .ofNat frames.length :=
  ⟨rfl, List.chain'_pair.mpr (by decide), rfl, by decide,
    processData_applies_frames _ _ _ rfl _ (List.chain'_pair.mpr (by decide)) _ rfl (by decide)⟩

end MarketFeed.Client
