import MarketFeed.Client.FrameStream
import MarketFeed.Stats.Percentiles

/-!
# The latencies the handler records

`on_trade` and `on_quote` read the clock once each and record
`now - timestamp_ns` when the clock is past the frame's timestamp;
`on_heartbeat` and `on_sequence_gap` read nothing. Over a whole
`process_data`, with frames cut into receives in any way and numbered in any
way, the tracker therefore takes the samples of the trades and quotes in
stream order, one clock reading each, and nothing else (`processData_records_latencies`):
gap callbacks record nothing, and a receive boundary in the middle of a frame
neither loses nor repeats a sample.
-/

namespace MarketFeed.Client

open MarketFeed.Protocol MarketFeed.Cache MarketFeed.Stats

/-- The header of a callback that reads the clock: a trade's or a quote's. -/
def Callback.update? : Callback → Option MessageHeader
  | .trade header _ => some header
  | .quote header _ => some header
  | _ => none

/-- A frame whose callback reads the clock: a trade or a quote. -/
def Frame.readsClock (f : Frame) : Bool := decide (f.payload.kind ≠ .heartbeat)

/-- What `on_trade` and `on_quote` record for the headers `hs`, in turn, the
clock's readings numbered from `k`: `clock n - timestamp_ns` when the `n`-th
reading is past the timestamp, nothing otherwise. -/
def latencySamples (clock : Nat → UInt64) (k : Nat) (hs : List MessageHeader) : List UInt64 :=
  (hs.enumFrom k).filterMap fun p =>
    if p.2.timestampNs < clock p.1 then some (clock p.1 - p.2.timestampNs) else none

theorem latencySamples_append (clock : Nat → UInt64) (k : Nat) (hs hs' : List MessageHeader) :
    latencySamples clock k (hs ++ hs') =
      latencySamples clock k hs ++ latencySamples clock (k + hs.length) hs' := by
  simp only [latencySamples, List.enumFrom_append, List.filterMap_append]

theorem LatencyTracker.recordAll_append (t : LatencyTracker) (xs ys : List UInt64) :
    t.recordAll (xs ++ ys) = (t.recordAll xs).recordAll ys :=
  List.foldl_append _ _ _ _

/-- The trades and quotes among whole frames are the frames' callbacks that read the clock. -/
theorem filterMap_update_ofFrame (frames : List Frame) :
    (frames.map Callback.ofFrame).filterMap Callback.update? =
      (frames.filter Frame.readsClock).map Frame.header := by
  induction frames with
  | nil => rfl
  | cons f fs ih =>
    rw [List.map_cons, List.filterMap_cons, ih, List.filter_cons]
    unfold Callback.ofFrame Frame.readsClock
    rcases f with ⟨_, _, _, _ | _ | _⟩ <;> rfl

/-- Gap callbacks read no clock. -/
theorem filterMap_update_withGaps (prev : Option UInt32) (frames : List Frame) :
    (withGaps prev (frames.map Callback.ofFrame)).filterMap Callback.update? =
      (frames.map Callback.ofFrame).filterMap Callback.update? := by
  induction frames generalizing prev with
  | nil => rfl
  | cons f fs ih =>
    have hg : (gapBefore prev f.sequenceNumber).filterMap Callback.update? = [] := by
      cases prev with
      | none => rfl
      | some q => simp only [gapBefore]; split_ifs <;> rfl
    rw [withGaps_ofFrame_cons, List.filterMap_append, hg, List.nil_append, List.filterMap_cons,
      ih, List.map_cons, List.filterMap_cons]

section Handler

variable (clock : Nat → UInt64) (midpoint : UInt64 → UInt64 → UInt64)

/-- One callback records the sample of its header, if it reads the clock. -/
theorem onCallback_latency (h : FeedHandler) (cb : Callback) :
    (h.onCallback clock midpoint cb).latencyTracker =
        h.latencyTracker.recordAll (latencySamples clock h.clockReads (cb.update?.toList)) ∧
      (h.onCallback clock midpoint cb).clockReads = h.clockReads + cb.update?.toList.length := by
  cases cb with
  | trade header p =>
    simp only [FeedHandler.onCallback, FeedHandler.onTrade, FeedHandler.onUpdate]
    split_ifs <;> simp_all [latencySamples, Callback.update?, LatencyTracker.recordAll]
  | quote header p =>
    simp only [FeedHandler.onCallback, FeedHandler.onQuote, FeedHandler.onUpdate]
    split_ifs <;> simp_all [latencySamples, Callback.update?, LatencyTracker.recordAll]
  | heartbeat header => exact ⟨rfl, rfl⟩
  | gap e r => exact ⟨rfl, rfl⟩

/-- The callbacks of a run, applied in turn, record the samples of their
headers with consecutive clock readings. -/
theorem foldl_onCallback_latency (cbs : List Callback) (h : FeedHandler) :
    (cbs.foldl (FeedHandler.onCallback clock midpoint) h).latencyTracker =
        h.latencyTracker.recordAll
          (latencySamples clock h.clockReads (cbs.filterMap Callback.update?)) ∧
      (cbs.foldl (FeedHandler.onCallback clock midpoint) h).clockReads =
        h.clockReads + (cbs.filterMap Callback.update?).length := by
  induction cbs generalizing h with
  | nil => exact ⟨rfl, rfl⟩
  | cons cb cbs ih =>
    obtain ⟨h₁, h₂⟩ := onCallback_latency clock midpoint h cb
    obtain ⟨ih₁, ih₂⟩ := ih (h.onCallback clock midpoint cb)
    have hcons : (cb :: cbs).filterMap Callback.update? =
        cb.update?.toList ++ cbs.filterMap Callback.update? := by
      rw [List.filterMap_cons]; cases cb.update? <;> rfl
    rw [List.foldl_cons, ih₁, ih₂, h₁, h₂, hcons, latencySamples_append,
      LatencyTracker.recordAll_append, List.length_append, Nat.add_assoc]
    exact ⟨rfl, rfl⟩

/-- `process_data` records what the callbacks of `feedChunks` record, as if
all of them ran in one go. -/
theorem processData_latency (chunks : List (List UInt8)) (h : FeedHandler) :
    (h.processData clock midpoint chunks).latencyTracker =
        h.latencyTracker.recordAll (latencySamples clock h.clockReads
          ((feedChunks h.parser chunks).2.2.2.filterMap Callback.update?)) ∧
      (h.processData clock midpoint chunks).clockReads =
        h.clockReads + ((feedChunks h.parser chunks).2.2.2.filterMap Callback.update?).length := by
  induction chunks generalizing h with
  | nil => exact ⟨rfl, rfl⟩
  | cons c cs ih =>
    obtain ⟨ih₁, ih₂⟩ := ih (h.receive clock midpoint c)
    obtain ⟨h₁, h₂⟩ := foldl_onCallback_latency clock midpoint
      (parseMessages (appendData h.parser c).1).2.2 h
    have e₁ : (h.receive clock midpoint c).latencyTracker = _ := h₁
    have e₂ : (h.receive clock midpoint c).clockReads = _ := h₂
    have ep : (h.receive clock midpoint c).parser = (parseMessages (appendData h.parser c).1).1 := rfl
    rw [FeedHandler.processData, ih₁, ih₂, e₁, e₂, ep]
    simp only [feedChunks, List.filterMap_append, latencySamples_append,
      LatencyTracker.recordAll_append, List.length_append, Nat.add_assoc, and_self]

/-- **Every trade and quote is timed once.** A handler whose parser is fresh
receives whole frames with any numbers, in any chunking with at most
`RECV_BUFFER_SIZE` bytes per receive. After `process_data` its tracker has
recorded, in stream order, one sample for each trade and quote whose timestamp
is before the clock reading it took, `now - timestamp_ns`, and nothing for
heartbeats or gaps; the clock has been read once per trade and quote. -/
theorem processData_records_latencies (h : FeedHandler) (hp : h.parser = .init)
    (frames : List Frame) (chunks : List (List UInt8))
    (hsplit : chunks.flatten = frames.flatMap Frame.encode)
    (hc : ∀ c ∈ chunks, c.length ≤ recvBufferSize) :
    (h.processData clock midpoint chunks).latencyTracker =
        h.latencyTracker.recordAll
          (latencySamples clock h.clockReads ((frames.filter Frame.readsClock).map Frame.header)) ∧
      (h.processData clock midpoint chunks).clockReads =
        h.clockReads + (frames.filter Frame.readsClock).length := by
  obtain ⟨hcb, -⟩ := feedChunks_any_numbering frames chunks hsplit hc
  obtain ⟨h₁, h₂⟩ := processData_latency clock midpoint chunks h
  rw [hp, hcb, filterMap_update_withGaps, filterMap_update_ofFrame] at h₁ h₂
  rw [h₁, h₂, List.length_map]
  exact ⟨rfl, rfl⟩

end Handler

/-- A heartbeat and a trade stamped 1000000001 ns in one receive, the clock
reading 2000000000 ns: one sample, of 999999999 ns, and one clock reading. -/
theorem processData_records_latencies_one_trade :
    let h : FeedHandler := ⟨.init, SymbolCache.new maxSymbols, .init, 0, 0, 0⟩
    let frames := [Frame.mk 7 1000000000 42 .heartbeat,
      Frame.mk 10 1000000001 3 (.trade ⟨0x4059100000000000, 1000⟩)]
    h.parser = .init ∧ [frames.flatMap Frame.encode].flatten = frames.flatMap Frame.encode ∧
      (∀ c ∈ [frames.flatMap Frame.encode], c.length ≤ recvBufferSize) ∧
      latencySamples (fun _ => 2000000000) h.clockReads
          ((frames.filter Frame.readsClock).map Frame.header) = [999999999] ∧
      (h.processData (fun _ => 2000000000) (fun b _ => b)
          [frames.flatMap Frame.encode]).latencyTracker =
        h.latencyTracker.recordAll (latencySamples (fun _ => 2000000000) h.clockReads
          ((frames.filter Frame.readsClock).map Frame.header)) ∧
      (h.processData (fun _ => 2000000000) (fun b _ => b)
          [frames.flatMap Frame.encode]).clockReads =
        h.clockReads + (frames.filter Frame.readsClock).length :=
  ⟨rfl, rfl, by decide, by decide, processData_records_latencies _ _ _ rfl _ _ rfl (by decide)⟩

end MarketFeed.Client
