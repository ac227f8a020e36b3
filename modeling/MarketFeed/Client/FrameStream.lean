import MarketFeed.Client.FeedHandler
import MarketFeed.Client.SequenceTracking

/-!
# Any stream of whole frames

The round trip of `RoundTrip` takes frames numbered one after another. A
publisher that skips numbers, or a subscriber that sees only some symbols,
sends whole frames whose numbers jump. The parser still delivers every frame,
in order, and puts one gap callback `(previous + 1, received)` before each frame
whose number is not one past the last one's, which is the log `withGaps`
prescribes; no checksum or header error is counted, and nothing is left
pending. The handler's cache does not look at the numbers: it is the frames
applied in order.
-/

namespace MarketFeed.Client

open MarketFeed.Protocol MarketFeed.Cache

/-- The number of the last frame the tracker accepted, which `check_sequence`
keeps as one less than `expected_sequence_`; none before the first. -/
def ParserStats.lastAccepted (s : ParserStats) : Option UInt32 :=
  if s.firstMessage then none else some (s.expectedSequence - 1)

@[simp] theorem ParserStats.init_lastAccepted : ParserStats.init.lastAccepted = none := rfl

/-- `check_sequence` reports a gap exactly when `gapBefore` prescribes one. -/
theorem checkSequence_gaps (s : ParserStats) (seq : UInt32) :
    (checkSequence s seq).2.2 = gapBefore s.lastAccepted seq := by
  unfold checkSequence ParserStats.lastAccepted
  cases s.firstMessage
  · by_cases h : seq = s.expectedSequence <;> simp [gapBefore, h]
  · rfl

theorem checkSequence_lastAccepted (s : ParserStats) (seq : UInt32) :
    (checkSequence s seq).2.1.lastAccepted = some seq := by
  obtain ⟨h1, h2, -⟩ := checkSequence_spec s seq
  simp [ParserStats.lastAccepted, h1, h2]

/-- What `deliver` does with a whole frame, whatever its number: the gap
callback `gapBefore` prescribes, then the frame's own callback. -/
theorem deliver_encoded (s : ParserStats) (f : Frame) :
    (deliver s f.header (f.encode.drop headerSize)).2.2 =
        gapBefore s.lastAccepted f.sequenceNumber ++ [Callback.ofFrame f] ∧
      (deliver s f.header (f.encode.drop headerSize)).2.1.lastAccepted = some f.sequenceNumber ∧
      (deliver s f.header (f.encode.drop headerSize)).2.1.checksumErrors = s.checksumErrors ∧
      (deliver s f.header (f.encode.drop headerSize)).2.1.malformedMessages = s.malformedMessages ∧
      (deliver s f.header (f.encode.drop headerSize)).2.1.sequenceGaps =
        s.sequenceGaps + (gapBefore s.lastAccepted f.sequenceNumber).length ∧
      (deliver s f.header (f.encode.drop headerSize)).2.1.messagesParsed = s.messagesParsed + 1 := by
  have hseq : f.header.sequenceNumber = f.sequenceNumber := rfl
  have hgaps := checkSequence_gaps s f.sequenceNumber
  have hlast := checkSequence_lastAccepted s f.sequenceNumber
  obtain ⟨-, -, hmsg, -, hcount⟩ := checkSequence_spec s f.sequenceNumber
  have hcs : ((checkSequence s f.sequenceNumber).2.1.checksumErrors = s.checksumErrors ∧
      (checkSequence s f.sequenceNumber).2.1.malformedMessages = s.malformedMessages) := by
    unfold checkSequence; split_ifs <;> exact ⟨rfl, rfl⟩
  rw [hgaps] at hcount
  unfold ParserStats.lastAccepted at hlast
  rw [deliver, hseq]
  rcases hp : f.payload with p | p | _
  · simp_all [Frame.header, Payload.kind, Callback.ofFrame, Frame.decode_trade hp, ParserStats.lastAccepted]
  · simp_all [Frame.header, Payload.kind, Callback.ofFrame, Frame.decode_quote hp, ParserStats.lastAccepted]
  · simp_all [Frame.header, Payload.kind, Callback.ofFrame, ParserStats.lastAccepted]

/-- The scanner delivers the frame at the front of the stream, whatever its
number, and resumes behind it. -/
theorem referenceScan_encode_append (s : ParserStats) (f : Frame) (rest : List UInt8) :
    referenceScan s (f.encode ++ rest) =
      let d := deliver s f.header (f.encode.drop headerSize)
      let r := referenceScan d.2.1 rest
      (r.1, d.2.2 ++ r.2.1, r.2.2) := by
  have hlen := f.encode_length
  have hsz := announcedSize_frame f rest
  have hmin : headerSize < f.payload.kind.msgSize := by
    rcases f.payload.kind with _ | _ | _ <;> decide
  rw [referenceScan_deliver (by simp; omega) (by omega) (by simp; omega)
      (by rw [hsz, List.take_left' hlen]; exact validateChecksum_frame f),
    f.decode_encode, hsz, List.take_left' hlen, List.drop_left' hlen]

theorem withGaps_ofFrame_cons (prev : Option UInt32) (f : Frame) (fs : List Frame) :
    withGaps prev ((f :: fs).map Callback.ofFrame) =
      gapBefore prev f.sequenceNumber ++
        Callback.ofFrame f :: withGaps (some f.sequenceNumber) (fs.map Callback.ofFrame) := by
  have : (Callback.ofFrame f).sequence? = some f.sequenceNumber := by
    unfold Callback.ofFrame; cases f.payload <;> rfl
  rw [List.map_cons, withGaps, this]

theorem gapBefore_filter_isGap (prev : Option UInt32) (seq : UInt32) :
    (gapBefore prev seq).filter Callback.isGap = gapBefore prev seq := by
  cases prev with
  | none => rfl
  | some q => simp only [gapBefore]; split_ifs <;> rfl

theorem ofFrame_isGap (f : Frame) : (Callback.ofFrame f).isGap = false := by
  unfold Callback.ofFrame; cases f.payload <;> rfl

/-- **The scanner over any whole frames.** From any tracker, whole frames with
any numbers are delivered one callback each, behind the gap callbacks
`withGaps` prescribes from the last accepted number, with no leftover and no
checksum or header error counted; each gap callback is counted. -/
theorem referenceScan_encoded (frames : List Frame) (s : ParserStats) :
    (referenceScan s (frames.flatMap Frame.encode)).2.1 =
        withGaps s.lastAccepted (frames.map Callback.ofFrame) ∧
      (referenceScan s (frames.flatMap Frame.encode)).2.2 = [] ∧
      (referenceScan s (frames.flatMap Frame.encode)).1.checksumErrors = s.checksumErrors ∧
      (referenceScan s (frames.flatMap Frame.encode)).1.malformedMessages = s.malformedMessages ∧
      (referenceScan s (frames.flatMap Frame.encode)).1.sequenceGaps = s.sequenceGaps +
        ((withGaps s.lastAccepted (frames.map Callback.ofFrame)).filter Callback.isGap).length ∧
      (referenceScan s (frames.flatMap Frame.encode)).1.messagesParsed =
        s.messagesParsed + frames.length := by
  induction frames generalizing s with
  | nil => simp [referenceScan_short (by decide : ([] : List UInt8).length < headerSize), withGaps]
  | cons f fs ih =>
    obtain ⟨d1, d2, d3, d4, d5, d6⟩ := deliver_encoded s f
    obtain ⟨h1, h2, h3, h4, h5, h6⟩ := ih (deliver s f.header (f.encode.drop headerSize)).2.1
    rw [d2] at h1 h5
    rw [List.flatMap_cons, referenceScan_encode_append, withGaps_ofFrame_cons]
    refine ⟨by simp only [h1, d1, List.append_assoc, List.singleton_append], h2, h3.trans d3,
      h4.trans d4, ?_, by simp only [h6, d6, List.length_cons]; omega⟩
    simp only [h5, d5, List.filter_append, List.filter_cons, ofFrame_isGap, gapBefore_filter_isGap,
      List.length_append]
    simp only [Bool.false_eq_true, ↓reduceIte]
    omega

/-- The gap callbacks `withGaps` puts among a frame's successors are the
successors whose number is not one past the one before. -/
theorem withGaps_filter_isGap_some (f : Frame) (fs : List Frame) :
    ((withGaps (some f.sequenceNumber) (fs.map Callback.ofFrame)).filter Callback.isGap).length =
      ((f :: fs).zip fs).countP fun p => p.2.sequenceNumber ≠ p.1.sequenceNumber + 1 := by
  induction fs generalizing f with
  | nil => rfl
  | cons g gs ih =>
    rw [withGaps_ofFrame_cons, List.filter_append, List.filter_cons, ofFrame_isGap,
      gapBefore_filter_isGap, List.length_append, if_neg Bool.false_ne_true, ih, List.zip_cons_cons,
      List.countP_cons]
    unfold gapBefore
    split_ifs <;> simp_all [Nat.add_comm]

/-- From a fresh tracker, the gap callbacks are the adjacent frames whose
numbers are not consecutive. -/
theorem withGaps_filter_isGap (frames : List Frame) :
    ((withGaps none (frames.map Callback.ofFrame)).filter Callback.isGap).length =
      (frames.zip frames.tail).countP fun p => p.2.sequenceNumber ≠ p.1.sequenceNumber + 1 := by
  cases frames with
  | nil => rfl
  | cons f fs =>
    rw [withGaps_ofFrame_cons, List.filter_append, List.filter_cons, ofFrame_isGap,
      if_neg Bool.false_ne_true, List.length_append, List.tail_cons, ← withGaps_filter_isGap_some]
    simp [gapBefore]

/-- **A fresh parser over any whole frames.** Whole frames with any numbers,
fed to a fresh parser in receives of at most `RECV_BUFFER_SIZE` bytes, come
back one callback each, in order and bit for bit, with a gap callback
`(previous + 1, received)` right before each frame after the first whose number
is not one past the previous frame's. `sequence_gaps_` counts those gap
callbacks, no checksum or header error is counted, the counts
`parse_messages` returns add up to the number of frames, and nothing is left
pending. -/
theorem feedChunks_any_numbering (frames : List Frame) (chunks : List (List UInt8))
    (hsplit : chunks.flatten = frames.flatMap Frame.encode)
    (hc : ∀ c ∈ chunks, c.length ≤ recvBufferSize) :
    (feedChunks .init chunks).2.2.2 = withGaps none (frames.map Callback.ofFrame) ∧
      (feedChunks .init chunks).1.stats.sequenceGaps =
        ((withGaps none (frames.map Callback.ofFrame)).filter Callback.isGap).length ∧
      (feedChunks .init chunks).1.stats.checksumErrors = 0 ∧
      (feedChunks .init chunks).1.stats.malformedMessages = 0 ∧
      (feedChunks .init chunks).2.2.1.sum = frames.length ∧
      (feedChunks .init chunks).1.window = [] := by
  obtain ⟨-, hscan, -⟩ := feedChunks_scan ready_init chunks hc
  obtain ⟨h1, h2, h3, h4, h5, h6⟩ := referenceScan_encoded frames .init
  have hcount := feedChunks_count .init chunks
  have hw : MessageParser.init.window = [] := rfl
  have hs : MessageParser.init.stats = .init := rfl
  rw [hw, hs, List.nil_append, hsplit] at hscan
  simp only [hscan, ParserStats.init_lastAccepted] at h1 h2 h3 h4 h5 h6
  rw [hs] at hcount
  simp only [ParserStats.init, Nat.zero_add] at hcount h5 h6
  exact ⟨h1, h5, h3, h4, by omega, h2⟩

section Handler

variable (clock : Nat → UInt64) (midpoint : UInt64 → UInt64 → UInt64)

theorem foldl_applyCallback_withGaps (c : SymbolCache) (prev : Option UInt32) (frames : List Frame) :
    (withGaps prev (frames.map Callback.ofFrame)).foldl (applyCallback midpoint) c =
      frames.foldl (applyFrame midpoint) c := by
  induction frames generalizing prev c with
  | nil => rfl
  | cons f fs ih =>
    have hg : (gapBefore prev f.sequenceNumber).foldl (applyCallback midpoint) c = c := by
      cases prev with
      | none => rfl
      | some q => simp only [gapBefore]; split_ifs <;> rfl
    rw [withGaps_ofFrame_cons, List.foldl_append, hg, List.foldl_cons, applyCallback_ofFrame, ih]
    rfl

/-- **The cache takes every frame, gaps or not.** A handler whose parser is
fresh receives whole frames with any numbers, in any chunking with at most
`RECV_BUFFER_SIZE` bytes per receive. After `process_data` the cache is what
applying each frame once, in stream order, gives; `messages_received_` has
grown by the number of frames; and the parser has counted one sequence gap for
each frame after the first whose number is not one past the previous frame's. -/
theorem processData_any_numbering (h : FeedHandler) (hp : h.parser = .init) (frames : List Frame)
    (chunks : List (List UInt8)) (hsplit : chunks.flatten = frames.flatMap Frame.encode)
    (hc : ∀ c ∈ chunks, c.length ≤ recvBufferSize) :
    (h.processData clock midpoint chunks).cache = frames.foldl (applyFrame midpoint) h.cache ∧
      (h.processData clock midpoint chunks).messagesReceived =
        h.messagesReceived + .ofNat frames.length ∧
      (h.processData clock midpoint chunks).parser.stats.sequenceGaps =
        (frames.zip frames.tail).countP fun p => p.2.sequenceNumber ≠ p.1.sequenceNumber + 1 := by
  obtain ⟨hparser, hcache, hmsg⟩ := processData_feedChunks clock midpoint h chunks
  obtain ⟨hcb, hgaps, -, -, hcount, -⟩ := feedChunks_any_numbering frames chunks hsplit hc
  rw [hp] at hparser hcache hmsg
  rw [hcache, hmsg, hparser, hcb, hgaps, hcount, foldl_applyCallback_withGaps,
    withGaps_filter_isGap]
  exact ⟨rfl, rfl, rfl⟩

end Handler

/-- A heartbeat numbered 7 and a trade numbered 10 in one receive, on a fresh
handler: the trade lands in the cache and one gap is counted. -/
theorem processData_any_numbering_skipped :
    let h : FeedHandler := ⟨.init, SymbolCache.new maxSymbols, .init, 0, 0, 0⟩
    let frames := [Frame.mk 7 1000000000 42 .heartbeat,
      Frame.mk 10 1000000001 3 (.trade ⟨0x4059100000000000, 1000⟩)]
    h.parser = .init ∧ [frames.flatMap Frame.encode].flatten = frames.flatMap Frame.encode ∧
      (∀ c ∈ [frames.flatMap Frame.encode], c.length ≤ recvBufferSize) ∧
      ((frames.zip frames.tail).countP fun p => p.2.sequenceNumber ≠ p.1.sequenceNumber + 1) = 1 ∧
      (h.processData (fun _ => 2000000000) (fun b _ => b) [frames.flatMap Frame.encode]).cache =
          frames.foldl (applyFrame fun b _ => b) h.cache ∧
        (h.processData (fun _ => 2000000000) (fun b _ => b)
            [frames.flatMap Frame.encode]).messagesReceived =
          h.messagesReceived + .ofNat frames.length ∧
        (h.processData (fun _ => 2000000000) (fun b _ => b)
            [frames.flatMap Frame.encode]).parser.stats.sequenceGaps =
          (frames.zip frames.tail).countP fun p => p.2.sequenceNumber ≠ p.1.sequenceNumber + 1 :=
  ⟨rfl, rfl, by decide, by decide, processData_any_numbering _ _ _ rfl _ _ rfl (by decide)⟩

end MarketFeed.Client
