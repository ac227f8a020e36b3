import MarketFeed.Client.Reassembly

/-!
# The sequence tracker of `MessageParser`

`check_sequence` remembers the number it expects next. Over any run of
`append_data`, `parse_one` and `parse_messages` from a fresh or reset tracker,
the callback log has exactly the shape `withGaps` prescribes: every accepted
frame is delivered, and a gap callback `(previous + 1, received)` stands right
before each accepted frame, after the first, whose number is not its
predecessor's plus one. Rejected offsets and requests for more data leave the
tracker alone. `Tracks` is the invariant, preserved call by call.
-/

namespace MarketFeed.Client

open MarketFeed.Protocol

/-! ### The prescribed log -/

/-- The sequence number a frame callback carries; a gap callback carries none. -/
def Callback.sequence? : Callback → Option UInt32
  | .trade h _ => some h.sequenceNumber
  | .quote h _ => some h.sequenceNumber
  | .heartbeat h => some h.sequenceNumber
  | .gap _ _ => none

def Callback.isFrame (c : Callback) : Bool := c.sequence?.isSome

def Callback.isGap (c : Callback) : Bool := c.sequence?.isNone

/-- The number of the last frame in `log`, or `prev` when it holds none. -/
def lastSeq (prev : Option UInt32) (log : List Callback) : Option UInt32 :=
  log.foldl (fun acc c => c.sequence?.or acc) prev

/-- The gap callback due before a frame numbered `seq` after one numbered `prev`. -/
def gapBefore : Option UInt32 → UInt32 → List Callback
  | some q, seq => if seq = q + 1 then [] else [.gap (q + 1) seq]
  | none, _ => []

/-- The log the contract prescribes for the accepted frame callbacks `fs`. -/
def withGaps (prev : Option UInt32) : List Callback → List Callback
  | [] => []
  | c :: cs =>
    match c.sequence? with
    | some seq => gapBefore prev seq ++ c :: withGaps (some seq) cs
    | none => c :: withGaps prev cs

theorem lastSeq_append (prev : Option UInt32) (xs ys : List Callback) :
    lastSeq prev (xs ++ ys) = lastSeq (lastSeq prev xs) ys :=
  List.foldl_append _ _ _ _

theorem withGaps_snoc (prev : Option UInt32) (fs : List Callback) {c : Callback} {seq : UInt32}
    (hc : c.sequence? = some seq) :
    withGaps prev (fs ++ [c]) = withGaps prev fs ++ gapBefore (lastSeq prev fs) seq ++ [c] := by
  induction fs generalizing prev with
  | nil => simp [withGaps, hc, lastSeq]
  | cons d ds ih =>
    cases hd : d.sequence? with
    | none => simp [withGaps, hd, ih, lastSeq, List.foldl_cons, Option.or]
    | some s => simp [withGaps, hd, ih, lastSeq, List.foldl_cons, Option.or]

/-! ### `check_sequence` and `deliver` -/

theorem checkSequence_spec (s : ParserStats) (seq : UInt32) :
    (checkSequence s seq).2.1.firstMessage = false ∧
      (checkSequence s seq).2.1.expectedSequence = seq + 1 ∧
      (checkSequence s seq).2.1.messagesParsed = s.messagesParsed ∧
      (checkSequence s seq).2.2 =
        (if s.firstMessage = false ∧ seq ≠ s.expectedSequence then [.gap s.expectedSequence seq]
          else []) ∧
      (checkSequence s seq).2.1.sequenceGaps = s.sequenceGaps + (checkSequence s seq).2.2.length := by
  unfold checkSequence
  by_cases hf : s.firstMessage = true
  · simp [hf]
  · by_cases hs : seq = s.expectedSequence <;> simp [hf, hs]

/-- A frame of a known kind is delivered after the gap callback, if any. -/
theorem deliver_spec (s : ParserStats) {h : MessageHeader} (pl : List UInt8) {k : MessageType}
    (hk : MessageType.ofCode? h.messageType = some k) :
    ∃ c, c.sequence? = some h.sequenceNumber ∧
      (deliver s h pl).2.2 = (checkSequence s h.sequenceNumber).2.2 ++ [c] ∧
      (deliver s h pl).2.1.firstMessage = (checkSequence s h.sequenceNumber).2.1.firstMessage ∧
      (deliver s h pl).2.1.expectedSequence =
        (checkSequence s h.sequenceNumber).2.1.expectedSequence ∧
      (deliver s h pl).2.1.sequenceGaps = (checkSequence s h.sequenceNumber).2.1.sequenceGaps ∧
      (deliver s h pl).2.1.messagesParsed =
        (checkSequence s h.sequenceNumber).2.1.messagesParsed + 1 := by
  unfold deliver
  rw [hk]
  cases k <;> refine ⟨_, ?_, rfl, rfl, rfl, rfl, rfl⟩ <;> rfl

/-- The frame callback `parse_one` invokes for a header and its payload bytes,
the gap callback of `check_sequence` aside: none for a kind it does not know. -/
def frameCallback (header : MessageHeader) (payload : List UInt8) : List Callback :=
  match MessageType.ofCode? header.messageType with
  | some .trade => [.trade header (.decode payload)]
  | some .quote => [.quote header (.decode payload)]
  | some .heartbeat => [.heartbeat header]
  | none => []

theorem deliver_callbacks (s : ParserStats) (h : MessageHeader) (pl : List UInt8) :
    (deliver s h pl).2.2 = (checkSequence s h.sequenceNumber).2.2 ++ frameCallback h pl := by
  unfold deliver frameCallback
  rcases MessageType.ofCode? h.messageType with _ | _ | _ | _ <;> rfl

theorem checkSequence_inOrder (s : ParserStats) (seq : UInt32) :
    (checkSequence s seq).1 = (checkSequence s seq).2.2.isEmpty := by
  unfold checkSequence
  split_ifs <;> rfl

theorem deliver_inOrder (s : ParserStats) (h : MessageHeader) (pl : List UInt8) :
    (deliver s h pl).1 = (checkSequence s h.sequenceNumber).1 := by
  unfold deliver
  rcases checkSequence s h.sequenceNumber with ⟨_, _, _⟩
  rfl

/-- A frame of a known kind has exactly one callback, carrying its number. -/
theorem frameCallback_known {h : MessageHeader} (pl : List UInt8) {k : MessageType}
    (hk : MessageType.ofCode? h.messageType = some k) :
    ∃ c, frameCallback h pl = [c] ∧ c.sequence? = some h.sequenceNumber := by
  unfold frameCallback
  rw [hk]
  cases k <;> exact ⟨_, rfl, rfl⟩

/-- **An accepted step delivers its frame.** When `parse_one` returns `SUCCESS`
or `SEQUENCE_GAP`, it has invoked the callback of the frame at the front of the
window, with its header and payload, preceded by the gap callback
`(expected_sequence_, received)` exactly when it returns `SEQUENCE_GAP`. -/
theorem parseOne_delivers (p : MessageParser)
    (h : (parseOne p).1 = .success ∨ (parseOne p).1 = .sequenceGap) :
    ∃ c, frameCallback (MessageHeader.decode p.window)
        ((p.window.take (announcedSize p.window)).drop headerSize) = [c] ∧
      c.sequence? = some (MessageHeader.decode p.window).sequenceNumber ∧
      (parseOne p).2.2 = (if (parseOne p).1 = .sequenceGap then
          [.gap p.stats.expectedSequence (MessageHeader.decode p.window).sequenceNumber] else []) ++
        [c] := by
  rcases parseOne_cases p with he | he | he | ⟨k, hk, he⟩ <;> rw [he] at h ⊢
  · simp at h
  · simp at h
  · simp at h
  have hsz : announcedSize p.window = k.msgSize := by simp [announcedSize, getMessageSize, hk]
  obtain ⟨c, hc, hs⟩ := frameCallback_known ((p.window.take k.msgSize).drop headerSize) hk
  refine ⟨c, by rw [hsz, hc], hs, ?_⟩
  dsimp only
  rw [deliver_callbacks, hc, deliver_inOrder, checkSequence_inOrder,
    (checkSequence_spec _ _).2.2.2.1]
  split_ifs <;> simp_all

/-! ### The invariant -/

/-- What the tracker and the callback log since construction or `reset` say of
each other. -/
structure Tracks (s : ParserStats) (log : List Callback) : Prop where
  log_eq : log = withGaps none (log.filter Callback.isFrame)
  first_iff : s.firstMessage = true ↔ lastSeq none log = none
  expected : ∀ q, lastSeq none log = some q → s.expectedSequence = q + 1
  gaps : s.sequenceGaps = (log.filter Callback.isGap).length
  parsed : s.messagesParsed = (log.filter Callback.isFrame).length

theorem tracks_init : Tracks .init [] :=
  ⟨rfl, by simp [ParserStats.init, lastSeq], by simp [lastSeq], rfl, rfl⟩

/-- `Tracks` reads only the tracker fields and the two counters it relates to the log. -/
theorem Tracks.congr {s s' : ParserStats} {log : List Callback} (h : Tracks s log)
    (h1 : s'.firstMessage = s.firstMessage) (h2 : s'.expectedSequence = s.expectedSequence)
    (h3 : s'.sequenceGaps = s.sequenceGaps) (h4 : s'.messagesParsed = s.messagesParsed) :
    Tracks s' log :=
  ⟨h.log_eq, h1 ▸ h.first_iff, fun q hq => h2 ▸ h.expected q hq, h3 ▸ h.gaps, h4 ▸ h.parsed⟩

theorem lastSeq_filter (prev : Option UInt32) (log : List Callback) :
    lastSeq prev (log.filter Callback.isFrame) = lastSeq prev log := by
  induction log generalizing prev with
  | nil => rfl
  | cons c cs ih =>
    cases hc : c.sequence? <;>
      simp [List.filter_cons, Callback.isFrame, hc, lastSeq, Option.or] at ih ⊢ <;> exact ih _

/-- Delivering a frame of a known kind keeps the invariant: the gap callback
`check_sequence` fires is the one `withGaps` prescribes. -/
theorem Tracks.after_deliver {s : ParserStats} {log : List Callback} (h : Tracks s log)
    {hdr : MessageHeader} (pl : List UInt8) {k : MessageType}
    (hk : MessageType.ofCode? hdr.messageType = some k) :
    Tracks (deliver s hdr pl).2.1 (log ++ (deliver s hdr pl).2.2) := by
  obtain ⟨c, hc, hcb, h1, h2, h3, h4⟩ := deliver_spec s pl hk
  obtain ⟨e1, e2, e3, e4, e5⟩ := checkSequence_spec s hdr.sequenceNumber
  set gp := (checkSequence s hdr.sequenceNumber).2.2
  have hgp : gp = gapBefore (lastSeq none log) hdr.sequenceNumber := by
    rw [e4]
    cases hf : s.firstMessage
    · obtain ⟨q, hq⟩ := Option.ne_none_iff_exists'.mp fun hn => by
        simpa [hf] using h.first_iff.mpr hn
      rw [hq, h.expected q hq]
      by_cases hs : hdr.sequenceNumber = q + 1 <;> simp [gapBefore, hs]
    · simp [gapBefore, (h.first_iff.mp hf)]
  have hgaps : ∀ g ∈ gp, g.isGap := by
    rw [e4]; split <;> simp [Callback.isGap, Callback.sequence?]
  have hframe : c.isFrame := by simp [Callback.isFrame, hc]
  have hfg : gp.filter Callback.isFrame = [] :=
    List.filter_eq_nil_iff.mpr fun g hg => by simpa [Callback.isGap, Callback.isFrame] using hgaps g hg
  have hgg : gp.filter Callback.isGap = gp := List.filter_eq_self.mpr hgaps
  have hlast : lastSeq none (log ++ (deliver s hdr pl).2.2) = some hdr.sequenceNumber := by
    simp [hcb, lastSeq_append, lastSeq, hc, Option.or]
  rw [hcb]
  refine ⟨?_, ?_, ?_, ?_, ?_⟩
  · rw [List.filter_append, List.filter_append, hfg, List.filter_cons_of_pos hframe,
      List.filter_nil, List.nil_append, withGaps_snoc _ _ hc, lastSeq_filter, ← hgp, ← h.log_eq,
      List.append_assoc]
  · rw [← hcb, hlast, h1, e1]; simp
  · rw [← hcb, hlast]; intro q hq; cases hq; rw [h2, e2]
  · rw [h3, e5, h.gaps, List.filter_append, List.filter_append, hgg]
    simp [Callback.isGap, hc]
  · rw [h4, e3, h.parsed, List.filter_append, List.filter_append, hfg]
    simp [hframe]

theorem Tracks.after_parseOne {p : MessageParser} {log : List Callback} (h : Tracks p.stats log) :
    Tracks (parseOne p).2.1.stats (log ++ (parseOne p).2.2) := by
  rcases parseOne_cases p with he | he | he | ⟨k, hk, he⟩ <;> rw [he]
  · simpa using h
  · simpa using (h.congr rfl rfl rfl rfl : Tracks p.skipMalformed.stats log)
  · simpa using (h.congr rfl rfl rfl rfl : Tracks p.skipChecksum.stats log)
  · exact h.after_deliver _ hk

theorem Tracks.after_parseMessages (p : MessageParser) :
    ∀ log : List Callback, Tracks p.stats log →
      Tracks (parseMessages p).1.stats (log ++ (parseMessages p).2.2) := by
  induction p using parseMessages.induct with
  | case1 p step hm => intro log h; rw [parseMessages, dif_pos hm]; exact h.after_parseOne
  | case2 p step hm ih =>
    intro log h
    rw [parseMessages, dif_neg hm]
    simpa using ih _ h.after_parseOne

theorem Tracks.after_appendData {p : MessageParser} {log : List Callback} (h : Tracks p.stats log)
    (data : List UInt8) : Tracks (appendData p data).1.stats log := by
  rcases appendData_stats p data with he | he <;> rw [he]
  · exact h
  · exact h.congr rfl rfl rfl rfl

/-! ### Runs of calls -/

/-- A call of the parser's interface; `reset` starts a new run and the test hook
`set_expected_sequence` is left out. -/
inductive ParserCall
  | appendData (data : List UInt8)
  | parseOne
  | parseMessages
  deriving DecidableEq, Repr

/-- One call: the new parser and the callbacks it invoked. -/
def ParserCall.apply (p : MessageParser) : ParserCall → MessageParser × List Callback
  | .appendData data => ((MarketFeed.Client.appendData p data).1, [])
  | .parseOne => ((MarketFeed.Client.parseOne p).2.1, (MarketFeed.Client.parseOne p).2.2)
  | .parseMessages =>
    ((MarketFeed.Client.parseMessages p).1, (MarketFeed.Client.parseMessages p).2.2)

/-- A run of calls: the final parser and every callback, in order. -/
def runCalls (p : MessageParser) : List ParserCall → MessageParser × List Callback
  | [] => (p, [])
  | c :: cs =>
    let r := c.apply p
    let rest := runCalls r.1 cs
    (rest.1, r.2 ++ rest.2)

theorem Tracks.after_runCalls {p : MessageParser} {log : List Callback} (h : Tracks p.stats log)
    (calls : List ParserCall) :
    Tracks (runCalls p calls).1.stats (log ++ (runCalls p calls).2) := by
  induction calls generalizing p log with
  | nil => simpa [runCalls] using h
  | cons c cs ih =>
    have hc : Tracks (c.apply p).1.stats (log ++ (c.apply p).2) := by
      cases c with
      | appendData data => simpa [ParserCall.apply] using h.after_appendData data
      | parseOne => exact h.after_parseOne
      | parseMessages => exact Tracks.after_parseMessages p _ h
    simpa [runCalls] using ih hc

/-- **The sequence-tracking invariant.** A rejected offset or a request for more
data changes neither `expected_sequence_` nor the first-message flag and
invokes no callback. A step that accepts a frame, in order or not, invokes that
frame's callback, after the gap callback `(expected_sequence_, received)` when
it reports a gap. Over any run from a fresh or reset tracker, the log is the
accepted frames with a gap callback `(previous + 1, received)` right before each
one, after the first, whose number is not its predecessor's plus one; the
tracker expects the last accepted number plus one; `sequence_gaps_` counts the
gap callbacks and `messages_parsed_` the delivered frames. -/
theorem sequence_tracking :
    (∀ p : MessageParser, (parseOne p).1 ≠ .success → (parseOne p).1 ≠ .sequenceGap →
      (parseOne p).2.1.stats.expectedSequence = p.stats.expectedSequence ∧
        (parseOne p).2.1.stats.firstMessage = p.stats.firstMessage ∧ (parseOne p).2.2 = []) ∧
    (∀ p : MessageParser, (parseOne p).1 = .success ∨ (parseOne p).1 = .sequenceGap →
      ∃ c, frameCallback (MessageHeader.decode p.window)
          ((p.window.take (announcedSize p.window)).drop headerSize) = [c] ∧
        (parseOne p).2.2 = (if (parseOne p).1 = .sequenceGap then
            [.gap p.stats.expectedSequence (MessageHeader.decode p.window).sequenceNumber] else []) ++
          [c]) ∧
    ∀ p : MessageParser, p.stats = .init → ∀ calls : List ParserCall,
      (runCalls p calls).2 = withGaps none ((runCalls p calls).2.filter Callback.isFrame) ∧
        ((runCalls p calls).1.stats.firstMessage = true ↔
          lastSeq none (runCalls p calls).2 = none) ∧
        (∀ q, lastSeq none (runCalls p calls).2 = some q →
          (runCalls p calls).1.stats.expectedSequence = q + 1) ∧
        (runCalls p calls).1.stats.sequenceGaps =
          ((runCalls p calls).2.filter Callback.isGap).length ∧
        (runCalls p calls).1.stats.messagesParsed =
          ((runCalls p calls).2.filter Callback.isFrame).length := by
  refine ⟨fun p h1 h2 => ?_, fun p h => ?_, fun p hp calls => ?_⟩
  · rcases parseOne_cases p with he | he | he | ⟨k, hk, he⟩ <;> rw [he] at h1 h2 ⊢
    · simp
    · simp [MessageParser.skipMalformed]
    · simp [MessageParser.skipChecksum]
    · dsimp only at h1 h2
      split at h1 <;> simp_all
  · obtain ⟨c, hc, -, hcb⟩ := parseOne_delivers p h
    exact ⟨c, hc, hcb⟩
  · have h := (hp ▸ tracks_init).after_runCalls calls
    rw [List.nil_append] at h
    exact ⟨h.log_eq, h.first_iff, h.expected, h.gaps, h.parsed⟩

/-- A parser that expects sequence number 8 and holds a heartbeat numbered 9. -/
def heartbeatAfterGap : MessageParser :=
  ⟨fun i => (Frame.encode ⟨9, 1000, 3, .heartbeat⟩).getD i 0, 20, 0, 20,
    { ParserStats.init with firstMessage := false, expectedSequence := 8 }⟩

/-- A fresh parser asks for more data; the heartbeat numbered 9, where 8 is
expected, is delivered after the gap `(8, 9)`; and heartbeats 7 and 9 in one
chunk are tracked with the gap `(8, 9)` between them. -/
theorem sequence_tracking_skipped_eight :
    ((parseOne .init).1 ≠ .success ∧ (parseOne .init).1 ≠ .sequenceGap ∧
      (parseOne .init).2.1.stats.expectedSequence = MessageParser.init.stats.expectedSequence ∧
      (parseOne .init).2.1.stats.firstMessage = MessageParser.init.stats.firstMessage ∧
      (parseOne .init).2.2 = []) ∧
    ((parseOne heartbeatAfterGap).1 = .success ∨ (parseOne heartbeatAfterGap).1 = .sequenceGap) ∧
    (∃ c, frameCallback (MessageHeader.decode heartbeatAfterGap.window)
        ((heartbeatAfterGap.window.take (announcedSize heartbeatAfterGap.window)).drop headerSize) =
          [c] ∧
      (parseOne heartbeatAfterGap).2.2 = (if (parseOne heartbeatAfterGap).1 = .sequenceGap then
          [.gap heartbeatAfterGap.stats.expectedSequence
            (MessageHeader.decode heartbeatAfterGap.window).sequenceNumber] else []) ++ [c]) ∧
    MessageParser.init.stats = .init ∧
      let r := runCalls .init [.appendData ((⟨7, 0, 1, .heartbeat⟩ : Frame).encode ++
        (⟨9, 0, 1, .heartbeat⟩ : Frame).encode), .parseMessages]
      r.2 = withGaps none (r.2.filter Callback.isFrame) ∧
        (r.1.stats.firstMessage = true ↔ lastSeq none r.2 = none) ∧
        (∀ q, lastSeq none r.2 = some q → r.1.stats.expectedSequence = q + 1) ∧
        r.1.stats.sequenceGaps = (r.2.filter Callback.isGap).length ∧
        r.1.stats.messagesParsed = (r.2.filter Callback.isFrame).length :=
  ⟨⟨by decide, by decide, sequence_tracking.1 _ (by decide) (by decide)⟩, .inr (by decide),
    sequence_tracking.2.1 _ (.inr (by decide)), rfl, sequence_tracking.2.2 _ rfl _⟩

end MarketFeed.Client
