import MarketFeed.Client.MessageParser

/-!
# Chunking independence of the reassembler

`referenceScan` reads a whole stream at once: at each offset with a full
header left it skips one byte when the kind is unknown, stops when the kind's
frame is not complete yet, delivers a frame whose checksum matches and jumps
over it, and skips one byte otherwise. It follows the contract's offsets over
the whole stream, with no buffer, cursors or receives; what a delivered frame
does to the tracker and which callbacks it fires is `deliver`, the step
`parse_one` itself takes. It returns the tracker, the callbacks and the bytes it
stopped in front of.

`parseMessages_scan` shows that `parse_messages` on a parser is the reference
scan of its window `[read_pos_, write_pos_)`. `referenceScan_append` shows that
scanning `xs ++ ys` is scanning `xs` and then the leftover of `xs` followed by
`ys`. Together with `appendData_ready`, which says that a chunk of at most
`RECV_BUFFER_SIZE` bytes is never dropped once the window is shorter than a
frame, they give `feedChunks_eq_referenceScan`.
-/

namespace MarketFeed.Client

open MarketFeed.Protocol

/-! ### The reference scanner -/

/-- The reference scanner over a whole stream; a frame it accepts goes through
`parse_one`'s own `deliver`. -/
def referenceScan (s : ParserStats) (bs : List UInt8) : ParserStats × List Callback × List UInt8 :=
  if _h : bs.length < headerSize then (s, [], bs)
  else if _hz : announcedSize bs = 0 then
    referenceScan { s with malformedMessages := s.malformedMessages + 1 } bs.tail
  else if bs.length < announcedSize bs then (s, [], bs)
  else if validateChecksum (bs.take (announcedSize bs)) then
    match deliver s (MessageHeader.decode bs) ((bs.take (announcedSize bs)).drop headerSize) with
    | (_, s', cbs) =>
      let rest := referenceScan s' (bs.drop (announcedSize bs))
      (rest.1, cbs ++ rest.2.1, rest.2.2)
  else referenceScan { s with checksumErrors := s.checksumErrors + 1 } bs.tail
termination_by bs.length
decreasing_by
  all_goals simp only [List.length_tail, List.length_drop]
  all_goals unfold headerSize at _h; omega

/-! ### One step of the reference scanner -/

section Steps

variable {s : ParserStats} {bs : List UInt8}

theorem referenceScan_short (h : bs.length < headerSize) : referenceScan s bs = (s, [], bs) := by
  rw [referenceScan, dif_pos h]

theorem referenceScan_malformed (h : headerSize ≤ bs.length) (hz : announcedSize bs = 0) :
    referenceScan s bs =
      referenceScan { s with malformedMessages := s.malformedMessages + 1 } bs.tail := by
  rw [referenceScan, dif_neg (by omega), dif_pos hz]

theorem referenceScan_incomplete (h : headerSize ≤ bs.length) (hz : announcedSize bs ≠ 0)
    (hl : bs.length < announcedSize bs) : referenceScan s bs = (s, [], bs) := by
  rw [referenceScan, dif_neg (by omega), dif_neg hz, if_pos hl]

theorem referenceScan_deliver (h : headerSize ≤ bs.length) (hz : announcedSize bs ≠ 0)
    (hl : announcedSize bs ≤ bs.length)
    (hc : validateChecksum (bs.take (announcedSize bs)) = true) :
    referenceScan s bs =
      let d := deliver s (MessageHeader.decode bs) ((bs.take (announcedSize bs)).drop headerSize)
      let rest := referenceScan d.2.1 (bs.drop (announcedSize bs))
      (rest.1, d.2.2 ++ rest.2.1, rest.2.2) := by
  rw [referenceScan, dif_neg (by omega), dif_neg hz, if_neg (by omega), if_pos hc]

theorem referenceScan_corrupt (h : headerSize ≤ bs.length) (hz : announcedSize bs ≠ 0)
    (hl : announcedSize bs ≤ bs.length)
    (hc : validateChecksum (bs.take (announcedSize bs)) = false) :
    referenceScan s bs = referenceScan { s with checksumErrors := s.checksumErrors + 1 } bs.tail := by
  rw [referenceScan, dif_neg (by omega), dif_neg hz, if_neg (by omega), if_neg (by simp [hc])]

end Steps

/-- The scanner stops only in front of fewer bytes than a quote frame. -/
theorem referenceScan_residue_lt (s : ParserStats) (bs : List UInt8) :
    (referenceScan s bs).2.2.length < quoteMsgSize := by
  induction s, bs using referenceScan.induct with
  | case1 s bs h =>
    rw [referenceScan_short h]
    simp only [headerSize, quoteMsgSize, quotePayloadSize, checksumSize] at *
    omega
  | case2 s bs h hz ih => rwa [referenceScan_malformed (by omega) hz]
  | case3 s bs h hz hl =>
    rw [referenceScan_incomplete (by omega) hz hl]
    exact Nat.lt_of_lt_of_le hl (getMessageSize_le _)
  | case4 s bs h hz hl hc _ s' cbs hd ih =>
    rw [referenceScan_deliver (by omega) hz (by omega) hc, hd]
    exact ih
  | case5 s bs h hz hl hc ih => rw [referenceScan_corrupt (by omega) hz (by omega) (by simpa using hc)]; exact ih

/-- Scanning again from where the scanner stopped finds nothing more. -/
theorem referenceScan_idle (s : ParserStats) (bs : List UInt8) :
    referenceScan (referenceScan s bs).1 (referenceScan s bs).2.2 =
      ((referenceScan s bs).1, [], (referenceScan s bs).2.2) := by
  induction s, bs using referenceScan.induct with
  | case1 s bs h => simp only [referenceScan_short h]
  | case2 s bs h hz ih => rwa [referenceScan_malformed (by omega) hz]
  | case3 s bs h hz hl => simp only [referenceScan_incomplete (by omega) hz hl]
  | case4 s bs h hz hl hc _ s' cbs hd ih =>
    rw [referenceScan_deliver (by omega) hz (by omega) hc, hd]
    exact ih
  | case5 s bs h hz hl hc ih =>
    rwa [referenceScan_corrupt (by omega) hz (by omega) (by simpa using hc)]

/-- **Scanning is prefix-compositional.** Scanning `xs ++ ys` is scanning `xs`,
then resuming in front of its leftover followed by `ys`. -/
theorem referenceScan_append (s : ParserStats) (xs ys : List UInt8) :
    referenceScan s (xs ++ ys) =
      let a := referenceScan s xs
      let b := referenceScan a.1 (a.2.2 ++ ys)
      (b.1, a.2.1 ++ b.2.1, b.2.2) := by
  induction s, xs using referenceScan.induct with
  | case1 s xs h => simp [referenceScan_short h]
  | case2 s xs h hz ih =>
    have hne : xs ≠ [] := by rintro rfl; exact h (by decide)
    rw [referenceScan_malformed (by simp; omega) (by rwa [announcedSize_append ys (by omega)]),
      referenceScan_malformed (by omega) hz, List.tail_append_of_ne_nil hne, ih]
  | case3 s xs h hz hl => simp [referenceScan_incomplete (by omega) hz hl]
  | case4 s xs h hz hl hc _ s' cbs hd ih =>
    have hsz := announcedSize_append ys (by omega : headerSize ≤ xs.length)
    rw [referenceScan_deliver (by simp; omega) (by rwa [hsz]) (by simp [hsz]; omega)
        (by rwa [hsz, List.take_append_of_le_length (by omega)]),
      referenceScan_deliver (by omega) hz (by omega) hc, decode_append ys (by omega), hsz,
      List.take_append_of_le_length (by omega), List.drop_append_of_le_length (by omega), hd]
    simp only [ih, List.append_assoc]
  | case5 s xs h hz hl hc ih =>
    have hne : xs ≠ [] := by rintro rfl; exact h (by decide)
    have hsz := announcedSize_append ys (by omega : headerSize ≤ xs.length)
    rw [referenceScan_corrupt (by simp; omega) (by rwa [hsz]) (by simp [hsz]; omega)
        (by rw [hsz, List.take_append_of_le_length (by omega)]; simpa using hc),
      referenceScan_corrupt (by omega) hz (by omega) (by simpa using hc),
      List.tail_append_of_ne_nil hne, ih]

/-! ### `parse_one` is one step of the reference scan of the window -/

theorem parseOne_scan (p : MessageParser) :
    referenceScan p.stats p.window =
      if (parseOne p).1 = .needMoreData then (p.stats, [], p.window)
      else
        let q := referenceScan (parseOne p).2.1.stats (parseOne p).2.1.window
        (q.1, (parseOne p).2.2 ++ q.2.1, q.2.2) := by
  by_cases h16 : p.writePos - p.readPos < headerSize
  · simp [parseOne_short h16, @referenceScan_short _ p.window (by simpa using h16)]
  have hW : headerSize ≤ p.window.length := by simp; omega
  have h1 : 1 ≤ p.writePos - p.readPos := by unfold headerSize at h16; omega
  by_cases hz : announcedSize p.window = 0
  · rw [parseOne_malformed (by omega) hz, referenceScan_malformed hW hz]
    simp only [p.skipMalformed_window h1]
    simp [MessageParser.skipMalformed]
  by_cases hl : p.writePos - p.readPos < announcedSize p.window
  · simp [parseOne_incomplete (by omega) hz hl, referenceScan_incomplete hW hz (by simpa using hl)]
  cases hc : validateChecksum (p.window.take (announcedSize p.window))
  · rw [parseOne_corrupt (by omega) hz (by omega) hc, referenceScan_corrupt hW hz (by simp; omega) hc]
    simp only [p.skipChecksum_window h1]
    simp [MessageParser.skipChecksum]
  · rw [parseOne_deliver (by omega) hz (by omega) hc, referenceScan_deliver hW hz (by simp; omega) hc]
    simp only [p.window_advance _ (Nat.not_lt.mp hl)]
    split <;> simp

/-- **`parse_messages` is the reference scan of the window.** The loop leaves
the vector, its size and `write_pos_` alone and stops in front of the
scanner's leftover. -/
theorem parseMessages_scan (p : MessageParser) :
    (parseMessages p).1.buffer = p.buffer ∧ (parseMessages p).1.capacity = p.capacity ∧
      (parseMessages p).1.writePos = p.writePos ∧
      referenceScan p.stats p.window =
        ((parseMessages p).1.stats, (parseMessages p).2.2, (parseMessages p).1.window) := by
  induction p using parseMessages.induct with
  | case1 p step h =>
    rw [parseMessages, dif_pos h]
    have hscan := parseOne_scan p
    rw [if_pos h] at hscan
    simpa [parseOne_needMoreData h] using hscan
  | case2 p step h ih =>
    rw [parseMessages, dif_neg h]
    obtain ⟨hb, hc, hw, hr⟩ := ih
    obtain ⟨hb', hc', hw'⟩ := parseOne_frame p
    have hscan := parseOne_scan p
    rw [if_neg h] at hscan
    refine ⟨hb.trans hb', hc.trans hc', hw.trans hw', ?_⟩
    rw [hscan]
    simp only [step] at hr
    simp [hr]

/-! ### Receives of at most `RECV_BUFFER_SIZE` bytes are never dropped -/

/-- `FeedHandler::RECV_BUFFER_SIZE`, the most `process_data` hands to `append_data` at once. -/
def recvBufferSize : Nat := 4 * 1024 * 1024

/-- Cursors ordered inside a vector of at least its initial size. -/
structure Sized (p : MessageParser) : Prop where
  read_le_write : p.readPos ≤ p.writePos
  write_le_capacity : p.writePos ≤ p.capacity
  initial_le_capacity : initialBufferSize ≤ p.capacity

/-- Between two receives: sized, and the window is what the scanner stops in front of. -/
structure Ready (p : MessageParser) extends Sized p : Prop where
  idle : referenceScan p.stats p.window = (p.stats, [], p.window)

theorem Ready.pending_lt {p : MessageParser} (hp : Ready p) :
    p.writePos - p.readPos < quoteMsgSize := by
  have h := referenceScan_residue_lt p.stats p.window
  rwa [hp.idle, MessageParser.window_length] at h

theorem ready_init : Ready MessageParser.init :=
  ⟨⟨Nat.le_refl _, Nat.zero_le _, Nat.le_refl _⟩, referenceScan_short (by decide)⟩

theorem copyIn_sized {p : MessageParser} (hp : p.readPos ≤ p.writePos)
    (hi : initialBufferSize ≤ p.capacity) {data : List UInt8}
    (hd : p.writePos + data.length ≤ p.capacity) : Sized (p.copyIn data) :=
  ⟨by rw [MessageParser.copyIn_readPos, MessageParser.copyIn_writePos]; omega,
    by rw [MessageParser.copyIn_writePos, MessageParser.copyIn_capacity]; exact hd, hi⟩

/-- **`append_data` takes every byte of a receive.** From a ready state a chunk
of at most `RECV_BUFFER_SIZE` bytes lands behind the window: compaction leaves
fewer than a frame's bytes at the front, so one doubling always makes room. -/
theorem appendData_ready {p : MessageParser} (hp : Ready p) {data : List UInt8}
    (hd : data.length ≤ recvBufferSize) :
    (appendData p data).2 = data.length ∧ (appendData p data).1.window = p.window ++ data ∧
      (appendData p data).1.stats = p.stats ∧ Sized (appendData p data).1 := by
  have hrw := hp.read_le_write
  have hwc := hp.write_le_capacity
  have hic := hp.initial_le_capacity
  have hpend := hp.pending_lt
  unfold appendData
  by_cases h0 : data.length = 0
  · simp [h0, List.length_eq_zero.mp h0, hp.toSized]
  rw [if_neg h0]
  by_cases hfit : p.capacity - p.writePos < data.length
  · rw [if_pos hfit]
    obtain ⟨hr, hw, hc, hs⟩ := compactBuffer_fields p
    have hwin := compactBuffer_window p
    simp only
    by_cases hfit' : (compactBuffer p).capacity - (compactBuffer p).writePos < data.length
    · have hgrow : ¬ min ((compactBuffer p).capacity * 2) maxBufferSize ≤ (compactBuffer p).capacity := by
        simp only [quoteMsgSize, headerSize, quotePayloadSize, checksumSize, recvBufferSize,
          initialBufferSize, maxBufferSize] at *
        omega
      rw [if_pos hfit', if_neg hgrow]
      have hroom : (compactBuffer p).writePos + data.length ≤
          min ((compactBuffer p).capacity * 2) maxBufferSize := by
        simp only [quoteMsgSize, headerSize, quotePayloadSize, checksumSize, recvBufferSize,
          initialBufferSize, maxBufferSize] at *
        omega
      have hsz : ((compactBuffer p).resize
          (min ((compactBuffer p).capacity * 2) maxBufferSize)).readPos ≤
          ((compactBuffer p).resize (min ((compactBuffer p).capacity * 2) maxBufferSize)).writePos := by
        rw [MessageParser.resize_readPos, MessageParser.resize_writePos]; omega
      refine ⟨rfl, ?_, by rw [MessageParser.copyIn_stats, MessageParser.resize_stats, hs],
        copyIn_sized hsz (by rw [MessageParser.resize_capacity]; omega) hroom⟩
      rw [MessageParser.copyIn_window _ _ hsz, MessageParser.resize_window _ _ (by omega), hwin]
    · rw [if_neg hfit']
      refine ⟨rfl, ?_, ?_, copyIn_sized (by omega) (by omega) (by omega)⟩
      · rw [MessageParser.copyIn_window _ _ (by omega), hwin]
      · rw [MessageParser.copyIn_stats, hs]
  · rw [if_neg hfit]
    exact ⟨rfl, MessageParser.copyIn_window _ _ hrw, rfl, copyIn_sized hrw hic (by omega)⟩

theorem parseMessages_read_le_write (p : MessageParser) (h : p.readPos ≤ p.writePos) :
    (parseMessages p).1.readPos ≤ (parseMessages p).1.writePos := by
  induction p using parseMessages.induct with
  | case1 p step hm => rw [parseMessages, dif_pos hm]; simpa [step, parseOne_needMoreData hm] using h
  | case2 p step hm ih =>
    rw [parseMessages, dif_neg hm]
    have := parseOne_advances p hm
    exact ih (by simp only [step]; omega)

/-- After `parse_messages` a sized parser is ready for the next receive. -/
theorem parseMessages_ready {p : MessageParser} (hp : Sized p) : Ready (parseMessages p).1 := by
  obtain ⟨hb, hc, hw, hscan⟩ := parseMessages_scan p
  refine ⟨⟨parseMessages_read_le_write p hp.read_le_write, ?_, ?_⟩, ?_⟩
  · rw [hw, hc]; exact hp.write_le_capacity
  · rw [hc]; exact hp.initial_le_capacity
  · have h := referenceScan_idle p.stats p.window
    rwa [hscan] at h

/-! ### The receive loop -/

/-- The parser as `FeedHandler::process_data` drives it: for each receive,
`append_data`, then `parse_messages`. Returns the final parser, what each
`append_data` took, what each `parse_messages` counted, and the callbacks. -/
def feedChunks (p : MessageParser) :
    List (List UInt8) → MessageParser × List Nat × List Nat × List Callback
  | [] => (p, [], [], [])
  | c :: cs =>
    let a := appendData p c
    let m := parseMessages a.1
    let rest := feedChunks m.1 cs
    (rest.1, a.2 :: rest.2.1, m.2.1 :: rest.2.2.1, m.2.2 ++ rest.2.2.2)

/-- From any ready state, feeding chunks of at most `RECV_BUFFER_SIZE` bytes is
the reference scan of the pending bytes followed by all the chunks. -/
theorem feedChunks_scan {p : MessageParser} (hp : Ready p) (chunks : List (List UInt8))
    (hc : ∀ c ∈ chunks, c.length ≤ recvBufferSize) :
    (feedChunks p chunks).2.1 = chunks.map List.length ∧
      referenceScan p.stats (p.window ++ chunks.flatten) =
        ((feedChunks p chunks).1.stats, (feedChunks p chunks).2.2.2,
          (feedChunks p chunks).1.window) ∧
      Ready (feedChunks p chunks).1 := by
  induction chunks generalizing p with
  | nil => simp [feedChunks, hp.idle, hp]
  | cons c cs ih =>
    obtain ⟨htake, hwin, hstats, hsized⟩ := appendData_ready hp (hc c (List.mem_cons_self c cs))
    have hm := parseMessages_scan (appendData p c).1
    rw [hwin, hstats] at hm
    obtain ⟨hlen, hscan, hready⟩ :=
      ih (parseMessages_ready hsized) fun c' hc' => hc c' (List.mem_cons_of_mem c hc')
    refine ⟨by simp [feedChunks, htake, hlen], ?_, hready⟩
    rw [List.flatten_cons, ← List.append_assoc, referenceScan_append, hm.2.2.2]
    simp [feedChunks, hscan]

/-- **Chunking independence.** Feeding any partition of a stream into chunks of
at most `RECV_BUFFER_SIZE` bytes to a fresh parser, with `append_data` then
`parse_messages` after each, takes every chunk whole and yields the callbacks,
the counters and the pending bytes of the reference scan of the whole stream. -/
theorem feedChunks_eq_referenceScan (chunks : List (List UInt8))
    (hc : ∀ c ∈ chunks, c.length ≤ recvBufferSize) :
    (feedChunks .init chunks).2.1 = chunks.map List.length ∧
      (feedChunks .init chunks).2.2.2 = (referenceScan .init chunks.flatten).2.1 ∧
      (feedChunks .init chunks).1.stats = (referenceScan .init chunks.flatten).1 ∧
      (feedChunks .init chunks).1.window = (referenceScan .init chunks.flatten).2.2 := by
  obtain ⟨hlen, hscan, -⟩ := feedChunks_scan ready_init chunks hc
  have hw : MessageParser.init.window = [] := rfl
  have hs : MessageParser.init.stats = .init := rfl
  rw [hw, hs, List.nil_append] at hscan
  simp [hscan, hlen]

theorem feedChunks_eq_referenceScan_split_heartbeat :
    (∀ c ∈ [(Frame.encode ⟨7, 1000000000, 42, .heartbeat⟩).take 5,
        (Frame.encode ⟨7, 1000000000, 42, .heartbeat⟩).drop 5], c.length ≤ recvBufferSize) ∧
      let chunks := [(Frame.encode ⟨7, 1000000000, 42, .heartbeat⟩).take 5,
        (Frame.encode ⟨7, 1000000000, 42, .heartbeat⟩).drop 5]
      (feedChunks .init chunks).2.1 = chunks.map List.length ∧
      (feedChunks .init chunks).2.2.2 = (referenceScan .init chunks.flatten).2.1 ∧
      (feedChunks .init chunks).1.stats = (referenceScan .init chunks.flatten).1 ∧
      (feedChunks .init chunks).1.window = (referenceScan .init chunks.flatten).2.2 :=
  ⟨by decide, feedChunks_eq_referenceScan _ (by decide)⟩

end MarketFeed.Client
