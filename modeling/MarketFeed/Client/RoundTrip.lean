import MarketFeed.Client.Reassembly

/-!
# Encode, then parse

Frames laid out as `TickGenerator` writes them, with consecutive sequence
numbers, come back out of a fresh parser one callback per frame, bit for bit,
whatever the chunking. The proof walks the reference scan frame by frame
(`referenceScan_frames`) and transfers it to the parser with
`feedChunks_scan`.
-/

namespace MarketFeed.Client

open MarketFeed.Protocol

/-- The callback `parse_one` invokes for a frame. -/
def Callback.ofFrame (f : Frame) : Callback :=
  match f.payload with
  | .trade p => .trade f.header p
  | .quote p => .quote f.header p
  | .heartbeat => .heartbeat f.header

/-- The tracker accepts `seq` without a gap: nothing accepted yet, or `seq` is expected. -/
def Expects (s : ParserStats) (seq : UInt32) : Prop :=
  s.firstMessage = true ∨ s.expectedSequence = seq

/-! ### One encoded frame -/

theorem announcedSize_frame (f : Frame) (rest : List UInt8) :
    announcedSize (f.encode ++ rest) = f.payload.kind.msgSize := by
  simp [announcedSize, f.decode_encode, Frame.header]

theorem validateChecksum_frame (f : Frame) : validateChecksum f.encode = true := by
  have hb := f.body_length
  simp only [validateChecksum, Frame.encode, List.length_append, leBytes_length, checksumSize,
    Nat.add_sub_cancel, List.take_left', field_append_of_le (Nat.le_refl _), Nat.sub_self]
  simp [field, leValue_leBytes, List.take_of_length_le]

theorem checkSequence_expected {s : ParserStats} {seq : UInt32} (h : Expects s seq) :
    checkSequence s seq =
      (true, { s with firstMessage := false, expectedSequence := seq + 1 }, []) := by
  unfold checkSequence
  rcases h with h | h
  · simp [h]
  · by_cases hf : s.firstMessage = true
    · simp [hf]
    · simp [hf, h]

/-- What `deliver` does with an expected frame: no gap, one callback, and only
the kind's counter, `messages_parsed_` and the tracker move. -/
theorem deliver_frame {s : ParserStats} (f : Frame) (h : Expects s f.sequenceNumber) :
    deliver s f.header (f.encode.drop headerSize) =
      (true,
        { s with
          firstMessage := false
          expectedSequence := f.sequenceNumber + 1
          messagesParsed := s.messagesParsed + 1
          tradesParsed := s.tradesParsed + (match f.payload with | .trade _ => 1 | _ => 0)
          quotesParsed := s.quotesParsed + (match f.payload with | .quote _ => 1 | _ => 0) },
        [Callback.ofFrame f]) := by
  have hseq : f.header.sequenceNumber = f.sequenceNumber := rfl
  rw [deliver, hseq, checkSequence_expected h]
  rcases hp : f.payload with p | p | _
  · simp [Frame.header, hp, Payload.kind, Callback.ofFrame, Frame.decode_trade hp]
  · simp [Frame.header, hp, Payload.kind, Callback.ofFrame, Frame.decode_quote hp]
  · simp [Frame.header, hp, Payload.kind, Callback.ofFrame]

/-- The scanner delivers an expected frame at the front of the stream and resumes behind it. -/
theorem referenceScan_frame {s : ParserStats} (f : Frame) (rest : List UInt8)
    (h : Expects s f.sequenceNumber) :
    referenceScan s (f.encode ++ rest) =
      let r := referenceScan (deliver s f.header (f.encode.drop headerSize)).2.1 rest
      (r.1, Callback.ofFrame f :: r.2.1, r.2.2) := by
  have hlen := f.encode_length
  have hsz := announcedSize_frame f rest
  have hmin : headerSize < f.payload.kind.msgSize := by
    rcases f.payload.kind with _ | _ | _ <;> decide
  rw [referenceScan_deliver (by simp; omega) (by omega) (by simp; omega)
      (by rw [hsz, List.take_left' hlen]; exact validateChecksum_frame f),
    f.decode_encode, hsz, List.take_left' hlen, List.drop_left' hlen, deliver_frame f h]
  rfl

/-- **The scanner over encoded frames.** Consecutive frames from a tracker that
expects the first are delivered one callback each, with no leftover and no
error or gap counted. -/
theorem referenceScan_frames (frames : List Frame)
    (hseq : frames.Chain' fun f g => g.sequenceNumber = f.sequenceNumber + 1)
    (s : ParserStats) (hs : ∀ f ∈ frames.head?, Expects s f.sequenceNumber) :
    (referenceScan s (frames.flatMap Frame.encode)).2.1 = frames.map Callback.ofFrame ∧
      (referenceScan s (frames.flatMap Frame.encode)).2.2 = [] ∧
      (referenceScan s (frames.flatMap Frame.encode)).1.checksumErrors = s.checksumErrors ∧
      (referenceScan s (frames.flatMap Frame.encode)).1.malformedMessages = s.malformedMessages ∧
      (referenceScan s (frames.flatMap Frame.encode)).1.sequenceGaps = s.sequenceGaps ∧
      (referenceScan s (frames.flatMap Frame.encode)).1.messagesParsed =
        s.messagesParsed + frames.length := by
  induction frames generalizing s with
  | nil => simp [referenceScan_short (by decide : ([] : List UInt8).length < headerSize)]
  | cons f fs ih =>
    have hf : Expects s f.sequenceNumber := hs f rfl
    have hnext : ∀ g ∈ fs.head?, Expects (deliver s f.header (f.encode.drop headerSize)).2.1
        g.sequenceNumber := by
      intro g hg
      cases fs with
      | nil => cases hg
      | cons g' gs =>
        cases hg
        rw [deliver_frame f hf]
        exact Or.inr (List.chain'_cons.mp hseq).1.symm
    obtain ⟨h1, h2, h3, h4, h5, h6⟩ := ih hseq.tail _ hnext
    rw [List.flatMap_cons, referenceScan_frame f _ hf]
    rw [deliver_frame f hf] at h1 h2 h3 h4 h5 h6 ⊢
    exact ⟨by simp [h1], h2, h3, h4, h5, by simp only [h6, List.length_cons]; omega⟩

/-! ### What `parse_messages` returns -/

theorem deliver_messagesParsed (s : ParserStats) (h : MessageHeader) (pl : List UInt8) :
    (deliver s h pl).2.1.messagesParsed = s.messagesParsed + 1 := by
  unfold deliver
  rcases MessageType.ofCode? h.messageType with _ | _ | _ | _ <;>
    unfold checkSequence <;> split_ifs <;> rfl

/-- `parse_one` counts a frame in `messages_parsed_` exactly when it reports one. -/
theorem parseOne_count (p : MessageParser) :
    (parseOne p).2.1.stats.messagesParsed = p.stats.messagesParsed +
      if (parseOne p).1 = .success ∨ (parseOne p).1 = .sequenceGap then 1 else 0 := by
  rcases parseOne_cases p with h | h | h | ⟨k, -, h⟩ <;> rw [h]
  · rfl
  · rfl
  · rfl
  · dsimp only
    split <;> simp [deliver_messagesParsed, *]

/-- The count `parse_messages` returns is what it adds to `messages_parsed_`. -/
theorem parseMessages_count (p : MessageParser) :
    (parseMessages p).2.1 + p.stats.messagesParsed = (parseMessages p).1.stats.messagesParsed := by
  induction p using parseMessages.induct with
  | case1 p step h => rw [parseMessages, dif_pos h]; simp [step, parseOne_needMoreData h]
  | case2 p step h ih =>
    rw [parseMessages, dif_neg h]
    have hc := parseOne_count p
    simp only [step] at ih ⊢
    rw [← ih, hc]
    split <;> omega

theorem appendData_messagesParsed (p : MessageParser) (data : List UInt8) :
    (appendData p data).1.stats.messagesParsed = p.stats.messagesParsed := by
  rcases appendData_stats p data with h | h <;> rw [h]

theorem feedChunks_count (p : MessageParser) (chunks : List (List UInt8)) :
    (feedChunks p chunks).2.2.1.sum + p.stats.messagesParsed =
      (feedChunks p chunks).1.stats.messagesParsed := by
  induction chunks generalizing p with
  | nil => simp [feedChunks]
  | cons c cs ih =>
    have hm := parseMessages_count (appendData p c).1
    rw [appendData_messagesParsed] at hm
    simp only [feedChunks, List.sum_cons]
    rw [← ih, ← hm]
    omega

/-! ### The round trip -/

/-- A fresh parser fed receives of at most `RECV_BUFFER_SIZE` bytes stands
where the reference scan of the whole stream stops. -/
theorem feedChunks_init_scan (chunks : List (List UInt8))
    (hc : ∀ c ∈ chunks, c.length ≤ recvBufferSize) :
    referenceScan .init chunks.flatten =
      ((feedChunks .init chunks).1.stats, (feedChunks .init chunks).2.2.2,
        (feedChunks .init chunks).1.window) := by
  have h := (feedChunks_scan ready_init chunks hc).2.1
  rwa [show MessageParser.init.window = [] from rfl, List.nil_append] at h

/-- The callbacks and the counts a fresh parser reports for consecutive frames
fed in receives of at most `RECV_BUFFER_SIZE` bytes. -/
theorem feedChunks_encoded (frames : List Frame)
    (hseq : frames.Chain' fun f g => g.sequenceNumber = f.sequenceNumber + 1)
    (chunks : List (List UInt8)) (hsplit : chunks.flatten = frames.flatMap Frame.encode)
    (hc : ∀ c ∈ chunks, c.length ≤ recvBufferSize) :
    (feedChunks .init chunks).2.2.2 = frames.map Callback.ofFrame ∧
      (feedChunks .init chunks).2.2.1.sum = frames.length := by
  have hscan := feedChunks_init_scan chunks hc
  rw [hsplit] at hscan
  obtain ⟨h1, -, -, -, -, h6⟩ := referenceScan_frames frames hseq .init fun f _ => Or.inl rfl
  have hcount := feedChunks_count .init chunks
  rw [show MessageParser.init.stats = .init from rfl] at hcount
  simp only [hscan] at h1 h6
  simp only [ParserStats.init] at h6 hcount
  exact ⟨h1, by omega⟩

/-- **Round trip.** Consecutive frames encoded as the generator writes them and
fed to a fresh parser in receives of at most `RECV_BUFFER_SIZE` bytes come back
as one callback per frame, in order and bit for bit. The counts
`parse_messages` returns add up to the number of frames, no error or gap is
counted, and nothing is left pending. -/
theorem parse_encoded_frames (frames : List Frame)
    (hseq : frames.Chain' fun f g => g.sequenceNumber = f.sequenceNumber + 1)
    (chunks : List (List UInt8)) (hsplit : chunks.flatten = frames.flatMap Frame.encode)
    (hc : ∀ c ∈ chunks, c.length ≤ recvBufferSize) :
    (feedChunks .init chunks).2.2.2 = frames.map Callback.ofFrame ∧
      (feedChunks .init chunks).2.2.1.sum = frames.length ∧
      (feedChunks .init chunks).1.stats.checksumErrors = 0 ∧
      (feedChunks .init chunks).1.stats.malformedMessages = 0 ∧
      (feedChunks .init chunks).1.stats.sequenceGaps = 0 ∧
      (feedChunks .init chunks).1.window = [] := by
  obtain ⟨hcb, hsum⟩ := feedChunks_encoded frames hseq chunks hsplit hc
  have hscan := feedChunks_init_scan chunks hc
  rw [hsplit] at hscan
  obtain ⟨-, h2, h3, h4, h5, -⟩ := referenceScan_frames frames hseq .init fun f _ => Or.inl rfl
  simp only [hscan] at h2 h3 h4 h5
  exact ⟨hcb, hsum, h3, h4, h5, h2⟩

theorem parse_encoded_heartbeat_trade :
    [Frame.mk 7 1000000000 42 .heartbeat, Frame.mk 8 1000000001 3 (.trade ⟨0x4059100000000000, 1000⟩)].Chain'
        (fun f g => g.sequenceNumber = f.sequenceNumber + 1) ∧
      [([Frame.mk 7 1000000000 42 .heartbeat,
          Frame.mk 8 1000000001 3 (.trade ⟨0x4059100000000000, 1000⟩)].flatMap Frame.encode)].flatten =
        [Frame.mk 7 1000000000 42 .heartbeat,
          Frame.mk 8 1000000001 3 (.trade ⟨0x4059100000000000, 1000⟩)].flatMap Frame.encode ∧
      (∀ c ∈ [[Frame.mk 7 1000000000 42 .heartbeat,
          Frame.mk 8 1000000001 3 (.trade ⟨0x4059100000000000, 1000⟩)].flatMap Frame.encode],
          c.length ≤ recvBufferSize) ∧
      let frames := [Frame.mk 7 1000000000 42 .heartbeat,
        Frame.mk 8 1000000001 3 (.trade ⟨0x4059100000000000, 1000⟩)]
      let chunks := [frames.flatMap Frame.encode]
      (feedChunks .init chunks).2.2.2 = frames.map Callback.ofFrame ∧
      (feedChunks .init chunks).2.2.1.sum = frames.length ∧
      (feedChunks .init chunks).1.stats.checksumErrors = 0 ∧
      (feedChunks .init chunks).1.stats.malformedMessages = 0 ∧
      (feedChunks .init chunks).1.stats.sequenceGaps = 0 ∧
      (feedChunks .init chunks).1.window = [] :=
  ⟨List.chain'_pair.mpr (by decide), rfl, by decide,
    parse_encoded_frames _ (List.chain'_pair.mpr (by decide)) _ rfl (by decide)⟩

end MarketFeed.Client
