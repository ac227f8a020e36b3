import MarketFeed.Client.RoundTrip
import MarketFeed.Client.SequenceTracking
import MarketFeed.Protocol.Checksum

/-!
# Errors the parser recovers from

`parse_one` resynchronises one byte at a time: a kind it does not know and a
checksum that does not match both cost one byte and one error count. Two
consequences follow.

A frame altered inside one aligned 4-byte word, its kind field left alone, is
always caught by the checksum (`corrupted_word_detected`): the XOR fold of
`calculate_checksum` moves by the XOR of the old and the new word, which is
never zero, and a change in the trailing word changes the value it is compared
with.

Noise in front of consecutive frames costs exactly one error per noise byte,
and every frame behind it is delivered, provided no offset inside the noise
starts a window of a known kind whose checksum matches (`resync_after_noise`).

Whatever the bytes, the parser reports no frame it did not read whole with a
matching checksum (`feedChunks_windows`): the stream is runs of skipped bytes,
each followed by an accepted window, then skipped bytes and the pending bytes,
and the trade, quote and heartbeat callbacks are those windows read as frames,
one each, in stream order.
-/

namespace MarketFeed.Client

open MarketFeed.Protocol

/-! ### Frames as byte strings -/

theorem msgSize_mod_four (k : MessageType) : k.msgSize % 4 = 0 := by
  cases k <;> decide

theorem ofCode?_eq_some {c : UInt16} {k : MessageType} (h : MessageType.ofCode? c = some k) :
    c = k.code := by
  unfold MessageType.ofCode? at h
  split_ifs at h <;> cases h <;> assumption

/-- Cut a byte string around its `j`-th aligned word. -/
theorem split_word (a : List UInt8) (j : Nat) :
    a = a.take (4 * j) ++ (a.drop (4 * j)).take 4 ++ a.drop (4 * j + 4) := by
  rw [List.append_assoc, ← List.drop_drop 4 (4 * j) a, List.take_append_drop,
    List.take_append_drop]

/-- The frame `f` with its `j`-th aligned word replaced by `w'`. -/
def corruptFrame (f : Frame) (j : Nat) (w' : List UInt8) : List UInt8 :=
  f.encode.take (4 * j) ++ w' ++ f.encode.drop (4 * j + 4)

/-- `validate_checksum` on data followed by a 4-byte trailer compares the
checksum of the data with the trailer. -/
theorem validateChecksum_append_trailer (data : List UInt8) {t : List UInt8} (ht : t.length = 4) :
    validateChecksum (data ++ t) = (calculateChecksum data == UInt32.ofNat (leValue t)) := by
  have hd : (data ++ t).length - checksumSize = data.length := by
    simp [ht, checksumSize]
  rw [validateChecksum, if_neg (by simp [ht, checksumSize]), hd]
  dsimp only
  rw [List.take_left, field_append_of_le (Nat.le_refl _), Nat.sub_self, field, List.drop_zero,
    List.take_of_length_le (by omega)]

/-- **A change inside one aligned word fails the checksum.** -/
theorem validateChecksum_corrupt (f : Frame) {j : Nat} {w' : List UInt8}
    (hj : 4 * j + 4 ≤ f.encode.length) (hw' : w'.length = 4)
    (hne : w' ≠ (f.encode.drop (4 * j)).take 4) : validateChecksum (corruptFrame f j w') = false := by
  have hL := f.encode_length
  have h4 := msgSize_mod_four f.payload.kind
  have hw : ((f.encode.drop (4 * j)).take 4).length = 4 := by simp; omega
  have hP : (f.encode.take (4 * j)).length = 4 * j := by simp; omega
  have hv := validateChecksum_frame f
  rw [split_word f.encode j] at hv
  unfold corruptFrame
  generalize f.encode.take (4 * j) = P at hv hP ⊢
  generalize hQ : f.encode.drop (4 * j + 4) = Q at hv ⊢
  generalize (f.encode.drop (4 * j)).take 4 = w at hv hw hne ⊢
  have hQ4 : Q.length % 4 = 0 := by rw [← hQ, List.length_drop]; omega
  by_cases hQ0 : Q = []
  · -- the trailing word itself
    subst hQ0
    rw [List.append_nil] at hv ⊢
    rw [validateChecksum_append_trailer P hw] at hv
    rw [validateChecksum_append_trailer P hw', beq_eq_false_iff_ne]
    exact fun h => hne (uint32_ofNat_leValue_inj hw' hw (h.symm.trans (beq_iff_eq.mp hv)))
  · -- a word of the header or the payload
    have hQl : 4 ≤ Q.length := by
      have := List.length_pos.mpr hQ0
      omega
    have ht : (Q.drop (Q.length - 4)).length = 4 := by simp; omega
    rw [← List.take_append_drop (Q.length - 4) Q, ← List.append_assoc,
      validateChecksum_append_trailer _ ht] at hv ⊢
    rw [beq_eq_false_iff_ne]
    exact fun h => calculateChecksum_change_word P (by omega) hw hw' _ (Ne.symm hne)
      ((beq_iff_eq.mp hv).trans h.symm)

theorem announcedSize_of_take_two {a b : List UInt8} (h : a.take 2 = b.take 2) :
    announcedSize a = announcedSize b := by
  simp only [announcedSize, MessageHeader.decode, field, List.drop_zero, h]

/-- **Single-word corruption is caught.** Take a well-formed frame, whole in
the window, and replace one aligned 4-byte word of it (the trailing checksum
word included) by a different one, its kind field left as it was: `parse_one`
reports a checksum error, invokes no callback, moves `read_pos_` by one byte
and leaves the sequence tracker alone. -/
theorem corrupted_word_detected (p : MessageParser) (f : Frame) (j : Nat) (w' rest : List UInt8)
    (hj : 4 * j + 4 ≤ f.encode.length) (hw' : w'.length = 4)
    (hne : w' ≠ (f.encode.drop (4 * j)).take 4)
    (hkind : (corruptFrame f j w').take 2 = f.encode.take 2)
    (hwin : p.window = corruptFrame f j w' ++ rest) :
    (parseOne p).1 = .checksumError ∧ (parseOne p).2.2 = [] ∧
      (parseOne p).2.1.readPos = p.readPos + 1 ∧
      (parseOne p).2.1.stats.expectedSequence = p.stats.expectedSequence ∧
      (parseOne p).2.1.stats.firstMessage = p.stats.firstMessage := by
  have hL := f.encode_length
  have hmin : headerSize < f.payload.kind.msgSize := by rcases f.payload.kind with _ | _ | _ <;> decide
  have hlen : (corruptFrame f j w').length = f.payload.kind.msgSize := by
    simp only [corruptFrame, List.length_append, List.length_take, List.length_drop, hw']
    omega
  have hk2 : (corruptFrame f j w' ++ rest).take 2 = (f.encode ++ rest).take 2 := by
    unfold headerSize at hmin
    rw [List.take_append_of_le_length (by rw [hlen]; omega),
      List.take_append_of_le_length (by rw [hL]; omega), hkind]
  have hsize : announcedSize p.window = f.payload.kind.msgSize := by
    rw [hwin, announcedSize_of_take_two hk2, announcedSize_frame]
  have havail : f.payload.kind.msgSize ≤ p.writePos - p.readPos := by
    rw [← MessageParser.window_length, hwin, List.length_append, hlen]
    omega
  rw [parseOne_corrupt (by omega) (by omega) (by omega)
    (by rw [hsize, hwin, List.take_left' hlen]; exact validateChecksum_corrupt f hj hw' hne)]
  exact ⟨rfl, rfl, rfl, rfl, rfl⟩

/-- A heartbeat with the word at byte 4 (the sequence number's high half and
the timestamp's low half) zeroed, alone in the window. -/
def corruptHeartbeat : MessageParser :=
  ⟨fun i => (corruptFrame ⟨7, 1000000000, 42, .heartbeat⟩ 1 [0, 0, 0, 0]).getD i 0, 20, 0, 20, .init⟩

theorem corrupted_word_detected_heartbeat :
    let f : Frame := ⟨7, 1000000000, 42, .heartbeat⟩
    4 * 1 + 4 ≤ f.encode.length ∧ [0, 0, 0, 0].length = 4 ∧
      ([0, 0, 0, 0] : List UInt8) ≠ (f.encode.drop (4 * 1)).take 4 ∧
      (corruptFrame f 1 [0, 0, 0, 0]).take 2 = f.encode.take 2 ∧
      corruptHeartbeat.window = corruptFrame f 1 [0, 0, 0, 0] ++ [] ∧
      (parseOne corruptHeartbeat).1 = .checksumError ∧ (parseOne corruptHeartbeat).2.2 = [] ∧
      (parseOne corruptHeartbeat).2.1.readPos = corruptHeartbeat.readPos + 1 ∧
      (parseOne corruptHeartbeat).2.1.stats.expectedSequence =
        corruptHeartbeat.stats.expectedSequence ∧
      (parseOne corruptHeartbeat).2.1.stats.firstMessage = corruptHeartbeat.stats.firstMessage :=
  ⟨by decide, rfl, by decide, by decide, by decide,
    corrupted_word_detected corruptHeartbeat ⟨7, 1000000000, 42, .heartbeat⟩ 1 [0, 0, 0, 0] []
      (by decide) rfl (by decide) (by decide)
      (by decide)⟩

/-! ### Noise in front of frames -/

/-- No offset inside `noise` starts a window of a known kind whose checksum
matches, in the stream `noise ++ rest`. -/
def NoFalseFrame (noise rest : List UInt8) : Prop :=
  ∀ o < noise.length, ∀ k : MessageType,
    (MessageHeader.decode ((noise ++ rest).drop o)).messageType = k.code →
      validateChecksum (((noise ++ rest).drop o).take k.msgSize) = false

/-- The scanner crosses noise that starts no false frame, in front of at least a
quote frame's bytes, one byte at a time, counting one malformed header or one
checksum error per byte. -/
theorem referenceScan_noise (s : ParserStats) (noise rest : List UInt8)
    (hrest : quoteMsgSize ≤ rest.length) (hn : NoFalseFrame noise rest) :
    ∃ m ≤ noise.length, referenceScan s (noise ++ rest) =
      referenceScan { s with malformedMessages := s.malformedMessages + m,
                             checksumErrors := s.checksumErrors + (noise.length - m) } rest := by
  induction noise generalizing s with
  | nil => exact ⟨0, Nat.le_refl 0, rfl⟩
  | cons x noise ih =>
    have hn' : NoFalseFrame noise rest := fun o ho k hk =>
      hn (o + 1) (by simp; omega) k hk
    rw [List.cons_append]
    have hlen : headerSize ≤ (x :: (noise ++ rest)).length := by
      simp only [quoteMsgSize, headerSize, quotePayloadSize, checksumSize] at hrest ⊢
      simp; omega
    by_cases hz : announcedSize (x :: (noise ++ rest)) = 0
    · obtain ⟨m, hm, e⟩ := ih { s with malformedMessages := s.malformedMessages + 1 } hn'
      refine ⟨m + 1, by simp; omega, ?_⟩
      rw [referenceScan_malformed hlen hz, List.tail_cons, e]
      congr 2 <;> simp only [List.length_cons] <;> omega
    · obtain ⟨k, hk, hsz⟩ := announcedSize_kind hz
      have hc := hn 0 (by simp) k (ofCode?_eq_some hk)
      obtain ⟨m, hm, e⟩ := ih { s with checksumErrors := s.checksumErrors + 1 } hn'
      refine ⟨m, by simp; omega, ?_⟩
      have hle : announcedSize (x :: (noise ++ rest)) ≤ (x :: (noise ++ rest)).length := by
        have := getMessageSize_le (MessageHeader.decode (x :: (noise ++ rest))).messageType
        simp only [announcedSize, List.length_append, List.length_cons] at this ⊢
        omega
      rw [referenceScan_corrupt hlen hz hle (by rw [hsz]; exact hc), List.tail_cons, e]
      congr 2
      simp only [List.length_cons]
      omega

/-- **Resynchronisation after noise.** Feed a fresh parser any noise followed by
consecutive well-formed frames that take at least a quote frame's bytes, in
receives of at most `RECV_BUFFER_SIZE` bytes. If no offset inside the noise
starts a window of a known kind whose checksum matches, the parser delivers
exactly the frames, in order, counts them all, reports no gap, and counts one
malformed header or checksum error per noise byte. -/
theorem resync_after_noise (noise : List UInt8) (frames : List Frame)
    (hseq : frames.Chain' fun f g => g.sequenceNumber = f.sequenceNumber + 1)
    (hbig : quoteMsgSize ≤ (frames.flatMap Frame.encode).length)
    (hnoise : NoFalseFrame noise (frames.flatMap Frame.encode))
    (chunks : List (List UInt8)) (hsplit : chunks.flatten = noise ++ frames.flatMap Frame.encode)
    (hc : ∀ c ∈ chunks, c.length ≤ recvBufferSize) :
    (feedChunks .init chunks).2.2.2 = frames.map Callback.ofFrame ∧
      (feedChunks .init chunks).2.2.1.sum = frames.length ∧
      (feedChunks .init chunks).1.stats.sequenceGaps = 0 ∧
      (feedChunks .init chunks).1.stats.malformedMessages +
        (feedChunks .init chunks).1.stats.checksumErrors = noise.length := by
  obtain ⟨-, hscan, -⟩ := feedChunks_scan ready_init chunks hc
  have hw : MessageParser.init.window = [] := rfl
  have hs : MessageParser.init.stats = .init := rfl
  rw [hw, hs, List.nil_append, hsplit] at hscan
  obtain ⟨m, hm, e⟩ := referenceScan_noise .init noise _ hbig hnoise
  obtain ⟨h1, -, h3, h4, h5, h6⟩ := referenceScan_frames frames hseq
    { ParserStats.init with malformedMessages := ParserStats.init.malformedMessages + m,
                            checksumErrors := ParserStats.init.checksumErrors + (noise.length - m) }
    fun _ _ => Or.inl rfl
  rw [← e, hscan] at h1 h3 h4 h5 h6
  have hcount := feedChunks_count .init chunks
  rw [hs] at hcount
  simp only [ParserStats.init] at h3 h4 h5 h6 hcount
  refine ⟨h1, by omega, h5, by omega⟩

/-- One zero byte in front of a quote frame: its kind field reads 0x0200. -/
theorem noFalseFrame_zero_quote :
    NoFalseFrame [0] (Frame.encode ⟨5, 1000, 3, .quote ⟨0x4059000000000000, 10, 0x4059400000000000, 20⟩⟩) := by
  intro o ho k hk
  obtain rfl : o = 0 := by simpa using ho
  cases k <;> exact absurd hk (by decide)

theorem resync_after_noise_zero_quote :
    let frames : List Frame := [⟨5, 1000, 3, .quote ⟨0x4059000000000000, 10, 0x4059400000000000, 20⟩⟩]
    frames.Chain' (fun f g => g.sequenceNumber = f.sequenceNumber + 1) ∧
      quoteMsgSize ≤ (frames.flatMap Frame.encode).length ∧
      NoFalseFrame [0] (frames.flatMap Frame.encode) ∧
      [[0] ++ frames.flatMap Frame.encode].flatten = [0] ++ frames.flatMap Frame.encode ∧
      (∀ c ∈ [[0] ++ frames.flatMap Frame.encode], c.length ≤ recvBufferSize) ∧
      (feedChunks .init [[0] ++ frames.flatMap Frame.encode]).2.2.2 = frames.map Callback.ofFrame ∧
      (feedChunks .init [[0] ++ frames.flatMap Frame.encode]).2.2.1.sum = frames.length ∧
      (feedChunks .init [[0] ++ frames.flatMap Frame.encode]).1.stats.sequenceGaps = 0 ∧
      (feedChunks .init [[0] ++ frames.flatMap Frame.encode]).1.stats.malformedMessages +
        (feedChunks .init [[0] ++ frames.flatMap Frame.encode]).1.stats.checksumErrors =
        [(0 : UInt8)].length :=
  ⟨List.chain'_singleton _, by decide, by simpa using noFalseFrame_zero_quote, rfl, by decide,
    resync_after_noise [0] [⟨5, 1000, 3, .quote ⟨0x4059000000000000, 10, 0x4059400000000000, 20⟩⟩]
      (List.chain'_singleton _) (by decide) (by simpa using noFalseFrame_zero_quote) _ rfl
      (by decide)⟩

/-! ### What the parser accepts -/

/-- The frame callback for a window of bytes read as one frame. -/
def windowCallback (w : List UInt8) : List Callback :=
  frameCallback (MessageHeader.decode w) (w.drop headerSize)

/-- A window `parse_one` takes as a frame: its kind field names a known kind,
it is exactly as long as that kind's frames, and its checksum matches. -/
def Accepted (w : List UInt8) : Prop :=
  announcedSize w ≠ 0 ∧ w.length = announcedSize w ∧ validateChecksum w = true

instance (w : List UInt8) : Decidable (Accepted w) := inferInstanceAs (Decidable (_ ∧ _ ∧ _))

/-- The bytes `bs` are runs of skipped bytes, each followed by an accepted
window, then skipped bytes, then `pending`; the frame callbacks among `cbs` are
the windows' callbacks, in order. -/
def WindowsOf (bs : List UInt8) (cbs : List Callback) (pending : List UInt8) : Prop :=
  ∃ (segs : List (List UInt8 × List UInt8)) (skipped : List UInt8),
    bs = (segs.flatMap fun e => e.1 ++ e.2) ++ skipped ++ pending ∧
      (∀ e ∈ segs, Accepted e.2) ∧
      cbs.filter Callback.isFrame = (segs.map Prod.snd).flatMap windowCallback

/-- Among the callbacks of `deliver`, the frames are the frame's own callback. -/
theorem deliver_frames (s : ParserStats) (h : MessageHeader) (pl : List UInt8) :
    (deliver s h pl).2.2.filter Callback.isFrame = frameCallback h pl := by
  have hgap : (checkSequence s h.sequenceNumber).2.2.filter Callback.isFrame = [] := by
    rw [(checkSequence_spec s h.sequenceNumber).2.2.2.1]; split_ifs <;> rfl
  have hown : (frameCallback h pl).filter Callback.isFrame = frameCallback h pl := by
    unfold frameCallback
    rcases MessageType.ofCode? h.messageType with _ | _ | _ | _ <;> rfl
  rw [deliver_callbacks, List.filter_append, hgap, hown, List.nil_append]

/-- The window `referenceScan` delivers is accepted and carries the header it
was read with. -/
theorem accepted_take {bs : List UInt8} (hz : announcedSize bs ≠ 0)
    (hl : announcedSize bs ≤ bs.length) (hc : validateChecksum (bs.take (announcedSize bs)) = true) :
    Accepted (bs.take (announcedSize bs)) ∧
      MessageHeader.decode (bs.take (announcedSize bs)) = MessageHeader.decode bs := by
  have hh : headerSize ≤ (bs.take (announcedSize bs)).length := by
    obtain ⟨k, -, hk⟩ := announcedSize_kind hz
    rw [List.length_take, Nat.min_eq_left hl, hk]; cases k <;> decide
  have hdec := decode_append (bs.drop (announcedSize bs)) hh
  have hsz := announcedSize_append (bs.drop (announcedSize bs)) hh
  rw [List.take_append_drop] at hdec hsz
  refine ⟨⟨hsz ▸ hz, ?_, hc⟩, hdec.symm⟩
  rw [← hsz, List.length_take, Nat.min_eq_left hl]

namespace WindowsOf

theorem stop (bs : List UInt8) : WindowsOf bs [] bs := ⟨[], [], rfl, by simp, rfl⟩

/-- A byte skipped in front of a laid-out stream joins its first skipped run. -/
theorem skip {bs : List UInt8} {cbs : List Callback} {pending : List UInt8} (hne : bs ≠ [])
    (h : WindowsOf bs.tail cbs pending) : WindowsOf bs cbs pending := by
  obtain ⟨x, tl, rfl⟩ := List.exists_cons_of_ne_nil hne
  obtain ⟨segs, skipped, rfl, hacc, hcb⟩ := h
  cases segs with
  | nil => exact ⟨[], x :: skipped, rfl, hacc, hcb⟩
  | cons e segs => exact ⟨(x :: e.1, e.2) :: segs, skipped, by simp, by simpa using hacc, hcb⟩

/-- An accepted window in front of a laid-out stream is its first window. -/
theorem window {w rest : List UInt8} {new cbs : List Callback} {pending : List UInt8}
    (hw : Accepted w) (hnew : new.filter Callback.isFrame = windowCallback w)
    (h : WindowsOf rest cbs pending) : WindowsOf (w ++ rest) (new ++ cbs) pending := by
  obtain ⟨segs, skipped, rfl, hacc, hcb⟩ := h
  refine ⟨([], w) :: segs, skipped, by simp, ?_, ?_⟩
  · simpa [hw] using hacc
  · rw [List.filter_append, hnew, hcb]; rfl

end WindowsOf

/-- The reference scan of any bytes lays them out as skipped bytes and accepted
windows, in front of the bytes it stops at. -/
theorem referenceScan_windows (s : ParserStats) (bs : List UInt8) :
    WindowsOf bs (referenceScan s bs).2.1 (referenceScan s bs).2.2 := by
  induction s, bs using referenceScan.induct with
  | case1 s bs h => rw [referenceScan_short h]; exact .stop bs
  | case2 s bs h hz ih =>
    rw [referenceScan_malformed (by omega) hz]
    exact .skip (by rintro rfl; exact h (by decide)) ih
  | case3 s bs h hz hl => rw [referenceScan_incomplete (by omega) hz hl]; exact .stop bs
  | case4 s bs h hz hl hc _ s' cbs hd ih =>
    obtain ⟨hacc, hdec⟩ := accepted_take hz (by omega) hc
    have hnew : cbs.filter Callback.isFrame = windowCallback (bs.take (announcedSize bs)) := by
      rw [windowCallback, hdec, ← deliver_frames s, hd]
    rw [referenceScan_deliver (by omega) hz (by omega) hc, hd]
    simpa only [List.take_append_drop] using WindowsOf.window hacc hnew ih
  | case5 s bs h hz hl hc ih =>
    rw [referenceScan_corrupt (by omega) hz (by omega) (by simpa using hc)]
    exact .skip (by rintro rfl; exact h (by decide)) ih

/-- **The parser invents no frame.** Feed a fresh parser any bytes at all, in
receives of at most `RECV_BUFFER_SIZE` bytes. The stream is runs of skipped
bytes, each followed by a window whose kind is known, whose length is that
kind's and whose checksum matches, then skipped bytes, then the bytes still
pending; the trade, quote and heartbeat callbacks are exactly those windows
read as frames, one each, in stream order. -/
theorem feedChunks_windows (chunks : List (List UInt8))
    (hc : ∀ c ∈ chunks, c.length ≤ recvBufferSize) :
    WindowsOf chunks.flatten (feedChunks .init chunks).2.2.2 (feedChunks .init chunks).1.window := by
  obtain ⟨-, hscan, -⟩ := feedChunks_scan ready_init chunks hc
  have hw : MessageParser.init.window = [] := rfl
  rw [hw, List.nil_append] at hscan
  have hwin := referenceScan_windows MessageParser.init.stats chunks.flatten
  rwa [hscan] at hwin

/-- Two noise bytes, then a heartbeat cut across two receives. -/
theorem feedChunks_windows_noise_heartbeat :
    let bytes := [0, 0] ++ Frame.encode ⟨7, 1000000000, 42, .heartbeat⟩
    (∀ c ∈ [bytes.take 9, bytes.drop 9], c.length ≤ recvBufferSize) ∧
      WindowsOf [bytes.take 9, bytes.drop 9].flatten (feedChunks .init [bytes.take 9, bytes.drop 9]).2.2.2
        (feedChunks .init [bytes.take 9, bytes.drop 9]).1.window :=
  ⟨by decide, feedChunks_windows _ (by decide)⟩

end MarketFeed.Client
