import MarketFeed.Protocol.Wire

/-!
# `MessageParser`: the reassembly buffer and `parse_one`

The parser owns `buffer_` with the cursors `read_pos_ ≤ write_pos_`. Bytes in
`[read_pos_, write_pos_)` are the unparsed stream; everything else is scratch.
`append_data` copies a received chunk behind `write_pos_`, compacting the live
bytes to offset 0 and then doubling the vector (up to `MAX_BUFFER_SIZE`) when
the tail is too short. `parse_one` examines the bytes at `read_pos_`, and
`parse_messages` repeats it until it reports `NEED_MORE_DATA`.

The buffer is a function from offsets to bytes together with its `size()`.
Callbacks are returned in the order `parse_one` invokes them; the 64-bit
counters are naturals, since reaching `2^64` would take `2^64` frames.
-/

namespace MarketFeed.Client

open MarketFeed.Protocol

/-! ### Buffer slices -/

/-- The `len` bytes of `buf` from offset `start`. -/
def slice (buf : Nat → UInt8) (start : Nat) : Nat → List UInt8
  | 0 => []
  | n + 1 => buf start :: slice buf (start + 1) n

@[simp] theorem slice_length (buf : Nat → UInt8) (start n : Nat) :
    (slice buf start n).length = n := by
  induction n generalizing start <;> simp [slice, *]

theorem slice_add (buf : Nat → UInt8) (start m n : Nat) :
    slice buf start (m + n) = slice buf start m ++ slice buf (start + m) n := by
  induction m generalizing start with
  | zero => simp [slice]
  | succ m ih =>
    rw [Nat.add_right_comm, slice, ih, slice, List.cons_append, Nat.add_assoc, Nat.add_comm 1 m]

theorem slice_congr {f g : Nat → UInt8} {s t n : Nat} (h : ∀ i < n, f (s + i) = g (t + i)) :
    slice f s n = slice g t n := by
  induction n generalizing s t with
  | zero => rfl
  | succ n ih =>
    simp only [slice, List.cons.injEq]
    exact ⟨h 0 (Nat.succ_pos n),
      ih fun i hi => by simpa [Nat.add_assoc, Nat.add_comm 1 i] using h (i + 1) (by omega)⟩

theorem take_slice (buf : Nat → UInt8) (start : Nat) {m n : Nat} (h : m ≤ n) :
    (slice buf start n).take m = slice buf start m := by
  obtain ⟨k, rfl⟩ := Nat.exists_eq_add_of_le h
  rw [slice_add, List.take_left' (slice_length _ _ _)]

theorem drop_slice (buf : Nat → UInt8) (start : Nat) {m n : Nat} (h : m ≤ n) :
    (slice buf start n).drop m = slice buf (start + m) (n - m) := by
  obtain ⟨k, rfl⟩ := Nat.exists_eq_add_of_le h
  rw [slice_add, List.drop_left' (slice_length _ _ _), Nat.add_sub_cancel_left]

/-! ### State -/

def initialBufferSize : Nat := 4 * 1024 * 1024
def maxBufferSize : Nat := 16 * 1024 * 1024

/-- `ParseResult`. -/
inductive ParseResult
  | success
  | needMoreData
  | invalidMessage
  | checksumError
  | sequenceGap
  deriving DecidableEq, Repr

/-- One invocation of a registered callback, with the arguments it receives. -/
inductive Callback
  | trade (header : MessageHeader) (payload : TradePayload)
  | quote (header : MessageHeader) (payload : QuotePayload)
  | heartbeat (header : MessageHeader)
  | gap (expected received : UInt32)
  deriving DecidableEq, Repr

/-- The sequence tracker and the six statistics counters. -/
structure ParserStats where
  expectedSequence : UInt32
  firstMessage : Bool
  messagesParsed : Nat
  tradesParsed : Nat
  quotesParsed : Nat
  checksumErrors : Nat
  sequenceGaps : Nat
  malformedMessages : Nat
  deriving DecidableEq, Repr

/-- The member initialisers, which `reset` restores as well. -/
def ParserStats.init : ParserStats := ⟨0, true, 0, 0, 0, 0, 0, 0⟩

structure MessageParser where
  buffer : Nat → UInt8
  capacity : Nat
  readPos : Nat
  writePos : Nat
  stats : ParserStats

/-- `MessageParser()`: a zeroed vector of `INITIAL_BUFFER_SIZE` bytes. -/
def MessageParser.init : MessageParser := ⟨fun _ => 0, initialBufferSize, 0, 0, .init⟩

/-- The unparsed bytes `[read_pos_, write_pos_)`. -/
def MessageParser.window (p : MessageParser) : List UInt8 :=
  slice p.buffer p.readPos (p.writePos - p.readPos)

/-- `reset()`: cursors and statistics back to their initial values; the vector keeps its size. -/
def MessageParser.reset (p : MessageParser) : MessageParser :=
  { p with readPos := 0, writePos := 0, stats := .init }

/-! ### `append_data` -/

/-- `compact_buffer`: move the live bytes to offset 0. -/
def compactBuffer (p : MessageParser) : MessageParser :=
  if p.readPos = 0 then p
  else
    let used := p.writePos - p.readPos
    { p with
      buffer := fun i => if i < used then p.buffer (p.readPos + i) else p.buffer i
      writePos := used
      readPos := 0 }

/-- `buffer_.resize(n)` when growing: old bytes stay, new bytes are zero. -/
def MessageParser.resize (p : MessageParser) (n : Nat) : MessageParser :=
  { p with buffer := fun i => if i < p.capacity then p.buffer i else 0, capacity := n }

/-- `memcpy(buffer_.data() + write_pos_, data, len)` and `write_pos_ += len`. -/
def MessageParser.copyIn (p : MessageParser) (data : List UInt8) : MessageParser :=
  { p with
    buffer := fun i =>
      if p.writePos ≤ i ∧ i < p.writePos + data.length then data.getD (i - p.writePos) 0
      else p.buffer i
    writePos := p.writePos + data.length }

@[simp] theorem MessageParser.resize_capacity (p : MessageParser) (n : Nat) :
    (p.resize n).capacity = n := rfl

@[simp] theorem MessageParser.resize_readPos (p : MessageParser) (n : Nat) :
    (p.resize n).readPos = p.readPos := rfl

@[simp] theorem MessageParser.resize_writePos (p : MessageParser) (n : Nat) :
    (p.resize n).writePos = p.writePos := rfl

@[simp] theorem MessageParser.resize_stats (p : MessageParser) (n : Nat) :
    (p.resize n).stats = p.stats := rfl

@[simp] theorem MessageParser.copyIn_capacity (p : MessageParser) (data : List UInt8) :
    (p.copyIn data).capacity = p.capacity := rfl

@[simp] theorem MessageParser.copyIn_readPos (p : MessageParser) (data : List UInt8) :
    (p.copyIn data).readPos = p.readPos := rfl

@[simp] theorem MessageParser.copyIn_writePos (p : MessageParser) (data : List UInt8) :
    (p.copyIn data).writePos = p.writePos + data.length := rfl

@[simp] theorem MessageParser.copyIn_stats (p : MessageParser) (data : List UInt8) :
    (p.copyIn data).stats = p.stats := rfl

/-- `append_data`: the new state and the number of bytes taken. When the vector
is already at `MAX_BUFFER_SIZE` the chunk is dropped and `malformed_messages_`
counts it. -/
def appendData (p : MessageParser) (data : List UInt8) : MessageParser × Nat :=
  if data.length = 0 then (p, 0)
  else if p.capacity - p.writePos < data.length then
    let q := compactBuffer p
    if q.capacity - q.writePos < data.length then
      let newSize := min (q.capacity * 2) maxBufferSize
      if newSize ≤ q.capacity then
        ({ q with stats := { q.stats with malformedMessages := q.stats.malformedMessages + 1 } }, 0)
      else ((q.resize newSize).copyIn data, data.length)
    else (q.copyIn data, data.length)
  else (p.copyIn data, data.length)

/-! ### `parse_one` -/

/-- `check_sequence`: whether the frame is in order, the new tracker, and the
gap callback it fires. -/
def checkSequence (s : ParserStats) (received : UInt32) : Bool × ParserStats × List Callback :=
  if s.firstMessage then (true, { s with firstMessage := false, expectedSequence := received + 1 }, [])
  else if received ≠ s.expectedSequence then
    (false, { s with sequenceGaps := s.sequenceGaps + 1, expectedSequence := received + 1 },
      [.gap s.expectedSequence received])
  else (true, { s with expectedSequence := received + 1 }, [])

/-- `validate_checksum` over the `msg_len` bytes of `msg`. -/
def validateChecksum (msg : List UInt8) : Bool :=
  if msg.length < checksumSize then false
  else
    let dataLen := msg.length - checksumSize
    calculateChecksum (msg.take dataLen) == UInt32.ofNat (field msg dataLen 4)

/-- Steps after a matching checksum: `check_sequence`, the kind's callback and
counter, then `messages_parsed_`. `payload` starts at `msg_start + HEADER_SIZE`. -/
def deliver (s : ParserStats) (header : MessageHeader) (payload : List UInt8) :
    Bool × ParserStats × List Callback :=
  match checkSequence s header.sequenceNumber with
  | (inOrder, s, gaps) =>
    let (s, cb) := match MessageType.ofCode? header.messageType with
      | some .trade =>
        ({ s with tradesParsed := s.tradesParsed + 1 }, [Callback.trade header (.decode payload)])
      | some .quote =>
        ({ s with quotesParsed := s.quotesParsed + 1 }, [Callback.quote header (.decode payload)])
      | some .heartbeat => (s, [Callback.heartbeat header])
      | none => (s, [])
    (inOrder, { s with messagesParsed := s.messagesParsed + 1 }, gaps ++ cb)

/-- Resynchronise by one byte after a malformed header. -/
def MessageParser.skipMalformed (p : MessageParser) : MessageParser :=
  { p with readPos := p.readPos + 1,
           stats := { p.stats with malformedMessages := p.stats.malformedMessages + 1 } }

/-- Resynchronise by one byte after a checksum mismatch. -/
def MessageParser.skipChecksum (p : MessageParser) : MessageParser :=
  { p with readPos := p.readPos + 1,
           stats := { p.stats with checksumErrors := p.stats.checksumErrors + 1 } }

/-- `parse_one`: the result, the new state, and the callbacks invoked. -/
def parseOne (p : MessageParser) : ParseResult × MessageParser × List Callback :=
  let available := p.writePos - p.readPos
  if available < headerSize then (.needMoreData, p, [])
  else
    let header := MessageHeader.decode (slice p.buffer p.readPos headerSize)
    let msgSize := getMessageSize header.messageType
    if msgSize = 0 then (.invalidMessage, p.skipMalformed, [])
    else if available < msgSize then (.needMoreData, p, [])
    else if quoteMsgSize < msgSize then (.invalidMessage, p.skipMalformed, [])
    else
      let msg := slice p.buffer p.readPos msgSize
      if validateChecksum msg then
        match deliver p.stats header (msg.drop headerSize) with
        | (inOrder, stats, cbs) =>
          (if inOrder then .success else .sequenceGap,
            { p with readPos := p.readPos + msgSize, stats := stats }, cbs)
      else (.checksumError, p.skipChecksum, [])

theorem parseOne_advances (p : MessageParser) (h : (parseOne p).1 ≠ .needMoreData) :
    p.readPos < (parseOne p).2.1.readPos ∧ (parseOne p).2.1.readPos ≤ p.writePos ∧
      (parseOne p).2.1.writePos = p.writePos := by
  unfold parseOne headerSize at h ⊢
  dsimp only at h ⊢
  generalize getMessageSize (MessageHeader.decode (slice p.buffer p.readPos 16)).messageType = m at h ⊢
  by_cases hshort : p.writePos - p.readPos < 16
  · rw [if_pos hshort] at h; exact absurd rfl h
  rw [if_neg hshort] at h ⊢
  by_cases hzero : m = 0
  · rw [if_pos hzero]; dsimp only [MessageParser.skipMalformed]; omega
  rw [if_neg hzero] at h ⊢
  by_cases hmore : p.writePos - p.readPos < m
  · rw [if_pos hmore] at h; exact absurd rfl h
  rw [if_neg hmore]
  split_ifs <;> dsimp only [MessageParser.skipMalformed, MessageParser.skipChecksum] <;> omega

/-- `parse_messages`: call `parse_one` until it asks for more data. Each other
outcome moves `read_pos_` forward, which bounds the loop. -/
def parseMessages (p : MessageParser) : MessageParser × Nat × List Callback :=
  let step := parseOne p
  if _h : step.1 = .needMoreData then (step.2.1, 0, step.2.2)
  else
    let rest := parseMessages step.2.1
    (rest.1, (if step.1 = .success ∨ step.1 = .sequenceGap then 1 else 0) + rest.2.1,
      step.2.2 ++ rest.2.2)
termination_by p.writePos - p.readPos
decreasing_by
  have := parseOne_advances p _h
  omega

/-! ### The window and the kind field -/

theorem decode_take_header {bs : List UInt8} (h : headerSize ≤ bs.length) :
    MessageHeader.decode (bs.take headerSize) = MessageHeader.decode bs := by
  have hf : ∀ off w, off + w ≤ headerSize → field (bs.take headerSize) off w = field bs off w :=
    fun off w hw => by
      conv_rhs => rw [← List.take_append_drop headerSize bs]
      exact (field_append_left (by simp [List.length_take]; omega)).symm
  simp only [MessageHeader.decode, hf 0 2 (by decide), hf 2 4 (by decide), hf 6 8 (by decide),
    hf 14 2 (by decide)]

theorem decode_append {xs : List UInt8} (ys : List UInt8) (h : headerSize ≤ xs.length) :
    MessageHeader.decode (xs ++ ys) = MessageHeader.decode xs := by
  unfold headerSize at h
  simp only [MessageHeader.decode, field_append_left (show 0 + 2 ≤ xs.length by omega),
    field_append_left (show 2 + 4 ≤ xs.length by omega),
    field_append_left (show 6 + 8 ≤ xs.length by omega),
    field_append_left (show 14 + 2 ≤ xs.length by omega)]

/-- The frame length announced by the kind field at the start of `bs`. -/
def announcedSize (bs : List UInt8) : Nat := getMessageSize (MessageHeader.decode bs).messageType

theorem announcedSize_append {xs : List UInt8} (ys : List UInt8) (h : headerSize ≤ xs.length) :
    announcedSize (xs ++ ys) = announcedSize xs := by
  rw [announcedSize, decode_append ys h, announcedSize]

@[simp] theorem MessageParser.window_length (p : MessageParser) :
    p.window.length = p.writePos - p.readPos := slice_length _ _ _

theorem MessageParser.slice_eq_take_window (p : MessageParser) {n : Nat}
    (h : n ≤ p.writePos - p.readPos) : slice p.buffer p.readPos n = p.window.take n :=
  (take_slice _ _ h).symm

/-- Moving `read_pos_` forward by `k` drops `k` bytes of the window. -/
theorem MessageParser.window_advance (p : MessageParser) {k : Nat} (s : ParserStats)
    (h : k ≤ p.writePos - p.readPos) :
    ({ p with readPos := p.readPos + k, stats := s } : MessageParser).window = p.window.drop k := by
  simp only [window, drop_slice _ _ h]
  congr 1
  omega

theorem MessageParser.decode_slice_header (p : MessageParser) (h : headerSize ≤ p.writePos - p.readPos) :
    MessageHeader.decode (slice p.buffer p.readPos headerSize) = MessageHeader.decode p.window := by
  rw [p.slice_eq_take_window h, decode_take_header (by simpa using h)]

theorem MessageParser.skipMalformed_window (p : MessageParser) (h : 1 ≤ p.writePos - p.readPos) :
    p.skipMalformed.window = p.window.tail := by
  rw [skipMalformed, window_advance _ _ h, List.drop_one]

theorem MessageParser.skipChecksum_window (p : MessageParser) (h : 1 ≤ p.writePos - p.readPos) :
    p.skipChecksum.window = p.window.tail := by
  rw [skipChecksum, window_advance _ _ h, List.drop_one]

theorem slice_getD (data : List UInt8) (w : Nat) :
    slice (fun i => data.getD (i - w) 0) w data.length = data := by
  induction data generalizing w with
  | nil => rfl
  | cons b bs ih =>
    simp only [List.length_cons, slice, Nat.sub_self, List.getD_cons_zero, List.cons.injEq, true_and]
    conv_rhs => rw [← ih (w + 1)]
    exact slice_congr fun i _ => by simp [show w + 1 + i - w = i + 1 by omega]

theorem compactBuffer_window (p : MessageParser) :
    (compactBuffer p).window = p.window := by
  unfold compactBuffer
  split
  · rfl
  · refine slice_congr fun i hi => ?_
    simp only [Nat.sub_zero] at hi
    simp [hi]

theorem compactBuffer_fields (p : MessageParser) :
    (compactBuffer p).readPos = 0 ∧ (compactBuffer p).writePos = p.writePos - p.readPos ∧
      (compactBuffer p).capacity = p.capacity ∧ (compactBuffer p).stats = p.stats := by
  unfold compactBuffer
  split <;> simp_all

/-- `append_data` touches no statistic but `malformed_messages_`, which it bumps
when it drops the chunk. -/
theorem appendData_stats (p : MessageParser) (data : List UInt8) :
    (appendData p data).1.stats = p.stats ∨
      (appendData p data).1.stats =
        { p.stats with malformedMessages := p.stats.malformedMessages + 1 } := by
  unfold appendData
  simp only []
  split_ifs <;> simp [MessageParser.copyIn, MessageParser.resize, (compactBuffer_fields p).2.2.2]

theorem MessageParser.copyIn_window (p : MessageParser) (data : List UInt8)
    (h : p.readPos ≤ p.writePos) : (p.copyIn data).window = p.window ++ data := by
  simp only [window, copyIn]
  rw [show p.writePos + data.length - p.readPos = (p.writePos - p.readPos) + data.length by omega,
    slice_add, Nat.add_sub_cancel' h]
  congr 1
  · exact slice_congr fun i hi => by simp [show ¬ p.writePos ≤ p.readPos + i by omega]
  · conv_rhs => rw [← slice_getD data p.writePos]
    exact slice_congr fun i hi => by simp [hi]

theorem MessageParser.resize_window (p : MessageParser) (n : Nat) (h : p.writePos ≤ p.capacity) :
    (p.resize n).window = p.window :=
  slice_congr fun i hi => by
    simp only [resize] at hi
    simp [resize, show p.readPos + i < p.capacity by omega]

/-! ### The outcomes of `parse_one` -/

section ParseOne

variable {p : MessageParser}

theorem parseOne_short (h : p.writePos - p.readPos < headerSize) :
    parseOne p = (.needMoreData, p, []) := by
  simp only [parseOne, if_pos h]

theorem parseOne_malformed (h : headerSize ≤ p.writePos - p.readPos)
    (hz : announcedSize p.window = 0) : parseOne p = (.invalidMessage, p.skipMalformed, []) := by
  simp only [announcedSize] at hz
  simp only [parseOne, p.decode_slice_header h, hz, if_neg (Nat.not_lt.mpr h), if_true]

theorem parseOne_incomplete (h : headerSize ≤ p.writePos - p.readPos)
    (hz : announcedSize p.window ≠ 0) (hl : p.writePos - p.readPos < announcedSize p.window) :
    parseOne p = (.needMoreData, p, []) := by
  simp only [announcedSize] at hz hl
  simp only [parseOne, p.decode_slice_header h, hz, hl, if_neg (Nat.not_lt.mpr h), if_false, if_true]

theorem parseOne_deliver (h : headerSize ≤ p.writePos - p.readPos)
    (hz : announcedSize p.window ≠ 0) (hl : announcedSize p.window ≤ p.writePos - p.readPos)
    (hc : validateChecksum (p.window.take (announcedSize p.window)) = true) :
    parseOne p =
      let d := deliver p.stats (MessageHeader.decode p.window)
        ((p.window.take (announcedSize p.window)).drop headerSize)
      (if d.1 then .success else .sequenceGap,
        { p with readPos := p.readPos + announcedSize p.window, stats := d.2.1 }, d.2.2) := by
  have hq : ¬ quoteMsgSize < announcedSize p.window := Nat.not_lt.mpr (getMessageSize_le _)
  rw [← p.slice_eq_take_window hl] at hc ⊢
  simp only [announcedSize] at hz hl hq hc ⊢
  simp only [parseOne, p.decode_slice_header h, hz, hq, hc, if_neg (Nat.not_lt.mpr h),
    if_neg (Nat.not_lt.mpr hl), if_false, if_true]

theorem parseOne_corrupt (h : headerSize ≤ p.writePos - p.readPos)
    (hz : announcedSize p.window ≠ 0) (hl : announcedSize p.window ≤ p.writePos - p.readPos)
    (hc : validateChecksum (p.window.take (announcedSize p.window)) = false) :
    parseOne p = (.checksumError, p.skipChecksum, []) := by
  have hq : ¬ quoteMsgSize < announcedSize p.window := Nat.not_lt.mpr (getMessageSize_le _)
  rw [← p.slice_eq_take_window hl] at hc
  simp only [announcedSize] at hz hl hq hc
  simp only [parseOne, p.decode_slice_header h, hz, hq, hc, if_neg (Nat.not_lt.mpr h),
    if_neg (Nat.not_lt.mpr hl), if_false, Bool.false_eq_true]

end ParseOne

theorem announcedSize_kind {bs : List UInt8} (h : announcedSize bs ≠ 0) :
    ∃ k, MessageType.ofCode? (MessageHeader.decode bs).messageType = some k ∧
      announcedSize bs = k.msgSize := by
  unfold announcedSize getMessageSize at *
  split at *
  · exact ⟨_, ‹_›, rfl⟩
  · exact absurd rfl h

/-- **The paths of `parse_one`.** It asks for more data and changes nothing,
skips one byte counting a malformed header or a checksum mismatch, or delivers
the frame of a known kind at the start of the window. -/
theorem parseOne_cases (p : MessageParser) :
    parseOne p = (.needMoreData, p, []) ∨
      parseOne p = (.invalidMessage, p.skipMalformed, []) ∨
      parseOne p = (.checksumError, p.skipChecksum, []) ∨
      ∃ k, MessageType.ofCode? (MessageHeader.decode p.window).messageType = some k ∧
        parseOne p =
          let d := deliver p.stats (MessageHeader.decode p.window)
            ((p.window.take k.msgSize).drop headerSize)
          (if d.1 then .success else .sequenceGap,
            { p with readPos := p.readPos + k.msgSize, stats := d.2.1 }, d.2.2) := by
  by_cases h16 : p.writePos - p.readPos < headerSize
  · exact .inl (parseOne_short h16)
  by_cases hz : announcedSize p.window = 0
  · exact .inr (.inl (parseOne_malformed (by omega) hz))
  by_cases hl : p.writePos - p.readPos < announcedSize p.window
  · exact .inl (parseOne_incomplete (by omega) hz hl)
  cases hc : validateChecksum (p.window.take (announcedSize p.window))
  · exact .inr (.inr (.inl (parseOne_corrupt (by omega) hz (by omega) hc)))
  · obtain ⟨k, hk, hsize⟩ := announcedSize_kind hz
    refine .inr (.inr (.inr ⟨k, hk, ?_⟩))
    rw [parseOne_deliver (by omega) hz (by omega) hc, hsize]

/-- `parse_one` never touches the vector, its size or `write_pos_`. -/
theorem parseOne_frame (p : MessageParser) :
    (parseOne p).2.1.buffer = p.buffer ∧ (parseOne p).2.1.capacity = p.capacity ∧
      (parseOne p).2.1.writePos = p.writePos := by
  rcases parseOne_cases p with h | h | h | ⟨k, -, h⟩ <;> rw [h] <;> exact ⟨rfl, rfl, rfl⟩

theorem parseOne_needMoreData {p : MessageParser} (h : (parseOne p).1 = .needMoreData) :
    (parseOne p).2 = (p, []) := by
  rcases parseOne_cases p with h' | h' | h' | ⟨k, -, h'⟩ <;> rw [h'] at h ⊢ <;> simp at h
  split at h <;> cases h

end MarketFeed.Client
