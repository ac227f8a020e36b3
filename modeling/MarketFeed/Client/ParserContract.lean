import MarketFeed.Client.RoundTrip
import MarketFeed.Client.SequenceTracking

/-!
# What `append_data` and `parse_messages` promise

`append_data` has three ways to make room: write in place, compact, or double
the vector once. When the chunk fits after at most that one doubling it either
lands behind the unparsed bytes or, at the hard cap, is dropped and counted
(`appendData_outcomes`). When it does not, the vector is doubled once and the
copy runs past its end (`appendData_overflow`).

`parse_messages` calls `parse_one` until it asks for more data. Every other
outcome moves `read_pos_` forward, so the loop ends within
`write_pos_ - read_pos_ + 1` calls (`parseLoop_parseMessages`). `parse_one` looks
only at the unparsed bytes, and each of its steps either skips one byte and
counts one error, or delivers one frame, after a gap callback when the frame is
out of sequence (`parseOne_accounts`).
-/

namespace MarketFeed.Client

open MarketFeed.Protocol

/-! ### `append_data` -/

section AppendData

variable (p : MessageParser) (data : List UInt8)

/-- **Every chunk that fits after one doubling.** From ordered cursors in a
vector no larger than `MAX_BUFFER_SIZE`, a non-empty chunk that fits in place,
after compaction, or after one doubling is taken whole, behind the unparsed
bytes, with the cursors still ordered inside the vector; or, when the vector
cannot grow, it is dropped, the unparsed bytes stay, and `malformed_messages_`
counts it. -/
theorem appendData_outcomes (hrw : p.readPos ≤ p.writePos) (hwc : p.writePos ≤ p.capacity)
    (hmax : p.capacity ≤ maxBufferSize) (hlen : 0 < data.length)
    (hfits : p.writePos - p.readPos + data.length ≤ max p.capacity (min (p.capacity * 2) maxBufferSize)) :
    ((appendData p data).2 = data.length ∧
        (appendData p data).1.readPos ≤ (appendData p data).1.writePos ∧
        (appendData p data).1.writePos ≤ (appendData p data).1.capacity ∧
        (appendData p data).1.capacity ≤ maxBufferSize ∧
        (appendData p data).1.window = p.window ++ data) ∨
      ((appendData p data).2 = 0 ∧ (appendData p data).1.window = p.window ∧
        (appendData p data).1.stats.malformedMessages = p.stats.malformedMessages + 1) := by
  obtain ⟨hr, hw, hc, hs⟩ := compactBuffer_fields p
  have hwin := compactBuffer_window p
  unfold appendData
  rw [if_neg (by omega)]
  by_cases hfit : p.capacity - p.writePos < data.length
  · rw [if_pos hfit]
    dsimp only
    by_cases hfit' : (compactBuffer p).capacity - (compactBuffer p).writePos < data.length
    · rw [if_pos hfit']
      by_cases hgrow : min ((compactBuffer p).capacity * 2) maxBufferSize ≤ (compactBuffer p).capacity
      · rw [if_pos hgrow]
        exact .inr ⟨rfl, hwin, by simp [hs]⟩
      · rw [if_neg hgrow]
        refine .inl ⟨rfl, by simp [hr], ?_, by simp, ?_⟩
        · simp only [MessageParser.copyIn_writePos, MessageParser.copyIn_capacity,
            MessageParser.resize_writePos, MessageParser.resize_capacity, hw, hc]
          omega
        rw [MessageParser.copyIn_window _ _ (by simp [hr]), MessageParser.resize_window _ _ (by omega),
          hwin]
    · rw [if_neg hfit']
      refine .inl ⟨rfl, by simp [hr], by simp [hw, hc]; omega, by simpa [hc] using hmax, ?_⟩
      rw [MessageParser.copyIn_window _ _ (by omega), hwin]
  · rw [if_neg hfit]
    exact .inl ⟨rfl, by simp; omega, by simp; omega, hmax, MessageParser.copyIn_window _ _ hrw⟩

/-- **A chunk that does not fit after one doubling is written past the end.**
`append_data` doubles the vector once and copies the whole chunk, so the bytes
from the new size to the new `write_pos_` fall outside it. -/
theorem appendData_overflow (hrw : p.readPos ≤ p.writePos) (hwc : p.writePos ≤ p.capacity)
    (hpos : 0 < p.capacity) (hmax : p.capacity < maxBufferSize)
    (hbig : min (p.capacity * 2) maxBufferSize < p.writePos - p.readPos + data.length) :
    (appendData p data).2 = data.length ∧
      (appendData p data).1.capacity = min (p.capacity * 2) maxBufferSize ∧
      (appendData p data).1.writePos = p.writePos - p.readPos + data.length := by
  obtain ⟨hr, hw, hc, -⟩ := compactBuffer_fields p
  unfold appendData
  rw [if_neg (by omega), if_pos (by omega)]
  dsimp only
  rw [if_pos (by omega), hc, if_neg (by omega)]
  exact ⟨rfl, rfl, by rw [MessageParser.copyIn_writePos, MessageParser.resize_writePos, hw]⟩

end AppendData

/-- A fresh parser handed one chunk of twice its initial size plus one byte:
the vector grows to 8 MiB and the copy ends one byte past it. -/
theorem append_data_past_end :
    (appendData .init (List.replicate (2 * initialBufferSize + 1) 0)).2 = 2 * initialBufferSize + 1 ∧
      (appendData .init (List.replicate (2 * initialBufferSize + 1) 0)).1.capacity =
        2 * initialBufferSize ∧
      (appendData .init (List.replicate (2 * initialBufferSize + 1) 0)).1.writePos =
        2 * initialBufferSize + 1 := by
  obtain ⟨h1, h2, h3⟩ := appendData_overflow .init (List.replicate (2 * initialBufferSize + 1) 0)
    (Nat.le_refl 0) (Nat.zero_le _) (by decide) (by decide) (by rw [List.length_replicate]; decide)
  rw [List.length_replicate] at h1 h3
  exact ⟨h1, h2.trans (by decide), h3⟩

/-! ### `parse_messages` -/

/-- The `while (true)` loop of `parse_messages` run for at most `fuel` calls of
`parse_one`; `none` when the fuel runs out first. -/
def parseLoop : Nat → MessageParser → Option (MessageParser × Nat × List Callback)
  | 0, _ => none
  | fuel + 1, p =>
    let step := parseOne p
    if step.1 = .needMoreData then some (step.2.1, 0, step.2.2)
    else (parseLoop fuel step.2.1).map fun r =>
      (r.1, (if step.1 = .success ∨ step.1 = .sequenceGap then 1 else 0) + r.2.1, step.2.2 ++ r.2.2)

/-- With more calls than unparsed bytes the loop has returned what
`parse_messages` returns. -/
theorem parseLoop_parseMessages (p : MessageParser) (fuel : Nat)
    (hf : p.writePos - p.readPos < fuel) : parseLoop fuel p = some (parseMessages p) := by
  induction p using parseMessages.induct generalizing fuel with
  | case1 p step h =>
    obtain ⟨fuel, rfl⟩ : ∃ f, fuel = f + 1 := ⟨fuel - 1, by omega⟩
    rw [parseLoop, parseMessages, dif_pos h]
    simp only [step] at h
    simp [h]
  | case2 p step h ih =>
    obtain ⟨fuel, rfl⟩ : ∃ f, fuel = f + 1 := ⟨fuel - 1, by omega⟩
    have := parseOne_advances p h
    rw [parseLoop, parseMessages, dif_neg h]
    simp only [step] at h ih ⊢
    rw [if_neg h, ih fuel (by omega)]
    rfl

/-- `parse_one` decides from the cursors, the statistics and the unparsed
bytes alone: two parsers that agree on those agree on the outcome. -/
theorem parseOne_congr_window {p q : MessageParser} (hr : p.readPos = q.readPos)
    (hw : p.writePos = q.writePos) (hs : p.stats = q.stats) (hwin : p.window = q.window) :
    (parseOne p).1 = (parseOne q).1 ∧ (parseOne p).2.2 = (parseOne q).2.2 ∧
      (parseOne p).2.1.readPos = (parseOne q).2.1.readPos ∧
      (parseOne p).2.1.stats = (parseOne q).2.1.stats := by
  by_cases h16 : p.writePos - p.readPos < headerSize
  · rw [parseOne_short h16, parseOne_short (by omega)]
    exact ⟨rfl, rfl, hr, hs⟩
  by_cases hz : announcedSize p.window = 0
  · rw [parseOne_malformed (by omega) hz, parseOne_malformed (by omega) (hwin ▸ hz)]
    simp [MessageParser.skipMalformed, hr, hs]
  by_cases hl : p.writePos - p.readPos < announcedSize p.window
  · rw [parseOne_incomplete (by omega) hz hl,
      parseOne_incomplete (by omega) (hwin ▸ hz) (by rw [← hwin]; omega)]
    exact ⟨rfl, rfl, hr, hs⟩
  cases hc : validateChecksum (p.window.take (announcedSize p.window))
  · rw [parseOne_corrupt (by omega) hz (by omega) hc,
      parseOne_corrupt (by omega) (hwin ▸ hz) (by rw [← hwin]; omega) (hwin ▸ hc)]
    simp [MessageParser.skipChecksum, hr, hs]
  · rw [parseOne_deliver (by omega) hz (by omega) hc,
      parseOne_deliver (by omega) (hwin ▸ hz) (by rw [← hwin]; omega) (hwin ▸ hc)]
    simp only [hwin, hr, hs, and_self]

/-- `parse_one` skipped one byte and counted it as a malformed header or as a
checksum error, and nothing else. -/
def SkipsOneByte (p : MessageParser) : Prop :=
  (parseOne p).2.1.readPos = p.readPos + 1 ∧ (parseOne p).2.2 = [] ∧
    (parseOne p).2.1.stats.messagesParsed = p.stats.messagesParsed ∧
    ((parseOne p).1 = .invalidMessage ∧
        (parseOne p).2.1.stats.malformedMessages = p.stats.malformedMessages + 1 ∧
        (parseOne p).2.1.stats.checksumErrors = p.stats.checksumErrors ∨
      (parseOne p).1 = .checksumError ∧
        (parseOne p).2.1.stats.checksumErrors = p.stats.checksumErrors + 1 ∧
        (parseOne p).2.1.stats.malformedMessages = p.stats.malformedMessages)

/-- `parse_one` delivered the frame of known kind `k` at the front of the
window: it moved past the frame, counted it, and invoked one frame callback,
preceded by a gap callback exactly when it reports a gap. -/
def DeliversFrame (p : MessageParser) : Prop :=
  ∃ k, MessageType.ofCode? (MessageHeader.decode p.window).messageType = some k ∧
    ∃ c : Callback, c.isFrame = true ∧
      (parseOne p).2.1.readPos = p.readPos + k.msgSize ∧
      (parseOne p).2.1.stats.messagesParsed = p.stats.messagesParsed + 1 ∧
      ((parseOne p).1 = .success ∧ (parseOne p).2.2 = [c] ∨
        (parseOne p).1 = .sequenceGap ∧ ∃ e r, (parseOne p).2.2 = [.gap e r, c])

/-- **One step of the loop.** Whenever `parse_one` does not ask for more data,
it skipped one byte counting one error, or delivered one frame. -/
theorem parseOne_accounts (p : MessageParser) (h : (parseOne p).1 ≠ .needMoreData) :
    SkipsOneByte p ∨ DeliversFrame p := by
  rcases parseOne_cases p with e | e | e | ⟨k, hk, e⟩
  · rw [e] at h
    exact absurd rfl h
  · exact .inl (by rw [SkipsOneByte, e]; exact ⟨rfl, rfl, rfl, .inl ⟨rfl, rfl, rfl⟩⟩)
  · exact .inl (by rw [SkipsOneByte, e]; exact ⟨rfl, rfl, rfl, .inr ⟨rfl, rfl, rfl⟩⟩)
  · right
    obtain ⟨c, hc, hcb, -, -, -, hmp⟩ :=
      deliver_spec p.stats ((p.window.take k.msgSize).drop headerSize) hk
    obtain ⟨-, -, hm, hgap, -⟩ :=
      checkSequence_spec p.stats (MessageHeader.decode p.window).sequenceNumber
    have hin := checkSequence_inOrder p.stats (MessageHeader.decode p.window).sequenceNumber
    refine ⟨k, hk, c, by simp [Callback.isFrame, hc], ?_⟩
    rw [e]
    dsimp only
    rw [deliver_inOrder, hin, hcb, hmp, hm, hgap]
    refine ⟨rfl, rfl, ?_⟩
    split_ifs <;> simp_all

/-- The count `parse_messages` returns is the number of frames it delivered. -/
theorem parseMessages_frames (p : MessageParser) :
    (parseMessages p).2.1 = ((parseMessages p).2.2.filter Callback.isFrame).length := by
  induction p using parseMessages.induct with
  | case1 p step h =>
    rw [parseMessages, dif_pos h]
    simp [step, parseOne_needMoreData h]
  | case2 p step h ih =>
    rw [parseMessages, dif_neg h]
    simp only [step] at h ih ⊢
    rw [List.filter_append, List.length_append, ← ih]
    rcases parseOne_accounts p h with
      ⟨-, hcb, -, ⟨hres, -⟩ | ⟨hres, -⟩⟩ | ⟨k, -, c, hc, -, -, ⟨hres, hcb⟩ | ⟨hres, e, r, hcb⟩⟩
    · simp [hres, hcb]
    · simp [hres, hcb]
    · simp [hres, hcb, hc]
    · have hg : (Callback.gap e r).isFrame = false := rfl
      simp [hres, hcb, hc, hg, List.filter_cons]

/-- `parse_messages` returns in front of fewer bytes than a quote frame. -/
theorem parseMessages_pending_lt (p : MessageParser) :
    (parseMessages p).1.writePos - (parseMessages p).1.readPos < quoteMsgSize := by
  have h := referenceScan_residue_lt p.stats p.window
  rwa [(parseMessages_scan p).2.2.2, MessageParser.window_length] at h

/-- **`parse_messages` terminates and accounts for every byte consumed.** From
any parser state, the loop has returned within `write_pos_ - read_pos_ + 1`
calls of `parse_one`. Each call decides from the cursors, the statistics and
the bytes in `[read_pos_, write_pos_)` alone. Each call that does not ask for
more data either skips one byte counting one malformed header or one checksum
error, or moves past a whole frame, counts it in `messages_parsed_` and invokes
its one frame callback, preceded by a gap callback when the frame is out of
sequence. The count returned is the number of frames delivered, and fewer than
`QUOTE_MSG_SIZE` bytes remain unparsed. -/
theorem parse_messages_terminates_accounts (p : MessageParser) :
    parseLoop (p.writePos - p.readPos + 1) p = some (parseMessages p) ∧
      (∀ q q' : MessageParser, q.readPos = q'.readPos → q.writePos = q'.writePos →
        q.stats = q'.stats → q.window = q'.window →
        (parseOne q).1 = (parseOne q').1 ∧ (parseOne q).2.2 = (parseOne q').2.2 ∧
          (parseOne q).2.1.readPos = (parseOne q').2.1.readPos ∧
          (parseOne q).2.1.stats = (parseOne q').2.1.stats) ∧
      (∀ q : MessageParser, (parseOne q).1 ≠ .needMoreData → SkipsOneByte q ∨ DeliversFrame q) ∧
      (parseMessages p).2.1 = ((parseMessages p).2.2.filter Callback.isFrame).length ∧
      (parseMessages p).1.writePos - (parseMessages p).1.readPos < quoteMsgSize :=
  ⟨parseLoop_parseMessages p _ (Nat.lt_succ_self _), fun _ _ => parseOne_congr_window,
    parseOne_accounts, parseMessages_frames p, parseMessages_pending_lt p⟩

/-- A parser that expects sequence number 1 and holds a heartbeat numbered 7. -/
def gapHeartbeat : MessageParser :=
  ⟨fun i => (Frame.encode ⟨7, 1000, 3, .heartbeat⟩).getD i 0, 20, 0, 20,
    { ParserStats.init with firstMessage := false, expectedSequence := 1 }⟩

/-- The contract at the parser that finds a heartbeat out of sequence. -/
theorem parse_messages_terminates_accounts_gap :
    parseLoop (gapHeartbeat.writePos - gapHeartbeat.readPos + 1) gapHeartbeat =
        some (parseMessages gapHeartbeat) ∧
      (parseMessages gapHeartbeat).2.1 =
        ((parseMessages gapHeartbeat).2.2.filter Callback.isFrame).length ∧
      (parseMessages gapHeartbeat).1.writePos - (parseMessages gapHeartbeat).1.readPos < quoteMsgSize :=
  have h := parse_messages_terminates_accounts gapHeartbeat
  ⟨h.1, h.2.2.2⟩

/-- The frame is delivered with two callbacks: the gap, then the heartbeat. -/
theorem gap_step_two_callbacks :
    (parseOne gapHeartbeat).1 = .sequenceGap ∧
      (parseOne gapHeartbeat).2.2 = [.gap 1 7, .heartbeat ⟨MessageType.heartbeat.code, 7, 1000, 3⟩] := by
  decide

end MarketFeed.Client
