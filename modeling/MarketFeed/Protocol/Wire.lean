import Mathlib

/-!
# The wire format of `protocol.h`

A frame is a packed little-endian `MessageHeader`, the payload its kind fixes,
and a trailing `calculate_checksum` word. Multi-byte fields are read and written
the way `memcpy` moves them on a little-endian host: `leValue` reads bytes least
significant first and `leBytes w n` writes the low `w` bytes of `n`. A `double`
travels as its 64-bit pattern, so payload prices are `UInt64` here and NaNs are
ordinary values.
-/

namespace MarketFeed.Protocol

/-! ### Little-endian fields -/

/-- The low `w` bytes of `n`, least significant first. -/
def leBytes : Nat → Nat → List UInt8
  | 0, _ => []
  | w + 1, n => UInt8.ofNat n :: leBytes w (n / 256)

/-- The number whose little-endian bytes are the list. -/
def leValue : List UInt8 → Nat
  | [] => 0
  | b :: bs => b.toNat + 256 * leValue bs

@[simp] theorem leBytes_length (w n : Nat) : (leBytes w n).length = w := by
  induction w generalizing n <;> simp [leBytes, *]

theorem leValue_leBytes (w n : Nat) : leValue (leBytes w n) = n % 256 ^ w := by
  induction w generalizing n with
  | zero => simp [leBytes, leValue, Nat.mod_one]
  | succ w ih =>
    have hb : (UInt8.ofNat n).toNat = n % 256 := rfl
    rw [leBytes, leValue, hb, ih, Nat.pow_succ', Nat.mod_mul]

@[simp] theorem uint16_ofNat_mod (x : UInt16) : UInt16.ofNat (x.toNat % 65536) = x := by
  rw [Nat.mod_eq_of_lt x.toNat_lt_size]
  exact UInt16.toNat.inj (UInt16.toNat_ofNat_of_lt x.toNat_lt_size)

@[simp] theorem uint32_ofNat_mod (x : UInt32) : UInt32.ofNat (x.toNat % 4294967296) = x := by
  rw [Nat.mod_eq_of_lt x.toNat_lt_size]
  exact UInt32.toNat.inj (UInt32.toNat_ofNat_of_lt x.toNat_lt_size)

@[simp] theorem uint64_ofNat_mod (x : UInt64) :
    UInt64.ofNat (x.toNat % 18446744073709551616) = x := by
  rw [Nat.mod_eq_of_lt x.toNat_lt_size]
  exact UInt64.toNat.inj (UInt64.toNat_ofNat_of_lt x.toNat_lt_size)

theorem uint64_ofNat_add (a b : Nat) :
    UInt64.ofNat (a + b) = UInt64.ofNat a + UInt64.ofNat b :=
  UInt64.ext (by simp only [UInt64.toNat_add]; exact Nat.add_mod _ _ _)

theorem foldl_add_ofNat (f : Nat → Nat) (a : Nat) (l : List Nat) :
    l.foldl (fun acc n => acc + UInt64.ofNat (f n)) (UInt64.ofNat a) =
      UInt64.ofNat (a + (l.map f).sum) := by
  induction l generalizing a with
  | nil => rfl
  | cons n l ih => simp only [List.foldl_cons, ← uint64_ofNat_add, ih, List.map_cons,
      List.sum_cons, Nat.add_assoc]

theorem sum_range_indicator (c : Prop) [Decidable c] (b : Nat) :
    ∀ N, ((List.range N).map fun n => if c ∧ b = n then 1 else 0).sum = if c ∧ b < N then 1 else 0
  | 0 => by simp
  | N + 1 => by
    rw [List.range_succ, List.map_append, List.sum_append, sum_range_indicator c b N]
    by_cases hc : c
    · simp only [hc, true_and, List.map_cons, List.map_nil, List.sum_cons, List.sum_nil]
      split_ifs <;> omega
    · simp [hc]

/-- Reading `w` bytes at offset `off` of a byte string. -/
def field (bs : List UInt8) (off w : Nat) : Nat := leValue ((bs.drop off).take w)

theorem field_append_left {xs ys : List UInt8} {off w : Nat} (h : off + w ≤ xs.length) :
    field (xs ++ ys) off w = field xs off w := by
  simp only [field, List.drop_append_eq_append_drop, List.take_append_eq_append_take,
    List.length_drop]
  rw [Nat.sub_eq_zero_of_le (by omega), List.take_zero, List.append_nil]

theorem field_leBytes_append {w : Nat} {n : Nat} {ys : List UInt8} :
    field (leBytes w n ++ ys) 0 w = n % 256 ^ w := by
  simp [field, List.take_left', leValue_leBytes]

theorem field_append_of_le {xs ys : List UInt8} {off w : Nat} (h : xs.length ≤ off) :
    field (xs ++ ys) off w = field ys (off - xs.length) w := by
  simp [field, List.drop_append_eq_append_drop, List.drop_eq_nil_of_le h]

/-! ### Sizes and kinds -/

def headerSize : Nat := 16
def tradePayloadSize : Nat := 12
def quotePayloadSize : Nat := 24
def checksumSize : Nat := 4
def tradeMsgSize : Nat := headerSize + tradePayloadSize + checksumSize
def quoteMsgSize : Nat := headerSize + quotePayloadSize + checksumSize
def heartbeatMsgSize : Nat := headerSize + checksumSize
def maxSymbols : Nat := 500
def subscribeCmd : UInt8 := 0xFF

/-- `MessageType`, the closed set of frame kinds. -/
inductive MessageType
  | trade
  | quote
  | heartbeat
  deriving DecidableEq, Repr

/-- The value of the enumerator, as stored in `message_type`. -/
def MessageType.code : MessageType → UInt16
  | .trade => 0x01
  | .quote => 0x02
  | .heartbeat => 0x03

/-- `static_cast<MessageType>` followed by the `switch`: only 1, 2 and 3 name a kind. -/
def MessageType.ofCode? (c : UInt16) : Option MessageType :=
  if c = 0x01 then some .trade
  else if c = 0x02 then some .quote
  else if c = 0x03 then some .heartbeat
  else none

@[simp] theorem MessageType.ofCode?_code (k : MessageType) : ofCode? k.code = some k := by
  cases k <;> rfl

def MessageType.msgSize : MessageType → Nat
  | .trade => tradeMsgSize
  | .quote => quoteMsgSize
  | .heartbeat => heartbeatMsgSize

/-- `get_message_size`: the frame length of a kind, `0` for anything else. -/
def getMessageSize (c : UInt16) : Nat :=
  match MessageType.ofCode? c with
  | some k => k.msgSize
  | none => 0

@[simp] theorem getMessageSize_code (k : MessageType) : getMessageSize k.code = k.msgSize := by
  simp [getMessageSize]

theorem getMessageSize_le (c : UInt16) : getMessageSize c ≤ quoteMsgSize := by
  unfold getMessageSize
  split
  · rename_i k _; cases k <;> decide
  · exact Nat.zero_le _

/-! ### Records -/

/-- `MessageHeader`, sixteen packed bytes. -/
structure MessageHeader where
  messageType : UInt16
  sequenceNumber : UInt32
  timestampNs : UInt64
  symbolId : UInt16
  deriving DecidableEq, Repr

/-- The header a `reinterpret_cast` sees at the start of `bs`. -/
def MessageHeader.decode (bs : List UInt8) : MessageHeader where
  messageType := UInt16.ofNat (field bs 0 2)
  sequenceNumber := UInt32.ofNat (field bs 2 4)
  timestampNs := UInt64.ofNat (field bs 6 8)
  symbolId := UInt16.ofNat (field bs 14 2)

/-- The bytes `memcpy(out_buffer, &header, sizeof(header))` writes. -/
def MessageHeader.encode (h : MessageHeader) : List UInt8 :=
  leBytes 2 h.messageType.toNat ++ leBytes 4 h.sequenceNumber.toNat ++
    leBytes 8 h.timestampNs.toNat ++ leBytes 2 h.symbolId.toNat

/-- `TradePayload`: the price as a `double` bit pattern and the quantity. -/
structure TradePayload where
  price : UInt64
  quantity : UInt32
  deriving DecidableEq, Repr

def TradePayload.decode (bs : List UInt8) : TradePayload where
  price := UInt64.ofNat (field bs 0 8)
  quantity := UInt32.ofNat (field bs 8 4)

def TradePayload.encode (p : TradePayload) : List UInt8 :=
  leBytes 8 p.price.toNat ++ leBytes 4 p.quantity.toNat

/-- `QuotePayload`, prices again as `double` bit patterns. -/
structure QuotePayload where
  bidPrice : UInt64
  bidQuantity : UInt32
  askPrice : UInt64
  askQuantity : UInt32
  deriving DecidableEq, Repr

def QuotePayload.decode (bs : List UInt8) : QuotePayload where
  bidPrice := UInt64.ofNat (field bs 0 8)
  bidQuantity := UInt32.ofNat (field bs 8 4)
  askPrice := UInt64.ofNat (field bs 12 8)
  askQuantity := UInt32.ofNat (field bs 20 4)

def QuotePayload.encode (p : QuotePayload) : List UInt8 :=
  leBytes 8 p.bidPrice.toNat ++ leBytes 4 p.bidQuantity.toNat ++
    leBytes 8 p.askPrice.toNat ++ leBytes 4 p.askQuantity.toNat

@[simp] theorem MessageHeader.encode_length (h : MessageHeader) : h.encode.length = headerSize := by
  simp [encode, headerSize]

@[simp] theorem TradePayload.encode_length (p : TradePayload) :
    p.encode.length = tradePayloadSize := by
  simp [encode, tradePayloadSize]

@[simp] theorem QuotePayload.encode_length (p : QuotePayload) :
    p.encode.length = quotePayloadSize := by
  simp [encode, quotePayloadSize]

theorem MessageHeader.decode_encode (h : MessageHeader) (rest : List UInt8) :
    decode (h.encode ++ rest) = h := by
  simp [decode, encode, field_append_of_le, field_leBytes_append]

theorem TradePayload.decode_encode (p : TradePayload) (rest : List UInt8) :
    decode (p.encode ++ rest) = p := by
  simp [decode, encode, field_append_of_le, field_leBytes_append]

theorem QuotePayload.decode_encode (p : QuotePayload) (rest : List UInt8) :
    decode (p.encode ++ rest) = p := by
  simp [decode, encode, field_append_of_le, field_leBytes_append]

/-! ### `calculate_checksum` -/

/-- Four bytes read as one little-endian `uint32_t`. -/
def word (b0 b1 b2 b3 : UInt8) : UInt32 := UInt32.ofNat (leValue [b0, b1, b2, b3])

/-- The byte loop of `calculate_checksum`: byte `i` is folded in at shift `(i % 4) * 8`. -/
def checksumTail (acc : UInt32) (i : Nat) : List UInt8 → UInt32
  | [] => acc
  | b :: bs => checksumTail (acc ^^^ (b.toUInt32 <<< UInt32.ofNat (i % 4 * 8))) (i + 1) bs

/-- The word loop of `calculate_checksum`; `i` counts the bytes already folded. -/
def checksumWords (acc : UInt32) (i : Nat) : List UInt8 → UInt32
  | b0 :: b1 :: b2 :: b3 :: bs => checksumWords (acc ^^^ word b0 b1 b2 b3) (i + 4) bs
  | bs => checksumTail acc i bs

/-- `calculate_checksum(data, len)` over the `len` bytes of `data`. -/
def calculateChecksum (data : List UInt8) : UInt32 := checksumWords 0 0 data

/-! ### Frames as the generator writes them -/

/-- The payload each kind carries; a heartbeat carries none. -/
inductive Payload
  | trade (p : TradePayload)
  | quote (p : QuotePayload)
  | heartbeat
  deriving DecidableEq, Repr

def Payload.kind : Payload → MessageType
  | .trade _ => .trade
  | .quote _ => .quote
  | .heartbeat => .heartbeat

def Payload.encode : Payload → List UInt8
  | .trade p => p.encode
  | .quote p => p.encode
  | .heartbeat => []

/-- A frame whose `message_type` is its payload's kind, so that it cannot be
built with a mismatching kind field. -/
structure Frame where
  sequenceNumber : UInt32
  timestampNs : UInt64
  symbolId : UInt16
  payload : Payload
  deriving DecidableEq, Repr

def Frame.header (f : Frame) : MessageHeader :=
  ⟨f.payload.kind.code, f.sequenceNumber, f.timestampNs, f.symbolId⟩

/-- Header and payload: the bytes the checksum covers. -/
def Frame.body (f : Frame) : List UInt8 := f.header.encode ++ f.payload.encode

/-- The bytes `generate_tick_for_symbol` and `generate_heartbeat` leave in
`out_buffer`: body, then the checksum of the body. -/
def Frame.encode (f : Frame) : List UInt8 :=
  f.body ++ leBytes 4 (calculateChecksum f.body).toNat

theorem Frame.body_length (f : Frame) :
    f.body.length + checksumSize = f.payload.kind.msgSize := by
  rcases f with ⟨_, _, _, _ | _ | _⟩ <;> simp [body, Payload.encode, Payload.kind, MessageType.msgSize] <;> decide

theorem Frame.encode_length (f : Frame) : f.encode.length = f.payload.kind.msgSize := by
  simp [encode, ← f.body_length, checksumSize]

theorem Frame.encode_eq (f : Frame) : f.encode =
    f.header.encode ++ (f.payload.encode ++ leBytes 4 (calculateChecksum f.body).toNat) := by
  simp [Frame.encode, Frame.body]

theorem Frame.decode_encode (f : Frame) (rest : List UInt8) :
    MessageHeader.decode (f.encode ++ rest) = f.header := by
  rw [f.encode_eq, List.append_assoc, MessageHeader.decode_encode]

theorem Frame.decode_trade {f : Frame} {p : TradePayload} (h : f.payload = .trade p) :
    TradePayload.decode (f.encode.drop headerSize) = p := by
  rw [f.encode_eq, List.drop_left' (by simp), h, Payload.encode, TradePayload.decode_encode]

theorem Frame.decode_quote {f : Frame} {p : QuotePayload} (h : f.payload = .quote p) :
    QuotePayload.decode (f.encode.drop headerSize) = p := by
  rw [f.encode_eq, List.drop_left' (by simp), h, Payload.encode, QuotePayload.decode_encode]

end MarketFeed.Protocol
