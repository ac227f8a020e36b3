import MarketFeed.Protocol.Wire

/-!
# The subscription frame

`MarketDataSocket::send_subscription` writes `SUBSCRIBE_CMD`, a 16-bit count and
then each symbol id, all little-endian; the count is the list's length cast to
`uint16_t`. `ExchangeSimulator::process_subscription` reads at most 1024 bytes
with one `recv` and accepts the frame when the command byte matches and the
`3 + 2 * count` bytes it announces are all in that read.

A list of at most 510 ids fits the read and comes back unchanged; a longer one
(shorter than 65536, so that its count survives the cast) never fits, and the
server ignores it.
-/

namespace MarketFeed.Protocol

/-- The bytes `send_subscription(symbol_ids)` writes. -/
def sendSubscription (ids : List UInt16) : List UInt8 :=
  subscribeCmd :: leBytes 2 ids.length ++ ids.flatMap fun x => leBytes 2 x.toNat

/-- `sizeof(buffer)` in `process_subscription`. -/
def subscriptionBufferSize : Nat := 1024

/-- What `process_subscription` makes of the `n` bytes one `recv` returned: the
symbol ids to hand to `handle_subscription`, or nothing. -/
def readSubscription (buffer : List UInt8) : Option (List UInt16) :=
  if buffer.head? = some subscribeCmd ∧ 3 ≤ buffer.length then
    let count := field buffer 1 2
    if 3 + count * 2 ≤ buffer.length then
      some ((List.range count).map fun i => UInt16.ofNat (field buffer (3 + i * 2) 2))
    else none
  else none

@[simp] theorem sendSubscription_length (ids : List UInt16) :
    (sendSubscription ids).length = 3 + 2 * ids.length := by
  induction ids with
  | nil => rfl
  | cons x ids ih =>
    simp only [sendSubscription, List.length_cons, List.length_append, leBytes_length,
      List.flatMap_cons] at ih ⊢
    omega

/-- The `i`-th id sits at byte `2 * i` of the id bytes. -/
theorem field_flatMap_leBytes (ids : List UInt16) (i : Nat) (hi : i < ids.length) :
    field (ids.flatMap fun x => leBytes 2 x.toNat) (2 * i) 2 = (ids.get ⟨i, hi⟩).toNat := by
  induction ids generalizing i with
  | nil => cases hi
  | cons x ids ih =>
    rw [List.flatMap_cons]
    cases i with
    | zero => rw [Nat.mul_zero, field_leBytes_append]; exact Nat.mod_eq_of_lt x.toNat_lt_size
    | succ i =>
      rw [field_append_of_le (by simp), leBytes_length,
        show 2 * (i + 1) - 2 = 2 * i by omega]
      exact ih i _

theorem sendSubscription_count (ids : List UInt16) :
    field (sendSubscription ids) 1 2 = ids.length % 65536 :=
  field_leBytes_append

theorem sendSubscription_id (ids : List UInt16) (i : Nat) (hi : i < ids.length) :
    field (sendSubscription ids) (3 + i * 2) 2 = (ids.get ⟨i, hi⟩).toNat := by
  have hf : field (sendSubscription ids) (3 + i * 2) 2 =
      field (leBytes 2 ids.length ++ ids.flatMap fun x => leBytes 2 x.toNat) (2 * i + 2) 2 := by
    rw [show 3 + i * 2 = 2 * i + 2 + 1 by omega]; rfl
  rw [hf, field_append_of_le (by simp), leBytes_length, Nat.add_sub_cancel]
  exact field_flatMap_leBytes ids i hi

theorem uint16_ofNat_toNat (x : UInt16) : UInt16.ofNat x.toNat = x := by
  have h := uint16_ofNat_mod x
  rwa [Nat.mod_eq_of_lt x.toNat_lt_size] at h

/-- A read that holds the whole frame takes at most what the frame announces. -/
theorem field_take (bs : List UInt8) (n off w : Nat) (h : off + w ≤ n) :
    field (bs.take n) off w = field bs off w := by
  simp only [field, List.drop_take]
  rw [List.take_take, Nat.min_eq_left (by omega)]

/-- **The round trip.** A list of at most 510 ids is read back exactly from the
first 1024 bytes of its frame. -/
theorem readSubscription_sendSubscription (ids : List UInt16) (h : ids.length ≤ 510) :
    readSubscription ((sendSubscription ids).take subscriptionBufferSize) = some ids := by
  have hlen : (sendSubscription ids).length ≤ subscriptionBufferSize := by
    simp [subscriptionBufferSize]; omega
  rw [List.take_of_length_le hlen, readSubscription, sendSubscription_count,
    Nat.mod_eq_of_lt (by omega)]
  simp only [sendSubscription_length]
  rw [if_pos ⟨rfl, by omega⟩, if_pos (by omega)]
  congr 1
  refine List.ext_get (by simp) fun i h₁ h₂ => ?_
  simp only [List.get_eq_getElem, List.getElem_map, List.getElem_range]
  rw [sendSubscription_id ids i (by simpa using h₁), uint16_ofNat_toNat]
  rfl

/-- A list of 511 to 65535 ids never fits one read: its count, read correctly,
announces more bytes than the 1024 there are. -/
theorem readSubscription_sendSubscription_long (ids : List UInt16) (h₁ : 510 < ids.length)
    (h₂ : ids.length < 65536) :
    readSubscription ((sendSubscription ids).take subscriptionBufferSize) = none := by
  have hlen : ((sendSubscription ids).take subscriptionBufferSize).length = 1024 := by
    simp [subscriptionBufferSize]; omega
  rw [readSubscription, field_take _ _ _ _ (by decide), sendSubscription_count,
    Nat.mod_eq_of_lt h₂, hlen]
  dsimp only
  rw [if_neg (show ¬3 + ids.length * 2 ≤ 1024 by omega), ite_self]

end MarketFeed.Protocol
