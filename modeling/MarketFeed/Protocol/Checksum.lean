import MarketFeed.Protocol.Wire

/-!
# `calculate_checksum` is linear in exclusive or

`calculate_checksum` folds every aligned 4-byte word of its input into the
accumulator with `^`, and then the trailing bytes. Folding a constant in first
only XORs it into the result (`checksumWords_xor`), so two inputs that differ in
one aligned word have checksums that differ by the XOR of the two words
(`calculateChecksum_change_word`). Four little-endian bytes name a `uint32_t`
uniquely (`leValue_inj`), so a change confined to one word always moves the
checksum: this is what lets `validate_checksum` see it.

A little-endian word is the XOR of its four bytes at shifts 0, 8, 16 and 24,
since their bits do not overlap (`leValue_four`). So the word loop folds in
exactly what the byte loop would (`checksumTail_four`), and for every input
`calculate_checksum` is the byte-wise XOR the design describes
(`calculate_checksum_bytewise`).
-/

namespace MarketFeed.Protocol

/-! ### `^` on `uint32_t` -/

theorem uint32_xor_assoc (a b c : UInt32) : a ^^^ b ^^^ c = a ^^^ (b ^^^ c) :=
  UInt32.toNat.inj (Nat.xor_assoc a.toNat b.toNat c.toNat)

theorem uint32_xor_comm (a b : UInt32) : a ^^^ b = b ^^^ a :=
  UInt32.toNat.inj (Nat.xor_comm a.toNat b.toNat)

@[simp] theorem uint32_xor_self (a : UInt32) : a ^^^ a = 0 :=
  UInt32.toNat.inj (Nat.xor_self a.toNat)

@[simp] theorem uint32_xor_zero (a : UInt32) : a ^^^ 0 = a :=
  UInt32.toNat.inj (Nat.xor_zero a.toNat)

theorem uint32_xor_right_comm (a b c : UInt32) : a ^^^ b ^^^ c = a ^^^ c ^^^ b := by
  rw [uint32_xor_assoc, uint32_xor_comm b, ← uint32_xor_assoc]

@[simp] theorem uint32_zero_xor (a : UInt32) : 0 ^^^ a = a := by
  rw [uint32_xor_comm, uint32_xor_zero]

theorem uint32_xor_xor_cancel_left (x a b : UInt32) : x ^^^ a ^^^ (x ^^^ b) = a ^^^ b := by
  rw [uint32_xor_assoc, ← uint32_xor_assoc a, uint32_xor_comm a x, uint32_xor_assoc,
    ← uint32_xor_assoc, uint32_xor_self, uint32_zero_xor]

/-- Two values that XOR to zero are equal. -/
theorem uint32_eq_of_xor_eq_zero {a b : UInt32} (h : a ^^^ b = 0) : a = b := by
  have := congrArg (· ^^^ b) h
  simp only [uint32_xor_assoc, uint32_xor_self, uint32_xor_zero] at this
  rw [this, uint32_xor_comm, uint32_xor_zero]

/-! ### Little-endian words -/

theorem leValue_lt (bs : List UInt8) : leValue bs < 256 ^ bs.length := by
  induction bs with
  | nil => exact Nat.one_pos
  | cons b bs ih =>
    have hb := b.toNat_lt_size
    have := Nat.mul_le_mul_left 256 (Nat.succ_le_of_lt ih)
    simp only [leValue, List.length_cons, Nat.pow_succ]
    change b.toNat < 256 at hb
    omega

/-- Little-endian bytes of a fixed length name their number uniquely. -/
theorem leValue_inj {xs ys : List UInt8} (hl : xs.length = ys.length)
    (h : leValue xs = leValue ys) : xs = ys := by
  induction xs generalizing ys with
  | nil => exact (List.length_eq_zero.mp hl.symm).symm
  | cons x xs ih =>
    obtain _ | ⟨y, ys⟩ := ys
    · cases hl
    have hx : x.toNat < 256 := x.toNat_lt_size
    have hy : y.toNat < 256 := y.toNat_lt_size
    simp only [leValue] at h
    rw [UInt8.ext_iff.mpr (by omega : x.toNat = y.toNat),
      ih (Nat.succ.inj hl) (by omega)]

/-- Four bytes as the `uint32_t` they spell. -/
theorem uint32_ofNat_leValue_inj {w w' : List UInt8} (hw : w.length = 4) (hw' : w'.length = 4)
    (h : UInt32.ofNat (leValue w) = UInt32.ofNat (leValue w')) : w = w' := by
  have lt : leValue w < 2 ^ 32 := by simpa [hw] using leValue_lt w
  have lt' : leValue w' < 2 ^ 32 := by simpa [hw'] using leValue_lt w'
  have e : leValue w % 2 ^ 32 = leValue w' % 2 ^ 32 := congrArg UInt32.toNat h
  rw [Nat.mod_eq_of_lt lt, Nat.mod_eq_of_lt lt'] at e
  exact leValue_inj (hw.trans hw'.symm) e

/-! ### The two loops -/

theorem checksumTail_xor (acc x : UInt32) (i : Nat) (bs : List UInt8) :
    checksumTail (acc ^^^ x) i bs = checksumTail acc i bs ^^^ x := by
  induction bs generalizing acc i with
  | nil => rfl
  | cons b bs ih => rw [checksumTail, uint32_xor_right_comm, ih, checksumTail]

/-- Folding `x` into the accumulator first XORs it into the result. -/
theorem checksumWords_xor (acc x : UInt32) (i : Nat) (bs : List UInt8) :
    checksumWords (acc ^^^ x) i bs = checksumWords acc i bs ^^^ x := by
  induction acc, i, bs using checksumWords.induct with
  | case1 acc i b0 b1 b2 b3 bs ih =>
    rw [checksumWords, uint32_xor_right_comm, ih]
    rfl
  | case2 acc i bs h =>
    rw [checksumWords.eq_2 _ _ _ h, checksumWords.eq_2 _ _ _ h, checksumTail_xor]

theorem checksumWords_word (acc : UInt32) (i : Nat) {w : List UInt8} (hw : w.length = 4)
    (bs : List UInt8) :
    checksumWords acc i (w ++ bs) = checksumWords acc (i + 4) bs ^^^ UInt32.ofNat (leValue w) := by
  obtain _ | ⟨b0, _ | ⟨b1, _ | ⟨b2, _ | ⟨b3, _ | ⟨_, _⟩⟩⟩⟩⟩ := w <;> cases hw
  rw [← checksumWords_xor]
  rfl

/-- **One aligned word changed.** Inputs that agree but for the word at a
multiple of four have checksums differing by the XOR of the two words. -/
theorem checksumWords_change_word (pre : List UInt8) (hpre : pre.length % 4 = 0)
    {w w' : List UInt8} (hw : w.length = 4) (hw' : w'.length = 4) (post : List UInt8)
    (acc : UInt32) (i : Nat) :
    checksumWords acc i (pre ++ w ++ post) ^^^ checksumWords acc i (pre ++ w' ++ post) =
      UInt32.ofNat (leValue w) ^^^ UInt32.ofNat (leValue w') := by
  obtain ⟨n, hn⟩ : ∃ n, pre.length = 4 * n := ⟨pre.length / 4, by omega⟩
  clear hpre
  induction n generalizing pre acc i with
  | zero =>
    rw [List.length_eq_zero.mp hn, List.nil_append, List.nil_append, checksumWords_word _ _ hw,
      checksumWords_word _ _ hw', uint32_xor_xor_cancel_left]
  | succ n ih =>
    match pre, hn with
    | b0 :: b1 :: b2 :: b3 :: pre, hn =>
      simp only [List.length_cons] at hn
      exact ih pre (acc ^^^ word b0 b1 b2 b3) (i + 4) (by omega)
    | [], hn | [_], hn | [_, _], hn | [_, _, _], hn =>
      simp only [List.length_cons, List.length_nil] at hn; omega

/-- A change confined to one aligned word moves the checksum. -/
theorem calculateChecksum_change_word (pre : List UInt8) (hpre : pre.length % 4 = 0)
    {w w' : List UInt8} (hw : w.length = 4) (hw' : w'.length = 4) (post : List UInt8)
    (hne : w ≠ w') : calculateChecksum (pre ++ w ++ post) ≠ calculateChecksum (pre ++ w' ++ post) :=
  fun h => hne <| uint32_ofNat_leValue_inj hw hw' <| uint32_eq_of_xor_eq_zero <| by
    rw [← checksumWords_change_word pre hpre hw hw' post 0 0]
    exact (congrArg (· ^^^ calculateChecksum (pre ++ w' ++ post)) h).trans (uint32_xor_self _)

/-! ### Word loop and byte loop -/

/-- Below `2^i`, a number and a multiple of `2^i` share no bit: their sum is their XOR. -/
theorem two_pow_mul_add_eq_xor {b i : Nat} (hb : b < 2 ^ i) (a : Nat) :
    2 ^ i * a + b = 2 ^ i * a ^^^ b := by
  refine Nat.eq_of_testBit_eq fun j => ?_
  rw [Nat.testBit_mul_pow_two_add _ hb, Nat.testBit_xor, Nat.testBit_mul_pow_two]
  by_cases hj : j < i
  · simp [hj, Nat.not_le_of_lt hj]
  · have : b < 2 ^ j := lt_of_lt_of_le hb (Nat.pow_le_pow_right (by decide) (by omega))
    simp [hj, Nat.le_of_not_lt hj, Nat.testBit_lt_two_pow this]

theorem two_pow_mul_xor (i a b : Nat) : 2 ^ i * (a ^^^ b) = 2 ^ i * a ^^^ 2 ^ i * b := by
  refine Nat.eq_of_testBit_eq fun j => ?_
  simp only [Nat.testBit_xor, Nat.testBit_mul_pow_two]
  cases decide (j ≥ i) <;> simp

theorem byte_add_eq_xor (b : UInt8) (a : Nat) : b.toNat + 256 * a = b.toNat ^^^ 256 * a := by
  rw [Nat.add_comm, Nat.xor_comm]
  exact two_pow_mul_add_eq_xor b.toNat_lt a

/-- Four little-endian bytes are the XOR of the bytes at their offsets. -/
theorem leValue_four (b0 b1 b2 b3 : UInt8) :
    leValue [b0, b1, b2, b3] =
      b0.toNat ^^^ 2 ^ 8 * b1.toNat ^^^ 2 ^ 16 * b2.toNat ^^^ 2 ^ 24 * b3.toNat := by
  simp only [leValue, Nat.mul_zero, Nat.add_zero]
  rw [byte_add_eq_xor b0, byte_add_eq_xor b1, byte_add_eq_xor b2]
  simp only [show (256 : Nat) = 2 ^ 8 from rfl, two_pow_mul_xor, ← Nat.mul_assoc, ← Nat.pow_add,
    Nat.xor_assoc]

theorem uint32_xor_toNat (a b : UInt32) : (a ^^^ b).toNat = a.toNat ^^^ b.toNat := rfl

theorem uint32_shiftLeft_toNat (a b : UInt32) :
    (a <<< b).toNat = a.toNat <<< (b.toNat % 32) % 2 ^ 32 := by
  show (a.toBitVec <<< (b % 32).toBitVec).toNat = _
  rw [BitVec.shiftLeft_eq', BitVec.toNat_shiftLeft]
  rfl

/-- `static_cast<uint32_t>(b) << (k * 8)` for the `k`-th byte of a word. -/
theorem byte_shift_toNat (b : UInt8) (k : Nat) (hk : k < 4) :
    (b.toUInt32 <<< UInt32.ofNat (k * 8)).toNat = 2 ^ (8 * k) * b.toNat := by
  have hb := b.toNat_lt
  have hks : (UInt32.ofNat (k * 8)).toNat % 32 = 8 * k := by
    rw [UInt32.toNat_ofNat_of_lt (lt_of_lt_of_le (by omega : k * 8 < 32) (by decide))]; omega
  rw [uint32_shiftLeft_toNat, hks, Nat.shiftLeft_eq, Nat.mul_comm]
  apply Nat.mod_eq_of_lt
  calc 2 ^ (8 * k) * b.toNat < 2 ^ (8 * k) * 2 ^ 8 := Nat.mul_lt_mul_of_pos_left hb (Nat.two_pow_pos _)
    _ = 2 ^ (8 * k + 8) := (Nat.pow_add _ _ _).symm
    _ ≤ 2 ^ 32 := Nat.pow_le_pow_right (by decide) (by omega)

theorem word_toNat (b0 b1 b2 b3 : UInt8) :
    (word b0 b1 b2 b3).toNat =
      b0.toNat ^^^ 2 ^ 8 * b1.toNat ^^^ 2 ^ 16 * b2.toNat ^^^ 2 ^ 24 * b3.toNat := by
  have lt : leValue [b0, b1, b2, b3] < 256 ^ 4 := leValue_lt _
  rw [word, UInt32.toNat_ofNat_of_lt lt, leValue_four]

/-- **One word is four bytes.** At an offset that is a multiple of four, folding
a word in is folding its four bytes in at shifts 0, 8, 16 and 24. -/
theorem checksumTail_four (acc : UInt32) {i : Nat} (hi : i % 4 = 0) (b0 b1 b2 b3 : UInt8)
    (bs : List UInt8) :
    checksumTail acc i (b0 :: b1 :: b2 :: b3 :: bs) =
      checksumTail (acc ^^^ word b0 b1 b2 b3) (i + 4) bs := by
  simp only [checksumTail, show (i + 1) % 4 = 1 by omega, show (i + 1 + 1) % 4 = 2 by omega,
    show (i + 1 + 1 + 1) % 4 = 3 by omega, hi]
  congr 1
  apply UInt32.toNat.inj
  simp only [uint32_xor_toNat]
  rw [byte_shift_toNat b0 0 (by decide), byte_shift_toNat b1 1 (by decide),
    byte_shift_toNat b2 2 (by decide), byte_shift_toNat b3 3 (by decide), word_toNat]
  simp only [Nat.xor_assoc, Nat.mul_zero, Nat.pow_zero, Nat.one_mul]

/-- From an aligned offset, the word loop computes what the byte loop alone would. -/
theorem checksumWords_eq_checksumTail (acc : UInt32) (i : Nat) (bs : List UInt8) (hi : i % 4 = 0) :
    checksumWords acc i bs = checksumTail acc i bs := by
  induction acc, i, bs using checksumWords.induct with
  | case1 acc i b0 b1 b2 b3 bs ih =>
    rw [checksumWords, ih (by omega), checksumTail_four acc hi]
  | case2 acc i bs h => rw [checksumWords.eq_2 _ _ _ h]

/-- The checksum as the design states it: the XOR over every byte `data[i]`
shifted left by `8 * (i % 4)`. -/
def byteWiseChecksum (data : List UInt8) : UInt32 :=
  (data.enum.map fun (i, b) => b.toUInt32 <<< UInt32.ofNat (8 * (i % 4))).foldl (· ^^^ ·) 0

theorem checksumTail_eq_fold (acc : UInt32) (i : Nat) (bs : List UInt8) :
    checksumTail acc i bs =
      ((bs.enumFrom i).map fun (i, b) => b.toUInt32 <<< UInt32.ofNat (8 * (i % 4))).foldl
        (· ^^^ ·) acc := by
  induction bs generalizing acc i with
  | nil => rfl
  | cons b bs ih => rw [checksumTail, ih, List.enumFrom_cons, List.map_cons, List.foldl_cons, Nat.mul_comm]

/-- **The word loop agrees with the byte-wise definition.** For every input of
every length, `calculate_checksum` is the XOR of its bytes at shifts
`8 * (i % 4)`. -/
theorem calculate_checksum_bytewise (data : List UInt8) :
    calculateChecksum data = byteWiseChecksum data := by
  rw [calculateChecksum, checksumWords_eq_checksumTail 0 0 data rfl, checksumTail_eq_fold]
  rfl

example : calculateChecksum [1, 2, 3, 4, 5, 6] = byteWiseChecksum [1, 2, 3, 4, 5, 6] := by decide

end MarketFeed.Protocol
