import MarketFeed.Protocol.Wire

/-!
# Rounding to a double

`percentile_from_histogram` computes `(percentile / 100.0) * total` in double
precision and truncates it. Every value it rounds is a natural number scaled by a
power of two, so a double is modelled here by the natural number it rounds to at
53 significant bits, to nearest, ties to even (`roundToDouble`).

Two facts are all the percentile code needs: rounding is monotone
(`roundToDouble_mono`) and leaves a value with 53 significant bits alone
(`roundToDouble_exact`).
-/

namespace MarketFeed.Stats

/-- `n / d` rounded to the nearest integer, ties to even. -/
def roundNearestEven (n d : Nat) : Nat :=
  if 2 * (n % d) < d then n / d
  else if d < 2 * (n % d) then n / d + 1
  else if n / d % 2 = 0 then n / d else n / d + 1

/-- How many low bits a double drops to hold `P`: none below `2^53`, else as
many as leave 53 significant bits. The search is bounded by `fuel`. -/
def droppedBits (P : Nat) : Nat → Nat
  | 0 => 0
  | fuel + 1 => if P < 2 ^ 53 then 0 else droppedBits (P / 2) fuel + 1

/-- `P` rounded to 53 significant bits, to nearest, ties to even: the double
nearest `P`, for every `P < 2^117`. -/
def roundToDouble (P : Nat) : Nat :=
  roundNearestEven P (2 ^ droppedBits P 64) * 2 ^ droppedBits P 64

/-! ### Rounding a quotient -/

theorem roundNearestEven_le (n d : Nat) : roundNearestEven n d ≤ n / d + 1 := by
  unfold roundNearestEven; split_ifs <;> omega

theorem div_le_roundNearestEven (n d : Nat) : n / d ≤ roundNearestEven n d := by
  unfold roundNearestEven; split_ifs <;> omega

theorem roundNearestEven_of_mod_eq_zero {n d : Nat} (hd : 0 < d) (h : n % d = 0) :
    roundNearestEven n d = n / d := by
  unfold roundNearestEven; rw [if_pos (by omega)]

theorem roundNearestEven_le_of_lt {n d M : Nat} (h : n < M * d) :
    roundNearestEven n d ≤ M :=
  (roundNearestEven_le n d).trans (Nat.div_lt_of_lt_mul (Nat.mul_comm M d ▸ h))

theorem roundNearestEven_mono {n n' d : Nat} (h : n ≤ n') :
    roundNearestEven n d ≤ roundNearestEven n' d := by
  have hq := Nat.div_le_div_right (c := d) h
  rcases Nat.lt_or_eq_of_le hq with hq | hq
  · exact (roundNearestEven_le n d).trans ((Nat.succ_le_of_lt hq).trans (div_le_roundNearestEven n' d))
  · have e := Nat.div_add_mod n d
    have e' := Nat.div_add_mod n' d
    rw [hq] at e
    unfold roundNearestEven
    rw [hq]
    split_ifs <;> omega

/-! ### The bits a double keeps -/

theorem droppedBits_spec (P fuel : Nat) (h : P < 2 ^ (53 + fuel)) :
    P / 2 ^ droppedBits P fuel < 2 ^ 53 ∧
      (0 < droppedBits P fuel → 2 ^ 52 ≤ P / 2 ^ droppedBits P fuel) := by
  induction fuel generalizing P with
  | zero => simpa [droppedBits] using h
  | succ fuel ih =>
    unfold droppedBits
    split_ifs with hP
    · simpa using hP
    · have h2 : P / 2 < 2 ^ (53 + fuel) := by
        rw [Nat.add_succ, Nat.pow_succ] at h; omega
      obtain ⟨ih1, ih2⟩ := ih (P / 2) h2
      have e : P / 2 ^ (droppedBits (P / 2) fuel + 1) = P / 2 / 2 ^ droppedBits (P / 2) fuel := by
        rw [Nat.div_div_eq_div_mul, Nat.pow_succ, Nat.mul_comm]
      rw [e]
      refine ⟨ih1, fun _ => ?_⟩
      rcases Nat.eq_zero_or_pos (droppedBits (P / 2) fuel) with hz | hz
      · rw [hz, Nat.pow_zero, Nat.div_one]; omega
      · exact ih2 hz

theorem droppedBits_of_lt {P : Nat} (h : P < 2 ^ 53) (fuel : Nat) : droppedBits P fuel = 0 := by
  cases fuel with
  | zero => rfl
  | succ fuel => rw [droppedBits, if_pos h]

theorem droppedBits_pos {P : Nat} (h : 2 ^ 53 ≤ P) (fuel : Nat) : 0 < droppedBits P (fuel + 1) := by
  rw [droppedBits, if_neg (Nat.not_lt.mpr h)]
  exact Nat.succ_pos _

theorem droppedBits_mono {P Q : Nat} (h : P ≤ Q) (fuel : Nat) :
    droppedBits P fuel ≤ droppedBits Q fuel := by
  induction fuel generalizing P Q with
  | zero => exact Nat.le_refl 0
  | succ fuel ih =>
    unfold droppedBits
    split_ifs with hP hQ
    · exact Nat.le_refl 0
    · exact Nat.zero_le _
    · omega
    · exact Nat.succ_le_succ (ih (Nat.div_le_div_right h))

/-! ### Rounding to 53 significant bits -/

theorem roundToDouble_of_lt {P : Nat} (h : P < 2 ^ 53) : roundToDouble P = P := by
  rw [roundToDouble, droppedBits_of_lt h, Nat.pow_zero,
    roundNearestEven_of_mod_eq_zero Nat.one_pos (Nat.mod_one P), Nat.div_one, Nat.mul_one]

theorem roundToDouble_le_pow {P : Nat} (h : P < 2 ^ 117) :
    roundToDouble P ≤ 2 ^ (53 + droppedBits P 64) := by
  have hs := (droppedBits_spec P 64 h).1
  rw [roundToDouble, Nat.pow_add]
  exact Nat.mul_le_mul_right _ (roundNearestEven_le_of_lt
    ((Nat.div_lt_iff_lt_mul (Nat.two_pow_pos _)).mp hs))

theorem pow_le_roundToDouble {P : Nat} (h : P < 2 ^ 117) (hd : 0 < droppedBits P 64) :
    2 ^ (52 + droppedBits P 64) ≤ roundToDouble P := by
  have hs := (droppedBits_spec P 64 h).2 hd
  rw [roundToDouble, Nat.pow_add]
  exact Nat.mul_le_mul_right _ (hs.trans (div_le_roundNearestEven _ _))

/-- **Rounding is monotone.** -/
theorem roundToDouble_mono {P Q : Nat} (h : P ≤ Q) (hQ : Q < 2 ^ 117) :
    roundToDouble P ≤ roundToDouble Q := by
  have hd := droppedBits_mono h 64
  rcases Nat.lt_or_eq_of_le hd with hd | hd
  · calc roundToDouble P ≤ 2 ^ (53 + droppedBits P 64) := roundToDouble_le_pow (by omega)
      _ ≤ 2 ^ (52 + droppedBits Q 64) := Nat.pow_le_pow_right (by decide) (by omega)
      _ ≤ roundToDouble Q := pow_le_roundToDouble hQ (by omega)
  · rw [roundToDouble, roundToDouble, hd]
    exact Nat.mul_le_mul_right _ (roundNearestEven_mono h)

/-- **A value with 53 significant bits is a double.** -/
theorem roundToDouble_exact {m j : Nat} (hm : m < 2 ^ 53) (h : m * 2 ^ j < 2 ^ 117) :
    roundToDouble (m * 2 ^ j) = m * 2 ^ j := by
  have hdj : droppedBits (m * 2 ^ j) 64 ≤ j := by
    rcases Nat.eq_zero_or_pos (droppedBits (m * 2 ^ j) 64) with hz | hz
    · omega
    have hs := (droppedBits_spec _ 64 h).2 hz
    have h1 : 2 ^ (52 + droppedBits (m * 2 ^ j) 64) ≤ m * 2 ^ j := by
      rw [Nat.pow_add]
      exact (Nat.mul_le_mul_right _ hs).trans (Nat.div_mul_le_self _ _)
    have h2 : m * 2 ^ j < 2 ^ (53 + j) := by
      rw [Nat.pow_add]; exact Nat.mul_lt_mul_of_pos_right hm (Nat.two_pow_pos _)
    have := (Nat.pow_lt_pow_iff_right (by decide : 1 < 2)).mp (lt_of_le_of_lt h1 h2)
    omega
  have hdvd : 2 ^ droppedBits (m * 2 ^ j) 64 ∣ m * 2 ^ j :=
    Dvd.dvd.mul_left (Nat.pow_dvd_pow 2 hdj) m
  rw [roundToDouble, roundNearestEven_of_mod_eq_zero (Nat.two_pow_pos _) (Nat.mod_eq_zero_of_dvd hdvd),
    Nat.div_mul_cancel hdvd]

end MarketFeed.Stats
