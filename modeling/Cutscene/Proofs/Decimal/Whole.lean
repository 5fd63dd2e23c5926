import Cutscene.Proofs.Decimal.Value
/-!
# Decimal — arithmetic on whole numbers

Sums and differences of doubles that stand for whole numbers are exact as long
as they do not pass `2 ^ 53` (`value?_add`, `value?_sub`), and a difference
that does is rounded to a number that does too (`value?_sub_large`). Order,
conversion to and from words, and the whole numbers beside a double agree with
the numbers stood for (`lt_iff`, `toNat_toUInt32`, `value?_ceiling`).
-/

namespace Cutscene

namespace Decimal

open Float.Model Float.Model.UnpackedFloat

/-! ## Rounding -/

/-- A mantissa without anything below it. -/
def bare (m : Nat) : ExtendedMantissa := ⟨m, false, false⟩

theorem bare_shiftRight (m k : Nat) : bare (m * 2 ^ k) >>> k = bare m := by
  show k.repeat ExtendedMantissa.shiftRightOne (bare (m * 2 ^ k)) = bare m
  induction k generalizing m with
  | zero => rw [Nat.pow_zero, Nat.mul_one]; rfl
  | succ k ih =>
    have heven : m * 2 ^ (k + 1) = m * 2 * 2 ^ k := by ring
    rw [Nat.repeat, heven, ih]
    simp [bare, ExtendedMantissa.shiftRightOne]

theorem mantissa_shiftRight (em : ExtendedMantissa) (k : Nat) :
    (em >>> k).mantissa = em.mantissa / 2 ^ k := by
  show (k.repeat ExtendedMantissa.shiftRightOne em).mantissa = em.mantissa / 2 ^ k
  induction k with
  | zero => rw [Nat.pow_zero, Nat.div_one]; rfl
  | succ k ih =>
    rw [Nat.repeat, Nat.pow_succ, ← Nat.div_div_eq_div_mul, ← ih]
    rfl

/-- Rounding keeps the mantissa or takes the next one. -/
theorem roundedMantissa_bounds (em : ExtendedMantissa) :
    em.mantissa ≤ em.roundedMantissa ∧ em.roundedMantissa ≤ em.mantissa + 1 := by
  obtain ⟨m, round, sticky⟩ := em
  cases round <;> cases sticky <;>
    simp only [ExtendedMantissa.roundedMantissa, ExtendedMantissa.accuracy,
      Accuracy.roundToNearestEven] <;> omega

theorem log2_mul_two_pow {m : Nat} (hm : 0 < m) (k : Nat) : (m * 2 ^ k).log2 = m.log2 + k := by
  obtain ⟨low, high⟩ := (Nat.log2_eq_iff hm.ne').1 rfl
  rw [Nat.log2_eq_iff (by positivity), Nat.pow_add, Nat.add_right_comm, Nat.pow_add]
  exact ⟨Nat.mul_le_mul_right _ low, Nat.mul_lt_mul_of_pos_right high (by positivity)⟩

/-- A mantissa is shifted until 53 bits are left. -/
theorem shiftToTargetExponent_eq {m k : Nat} {e : Int} (hlog : m.log2 = 52 + k)
    (least : -1074 ≤ e + k) :
    shiftToTargetExponent Format.binary64 m e .exact = (bare m >>> k, e + k) := by
  have htarget : Format.binary64.targetExponent (totalExponent m e) = e + k := by
    show max ((m.log2 : Int) + 1 + e - 53) (-1074) = e + k
    rw [hlog]
    omega
  have hshift : (e + k - e).toNat = k := by omega
  rw [shiftToTargetExponent, htarget, shiftToExponent]
  simp only [hshift]
  rfl

/-- **Rounding is exact where no bit is lost.** -/
theorem roundWithAccuracy_exact (s : Sign) {m : Nat} (hm : 0 < m) (k : Nat) {e : Int}
    (low : 2 ^ 52 ≤ m) (high : m < 2 ^ 53) (least : -1074 ≤ e + k) :
    roundWithAccuracy Format.binary64 s (m * 2 ^ k) e .exact = .finite s m (e + k) hm := by
  have hlog' : m.log2 = 52 + 0 := (Nat.log2_eq_iff (by omega)).2 ⟨low, high⟩
  have hlog : (m * 2 ^ k).log2 = 52 + k := by rw [log2_mul_two_pow hm, hlog']
  have hbare : (bare m).roundedMantissa = m := rfl
  have hkeep : bare m >>> 0 = bare m := rfl
  rw [roundWithAccuracy, shiftToTargetExponent_eq hlog least, bare_shiftRight]
  simp only [hbare, shiftToTargetExponent_eq hlog' (show -1074 ≤ e + k + (0 : Nat) by omega), hkeep]
  rw [dif_neg (show ¬ (bare m).mantissa = 0 from hm.ne')]
  simp [bare]

/-- **Rounding leaves 53 bits**, and the exponent that they had or the next
one. -/
theorem roundWithAccuracy_normal (s : Sign) {m k : Nat} {e : Int} (hlog : m.log2 = 52 + k)
    (least : -1074 ≤ e + k) :
    ∃ m' e' hm, roundWithAccuracy Format.binary64 s m e .exact = .finite s m' e' hm ∧
      2 ^ 52 ≤ m' ∧ m' < 2 ^ 53 ∧ e + k ≤ e' ∧ e' ≤ e + k + 1 := by
  have hm : m ≠ 0 := fun heq => by
    rw [heq, Nat.log2_zero] at hlog
    omega
  obtain ⟨low, high⟩ := (Nat.log2_eq_iff hm).1 hlog
  have hbounds := roundedMantissa_bounds (bare m >>> k)
  rw [mantissa_shiftRight] at hbounds
  set rounded := (bare m >>> k).roundedMantissa with hrounded
  have hlow : 2 ^ 52 ≤ m / 2 ^ k := by
    rwa [Nat.le_div_iff_mul_le (by positivity), ← Nat.pow_add]
  have hhigh : m / 2 ^ k < 2 ^ 53 := by
    rw [Nat.div_lt_iff_lt_mul (by positivity), ← Nat.pow_add]
    exact high.trans_eq (congrArg (2 ^ ·) (by omega))
  change 2 ^ 52 ≤ (bare m).mantissa / 2 ^ k at hlow
  change (bare m).mantissa / 2 ^ k < 2 ^ 53 at hhigh
  rw [roundWithAccuracy, shiftToTargetExponent_eq hlog least]
  simp only [← hrounded]
  by_cases hcarry : rounded = 2 ^ 53
  · -- a carry out of the mantissa is shifted away
    have hlog' : rounded.log2 = 52 + 1 := by rw [hcarry, Nat.log2_two_pow]
    have hone : (bare rounded >>> 1).mantissa = 2 ^ 52 := by rw [mantissa_shiftRight, hcarry]; rfl
    simp only [shiftToTargetExponent_eq hlog' (show -1074 ≤ e + k + (1 : Nat) by omega), hone]
    exact ⟨2 ^ 52, e + k + 1, by decide, dif_neg (by decide), le_rfl, by decide, by omega, le_rfl⟩
  · have hlog' : rounded.log2 = 52 + 0 := (Nat.log2_eq_iff (by omega)).2 ⟨by omega, by omega⟩
    have hkeep : (bare rounded >>> 0).mantissa = rounded := rfl
    simp only [shiftToTargetExponent_eq hlog' (show -1074 ≤ e + k + (0 : Nat) by omega), hkeep]
    exact ⟨rounded, e + k + 0, by omega, dif_neg (by omega), by omega, by omega, by omega, by omega⟩

/-- The form `round` puts a mantissa into before it rounds. -/
theorem round_eq_of_short (s : Sign) {m k : Nat} {e : Int} (hlog : m.log2 + k = 52)
    (least : -1074 ≤ e - k) :
    round Format.binary64 s m e =
      roundWithAccuracy Format.binary64 s (m * 2 ^ k) (e - k) .exact := by
  have htarget : Format.binary64.targetExponent (totalExponent m e) = e - k := by
    show max ((m.log2 : Int) + 1 + e - 53) (-1074) = e - k
    omega
  have hshift : (e - (e - k)).toNat = k := by omega
  rw [UnpackedFloat.round, htarget, decreaseExponent]
  simp only [hshift, Nat.shiftLeft_eq]

theorem round_eq_of_long (s : Sign) {m k : Nat} {e : Int} (hlog : m.log2 = 52 + k)
    (least : -1074 ≤ e + k) :
    round Format.binary64 s m e = roundWithAccuracy Format.binary64 s m e .exact := by
  have htarget : Format.binary64.targetExponent (totalExponent m e) = e + k := by
    show max ((m.log2 : Int) + 1 + e - 53) (-1074) = e + k
    omega
  have hshift : (e - (e + k)).toNat = 0 := by omega
  rw [UnpackedFloat.round, htarget, decreaseExponent]
  simp only [hshift, Nat.shiftLeft_zero, Int.natCast_zero, Int.sub_zero]

/-! ## Rounding whole numbers -/

/-- A power of two on one side of an equation of whole numbers. -/
theorem mul_zpow_eq_iff {m n : Nat} {e : Int} :
    (m : ℚ) * 2 ^ e = n ↔ m * 2 ^ e.toNat = n * 2 ^ (-e).toNat := by
  rcases le_total 0 e with he | he
  · obtain ⟨k, rfl⟩ := Int.eq_ofNat_of_zero_le he
    rw [zpow_natCast, Int.toNat_natCast, Int.toNat_of_nonpos (by omega), Nat.pow_zero, Nat.mul_one]
    exact_mod_cast Iff.rfl
  · obtain ⟨k, hk⟩ := Int.eq_ofNat_of_zero_le (Int.neg_nonneg.2 he)
    rw [hk, Int.toNat_natCast, Int.toNat_of_nonpos he, Nat.pow_zero, Nat.mul_one,
      show e = -(k : ℤ) by omega, zpow_neg, zpow_natCast, ← div_eq_mul_inv,
      div_eq_iff (by positivity)]
    exact_mod_cast Iff.rfl

theorem log2_add_eq {m n : Nat} {e : Int} (hn : 0 < n) (h : (m : ℚ) * 2 ^ e = n) :
    (m.log2 : Int) + e = n.log2 := by
  rw [mul_zpow_eq_iff] at h
  have hm : 0 < m := Nat.pos_of_ne_zero fun heq => by
    rw [heq, Nat.zero_mul, eq_comm, Nat.mul_eq_zero] at h
    exact h.elim hn.ne' (Nat.two_pow_pos _).ne'
  have hlog := congrArg Nat.log2 h
  rw [log2_mul_two_pow hm, log2_mul_two_pow hn] at hlog
  omega

/-- Where the leading bits of a whole number up to `2 ^ 53` are followed by
others, those are zeros. -/
theorem two_pow_dvd {m n k : Nat} {e : Int} (hn : 0 < n) (hn' : n ≤ 2 ^ 53)
    (h : (m : ℚ) * 2 ^ e = n) (hlog : m.log2 = 52 + k) (hk : 0 < k) : 2 ^ k ∣ m := by
  have hsum := log2_add_eq hn h
  have hmost : n.log2 < 54 := (Nat.log2_lt hn.ne').2 (hn'.trans_lt (by decide))
  rw [mul_zpow_eq_iff, Int.toNat_of_nonpos (by omega), Nat.pow_zero, Nat.mul_one] at h
  rw [h]
  rcases hn'.eq_or_lt with rfl | hlt
  · rw [← Nat.pow_add]
    rw [Nat.log2_two_pow] at hsum
    exact Nat.pow_dvd_pow 2 (by omega)
  · have := (Nat.log2_lt hn.ne').2 hlt
    exact (Nat.pow_dvd_pow 2 (by omega)).mul_left n

theorem apply_mul {s : Sign} {m n : Nat} {e : Int} (h : (m : ℚ) * 2 ^ e = n) :
    (s.apply m : ℚ) * 2 ^ e = (s.apply n : ℤ) := by
  cases s with
  | negative => simp [Sign.apply, neg_mul, h]
  | positive => simpa [Sign.apply] using h

theorem mul_two_pow_mul_zpow (m k : Nat) (e : Int) :
    ((m * 2 ^ k : Nat) : ℚ) * 2 ^ e = m * 2 ^ (e + k) := by
  rw [zpow_add₀ two_ne_zero, zpow_natCast]
  push_cast
  ring

/-- A mantissa of at most 53 bits is not rounded. -/
theorem stands_round_of_short (s : Sign) {m n k : Nat} {e : Int} (hn : 0 < n) (hn' : n ≤ 2 ^ 64)
    (h : (m : ℚ) * 2 ^ e = n) (hlog : m.log2 + k = 52) :
    Stands (round Format.binary64 s m e) (s.apply n) := by
  have hsum := log2_add_eq hn h
  have hmost : n.log2 < 65 := (Nat.log2_lt hn.ne').2 (hn'.trans_lt (by decide))
  have hm : 0 < m := Nat.pos_of_ne_zero fun heq => by
    rw [heq, Nat.cast_zero, zero_mul] at h
    exact hn.ne (by exact_mod_cast h)
  have hm' : 0 < m * 2 ^ k := by positivity
  obtain ⟨low, high⟩ := (Nat.log2_eq_iff hm'.ne').1 ((log2_mul_two_pow hm k).trans hlog)
  have hexact := roundWithAccuracy_exact s hm' 0 low high (show -1074 ≤ e - k + (0 : Nat) by omega)
  rw [Nat.pow_zero, Nat.mul_one] at hexact
  rw [round_eq_of_short s hlog (by omega), hexact]
  refine .finite hm' low high (by omega) (by omega) (apply_mul ?_)
  rw [mul_two_pow_mul_zpow, ← h]
  congr 2
  omega

/-- **A whole number up to `2 ^ 53` is not rounded.** -/
theorem stands_round (s : Sign) {m n : Nat} {e : Int} (hn : 0 < n) (hn' : n ≤ 2 ^ 53)
    (h : (m : ℚ) * 2 ^ e = n) : Stands (round Format.binary64 s m e) (s.apply n) := by
  rcases le_or_gt m.log2 52 with hshort | hlong
  · exact stands_round_of_short s hn (hn'.trans (by decide)) h (Nat.add_sub_cancel' hshort)
  -- the bits after the first 53 are zeros
  obtain ⟨k, hlog⟩ := Nat.exists_eq_add_of_lt hlong
  have hlog' : m.log2 = 52 + (k + 1) := hlog
  obtain ⟨m', rfl⟩ := two_pow_dvd hn hn' h hlog' (Nat.succ_pos k)
  rw [Nat.mul_comm] at hlog' h ⊢
  have hm' : 0 < m' := Nat.pos_of_ne_zero fun heq => by
    rw [heq, Nat.zero_mul, Nat.log2_zero] at hlog'
    omega
  have hsum := log2_add_eq hn h
  have hmost : n.log2 < 54 := (Nat.log2_lt hn.ne').2 (hn'.trans_lt (by decide))
  rw [log2_mul_two_pow hm'] at hlog'
  obtain ⟨low, high⟩ := (Nat.log2_eq_iff hm'.ne').1 (show m'.log2 = 52 by omega)
  rw [log2_mul_two_pow hm'] at hsum
  rw [round_eq_of_long s ((log2_mul_two_pow hm' _).trans hlog') (by omega),
    roundWithAccuracy_exact s hm' _ low high (by omega)]
  refine .finite hm' low high (by omega) (by omega) (apply_mul ?_)
  exact (mul_two_pow_mul_zpow ..).symm.trans h

/-- A whole number from `2 ^ 53` on is rounded to another one. -/
theorem stands_round_large (s : Sign) {m n : Nat} {e : Int} (hn : 2 ^ 53 ≤ n) (hn' : n ≤ 2 ^ 64)
    (h : (m : ℚ) * 2 ^ e = n) :
    ∃ n' : Nat, 2 ^ 53 ≤ n' ∧ Stands (round Format.binary64 s m e) (s.apply n') := by
  have hpos : 0 < n := Nat.lt_of_lt_of_le (by decide) hn
  rcases le_or_gt m.log2 52 with hshort | hlong
  · exact ⟨n, hn, stands_round_of_short s hpos hn' h (Nat.add_sub_cancel' hshort)⟩
  obtain ⟨k, hlog⟩ := Nat.exists_eq_add_of_lt hlong
  have hlog' : m.log2 = 52 + (k + 1) := hlog
  have hsum := log2_add_eq hpos h
  have hleast : 53 ≤ n.log2 := (Nat.le_log2 hpos.ne').2 hn
  have hmost : n.log2 < 65 := (Nat.log2_lt hpos.ne').2 (hn'.trans_lt (by decide))
  obtain ⟨m', e', hm', hround, low, high, hfrom, hto⟩ :=
    roundWithAccuracy_normal s hlog' (show -1074 ≤ e + (k + 1 : Nat) by omega)
  have he' : 1 ≤ e' := by omega
  refine ⟨m' * 2 ^ e'.toNat, ?_, ?_⟩
  · calc 2 ^ 53 = 2 ^ 52 * 2 ^ 1 := by decide
      _ ≤ m' * 2 ^ e'.toNat := Nat.mul_le_mul low (Nat.pow_le_pow_right (by decide) (by omega))
  · rw [round_eq_of_long s hlog' (by omega), hround]
    refine .finite hm' low high (by omega) (by omega) (apply_mul ?_)
    rw [mul_zpow_eq_iff, Int.toNat_of_nonpos (show -e' ≤ 0 by omega), Nat.pow_zero, Nat.mul_one]

/-! ## Sums and differences -/

theorem normalize_apply (s : Sign) {m : Nat} (hm : 0 < m) (e : Int) (zeroSign : Sign) :
    normalize Format.binary64 (s.apply m) e zeroSign = round Format.binary64 s m e := by
  cases s with
  | negative =>
    have hlt : compare (-m : ℤ) 0 = .lt := Int.compare_eq_lt.2 (by omega)
    simp only [Sign.apply, UnpackedFloat.normalize, hlt, neg_neg, Int.toNat_natCast]
  | positive =>
    have hgt : compare (m : ℤ) 0 = .gt := Int.compare_eq_gt.2 (by omega)
    simp only [Sign.apply, UnpackedFloat.normalize, hgt, Int.toNat_natCast]

/-- A power of two keeps the sign. -/
theorem exists_natCast_of_pos {m e n : Int} (hm : 0 < m) (h : (m : ℚ) * 2 ^ e = n) :
    ∃ k l : Nat, 0 < k ∧ 0 < l ∧ m = k ∧ n = l ∧ (k : ℚ) * 2 ^ e = l := by
  have hn : 0 < n := by
    have : (0 : ℚ) < m * 2 ^ e := mul_pos (by exact_mod_cast hm) (by positivity)
    exact_mod_cast h ▸ this
  lift m to ℕ using hm.le
  lift n to ℕ using hn.le
  exact ⟨m, n, by omega, by omega, rfl, rfl, by exact_mod_cast h⟩

theorem exists_apply {m e n : Int} (hm : m ≠ 0) (h : (m : ℚ) * 2 ^ e = n) :
    ∃ (s : Sign) (k l : Nat), 0 < k ∧ 0 < l ∧ m = s.apply k ∧ n = s.apply l ∧
      (k : ℚ) * 2 ^ e = l := by
  rcases lt_or_gt_of_ne hm with hneg | hpos
  · have h' : ((-m : ℤ) : ℚ) * 2 ^ e = (-n : ℤ) := by
      rw [Int.cast_neg, Int.cast_neg, neg_mul, h]
    obtain ⟨k, l, hk, hl, hmk, hnl, hkl⟩ := exists_natCast_of_pos (by omega : 0 < -m) h'
    exact ⟨.negative, k, l, hk, hl, by rw [Sign.apply, ← hmk, neg_neg],
      by rw [Sign.apply, ← hnl, neg_neg], hkl⟩
  · obtain ⟨k, l, hk, hl, hmk, hnl, hkl⟩ := exists_natCast_of_pos hpos h
    exact ⟨.positive, k, l, hk, hl, hmk, hnl, hkl⟩

/-- **A whole number up to `2 ^ 53` is not rounded**, whatever its sign. -/
theorem stands_normalize {m e n : Int} (zeroSign : Sign) (hn : |n| ≤ 2 ^ 53)
    (h : (m : ℚ) * 2 ^ e = n) : Stands (normalize Format.binary64 m e zeroSign) n := by
  rcases eq_or_ne m 0 with rfl | hm
  · have hzero : n = 0 := by
      rw [Int.cast_zero, zero_mul, eq_comm, Int.cast_eq_zero] at h
      exact h
    rw [hzero]
    exact .zero zeroSign
  obtain ⟨s, k, l, hk, hl, rfl, rfl, hkl⟩ := exists_apply hm h
  have hsize : |s.apply l| = l := by cases s <;> simp [Sign.apply]
  rw [normalize_apply s hk]
  exact stands_round s hl (by omega) hkl

/-- A positive one from `2 ^ 53` on is rounded to another one. -/
theorem stands_normalize_large {m e n : Int} (zeroSign : Sign) (hn : 2 ^ 53 ≤ n) (hn' : n ≤ 2 ^ 64)
    (h : (m : ℚ) * 2 ^ e = n) :
    ∃ n' : Int, 2 ^ 53 ≤ n' ∧ Stands (normalize Format.binary64 m e zeroSign) n' := by
  have hm : 0 < m := by
    have : (0 : ℚ) < m * 2 ^ e := by rw [h]; exact_mod_cast (by omega : 0 < n)
    exact_mod_cast pos_of_mul_pos_left this (by positivity)
  obtain ⟨k, l, hk, hl, rfl, rfl, hkl⟩ := exists_natCast_of_pos hm h
  obtain ⟨n', hn'', hstands⟩ := stands_round_large .positive (by omega) (by omega) hkl
  refine ⟨n', by omega, ?_⟩
  rw [show (k : ℤ) = Sign.positive.apply k from rfl, normalize_apply .positive hk]
  exact hstands

/-! ## Sums and differences -/

theorem sign_apply_neg (s : Sign) (n : Int) : (-s).apply n = -s.apply n := by
  cases s
  · exact (neg_neg n).symm
  · rfl

theorem Stands.neg {u : UnpackedFloat} {n : Int} (h : Stands u n) : Stands u.neg (-n) := by
  cases h with
  | zero s => exact .zero (-s)
  | finite hm low high least most h =>
    refine .finite hm low high least most ?_
    rw [sign_apply_neg, Int.cast_neg, Int.cast_neg, neg_mul, h]

theorem apply_shiftLeft (s : Sign) (m k : Nat) (e : Int) :
    (s.apply (m <<< k : Nat) : ℚ) * 2 ^ e = (s.apply m : ℚ) * 2 ^ (e + k) := by
  have h := mul_two_pow_mul_zpow m k e
  rw [Nat.shiftLeft_eq]
  cases s <;> simp only [Sign.apply, Int.cast_neg, Int.cast_natCast, neg_mul, h]

/-- **Only the sum of the numbers is rounded**, and none when one is zero. -/
theorem Stands.add_eq {u v : UnpackedFloat} {a b : Int} (hu : Stands u a) (hv : Stands v b) :
    Stands (add Format.binary64 u v) (a + b) ∨
      ∃ m e : Int, add Format.binary64 u v = normalize Format.binary64 m e .positive ∧
        (m : ℚ) * 2 ^ e = (a + b : ℤ) := by
  cases hu with
  | zero s =>
    rw [zero_add]
    cases hv with
    | zero s' => exact .inl (by cases s <;> cases s' <;> exact .zero _)
    | finite hm low high least most h => exact .inl (.finite hm low high least most h)
  | @finite s m e a hm low high least most h =>
    cases hv with
    | zero s' =>
      rw [add_zero]
      exact .inl (.finite hm low high least most h)
    | @finite s' m' e' b hm' low' high' least' most' h' =>
      -- both mantissas are shifted to the smaller exponent
      refine .inr ⟨_, min e e', rfl, ?_⟩
      rw [Int.cast_add, add_mul, apply_shiftLeft, apply_shiftLeft, Int.cast_add, ← h, ← h']
      congr 3 <;> omega

theorem Stands.add {u v : UnpackedFloat} {a b : Int} (hu : Stands u a) (hv : Stands v b)
    (h : |a + b| ≤ 2 ^ 53) : Stands (add Format.binary64 u v) (a + b) := by
  obtain hsum | ⟨m, e, heq, hsum⟩ := hu.add_eq hv
  · exact hsum
  · rw [heq]
    exact stands_normalize .positive h hsum

theorem Stands.add_large {u v : UnpackedFloat} {a b : Int} (hu : Stands u a) (hv : Stands v b)
    (h : 2 ^ 53 ≤ a + b) (h' : a + b ≤ 2 ^ 64) :
    ∃ n : Int, 2 ^ 53 ≤ n ∧ Stands (UnpackedFloat.add Format.binary64 u v) n := by
  obtain hsum | ⟨m, e, heq, hsum⟩ := hu.add_eq hv
  · exact ⟨a + b, h, hsum⟩
  · rw [heq]
    exact stands_normalize_large .positive h h' hsum

/-- A difference is a sum with the second number's negative. -/
theorem Stands.sub_eq {u v : UnpackedFloat} {a b : Int} (hu : Stands u a) (hv : Stands v b) :
    UnpackedFloat.sub Format.binary64 u v = UnpackedFloat.add Format.binary64 u v.neg := by
  cases hu with
  | zero s =>
    cases hv with
    | zero s' => cases s <;> cases s' <;> rfl
    | finite => rfl
  | finite =>
    cases hv with
    | zero => rfl
    | finite =>
      simp only [UnpackedFloat.sub, UnpackedFloat.neg, UnpackedFloat.add, sign_apply_neg,
        Int.sub_eq_add_neg]

/-! ## Doubles -/

section Doubles

variable {x y : Float} {a b : Int}

theorem value?_pack {u : UnpackedFloat} {n : Int} (h : Stands u n) :
    value? ⟨Float.Model.pack u⟩ = some (n : ℚ) :=
  value?_eq_some_iff.2 (h.unpack_pack.symm ▸ h)

theorem value?_neg (hx : value? x = some (a : ℚ)) : value? (-x) = some ((-a : ℤ) : ℚ) :=
  value?_pack (value?_eq_some_iff.1 hx).neg

/-- **A sum up to `2 ^ 53` is exact.** -/
theorem value?_add (hx : value? x = some (a : ℚ)) (hy : value? y = some (b : ℚ))
    (h : |a + b| ≤ 2 ^ 53) : value? (x + y) = some ((a + b : ℤ) : ℚ) :=
  value?_pack ((value?_eq_some_iff.1 hx).add (value?_eq_some_iff.1 hy) h)

/-- **A difference up to `2 ^ 53` is exact.** -/
theorem value?_sub (hx : value? x = some (a : ℚ)) (hy : value? y = some (b : ℚ))
    (h : |a - b| ≤ 2 ^ 53) : value? (x - y) = some ((a - b : ℤ) : ℚ) := by
  have hu := value?_eq_some_iff.1 hx
  have hv := value?_eq_some_iff.1 hy
  have hsub := hu.add hv.neg (by rwa [← Int.sub_eq_add_neg])
  rw [← hu.sub_eq hv, ← Int.sub_eq_add_neg] at hsub
  exact value?_pack hsub

/-- **A larger difference stays large.** -/
theorem value?_sub_large (hx : value? x = some (a : ℚ)) (hy : value? y = some (b : ℚ))
    (h : 2 ^ 53 ≤ a - b) (h' : a - b ≤ 2 ^ 64) :
    ∃ n : Int, 2 ^ 53 ≤ n ∧ value? (x - y) = some (n : ℚ) := by
  have hu := value?_eq_some_iff.1 hx
  have hv := value?_eq_some_iff.1 hy
  obtain ⟨n, hn, hsub⟩ := hu.add_large hv.neg (by omega) (by omega)
  rw [← hu.sub_eq hv] at hsub
  exact ⟨n, hn, value?_pack hsub⟩

end Doubles

/-! ## Order -/

/-- With 53 bits in both mantissas, the larger exponent decides. -/
theorem mul_zpow_lt_of_lt {m m' : Nat} {e e' : Int} (high : m < 2 ^ 53) (low' : 2 ^ 52 ≤ m')
    (h : e < e') : (m : ℚ) * 2 ^ e < m' * 2 ^ e' := by
  have hpow : (0 : ℚ) < 2 ^ e := by positivity
  calc (m : ℚ) * 2 ^ e < 2 ^ 53 * 2 ^ e := mul_lt_mul_of_pos_right (by exact_mod_cast high) hpow
    _ = 2 ^ 52 * 2 ^ (e + 1) := by rw [zpow_add₀ two_ne_zero]; ring
    _ ≤ m' * 2 ^ e' := mul_le_mul (by exact_mod_cast low')
      (zpow_le_zpow_right₀ one_le_two (by omega)) (by positivity) (by positivity)

theorem compare_sizes {m m' : Nat} {e e' : Int} (low : 2 ^ 52 ≤ m) (high : m < 2 ^ 53)
    (low' : 2 ^ 52 ≤ m') (high' : m' < 2 ^ 53) :
    (compare e e').then (compare m m') = compare ((m : ℚ) * 2 ^ e) (m' * 2 ^ e') := by
  rcases lt_trichotomy e e' with hlt | rfl | hgt
  · rw [compare_lt_iff_lt.2 hlt, compare_lt_iff_lt.2 (mul_zpow_lt_of_lt high low' hlt)]
    rfl
  · have hpow : (0 : ℚ) < 2 ^ e := by positivity
    have hmono : StrictMono fun m : ℕ => (m : ℚ) * 2 ^ e := fun _ _ hlt =>
      mul_lt_mul_of_pos_right (Nat.cast_lt.2 hlt) hpow
    rw [compare_eq_iff_eq.2 (rfl : e = e), Ordering.eq_then, ← cmp_eq_compare, ← cmp_eq_compare,
      hmono.cmp_map_eq]
  · rw [compare_gt_iff_gt.2 hgt, compare_gt_iff_gt.2 (mul_zpow_lt_of_lt high' low hgt)]
    rfl

theorem compare_intCast (a b : Int) : compare (a : ℚ) b = compare a b := by
  rw [← cmp_eq_compare, ← cmp_eq_compare, (Int.cast_strictMono (R := ℚ)).cmp_map_eq]

theorem compare_neg_neg (q r : ℚ) : compare (-q) (-r) = (compare q r).swap := by
  rw [← cmp_eq_compare, ← cmp_eq_compare, cmp_swap, StrictAnti.cmp_map_eq fun _ _ => neg_lt_neg]

theorem neg_of_negative {m : Nat} {e n : Int} (hm : 0 < m)
    (h : (Sign.negative.apply m : ℚ) * 2 ^ e = n) : n < 0 := by
  have hsize : (0 : ℚ) < m * 2 ^ e := by positivity
  have : (n : ℚ) < 0 := by
    rw [← h]
    simpa [Sign.apply] using hsize
  exact_mod_cast this

theorem pos_of_positive {m : Nat} {e n : Int} (hm : 0 < m)
    (h : (Sign.positive.apply m : ℚ) * 2 ^ e = n) : 0 < n := by
  have : (0 : ℚ) < n := by
    rw [← h, show Sign.positive.apply m = m from rfl, Int.cast_natCast]
    positivity
  exact_mod_cast this

/-- **Forms are ordered as the numbers they stand for.** -/
theorem Stands.compare_eq {u v : UnpackedFloat} {a b : Int} (hu : Stands u a) (hv : Stands v b) :
    u.compare v = some (compare a b) := by
  cases hu with
  | zero s =>
    cases hv with
    | zero s' => rfl
    | @finite s' m' e' b hm' low' high' least' most' h' =>
      cases s' with
      | negative => rw [compare_gt_iff_gt.2 (neg_of_negative hm' h')]; rfl
      | positive => rw [compare_lt_iff_lt.2 (pos_of_positive hm' h')]; rfl
  | @finite s m e a hm low high least most h =>
    cases hv with
    | zero s' =>
      cases s with
      | negative => rw [compare_lt_iff_lt.2 (neg_of_negative hm h)]; rfl
      | positive => rw [compare_gt_iff_gt.2 (pos_of_positive hm h)]; rfl
    | @finite s' m' e' b hm' low' high' least' most' h' =>
      cases s with
      | negative =>
        cases s' with
        | negative =>
          rw [← compare_intCast, ← h, ← h']
          simp only [Sign.apply, Int.cast_neg, Int.cast_natCast, neg_mul, compare_neg_neg,
            ← compare_sizes low high low' high']
          rfl
        | positive =>
          rw [compare_lt_iff_lt.2 ((neg_of_negative hm h).trans (pos_of_positive hm' h'))]
          rfl
      | positive =>
        cases s' with
        | negative =>
          rw [compare_gt_iff_gt.2 ((neg_of_negative hm' h').trans (pos_of_positive hm h))]
          rfl
        | positive =>
          rw [← compare_intCast, ← h, ← h']
          simp only [Sign.apply, Int.cast_natCast, ← compare_sizes low high low' high']
          rfl

section Comparisons

variable {x y : Float} {a b : Int}

theorem isFinite_of_value? {q : ℚ} (hx : value? x = some q) : x.isFinite = true := by
  rw [value?, Scaled.ofFloat?_eq] at hx
  show x.toModel.unpack.isFinite = true
  cases hform : x.toModel.unpack with
  | notANumber => rw [hform] at hx; cases hx
  | infinity s => rw [hform] at hx; cases hx
  | zero s => rfl
  | finite s m e hm => rfl

/-- **Doubles are ordered as the numbers they stand for.** -/
theorem lt_iff (hx : value? x = some (a : ℚ)) (hy : value? y = some (b : ℚ)) : x < y ↔ a < b := by
  have hcompare := (value?_eq_some_iff.1 hx).compare_eq (value?_eq_some_iff.1 hy)
  show decide (x.toModel < y.toModel) = true ↔ a < b
  rw [decide_eq_true_iff]
  show (x.toModel.unpack.compare y.toModel.unpack == some .lt) = true ↔ a < b
  rw [hcompare]
  simp [compare_lt_iff_lt]

theorem le_iff (hx : value? x = some (a : ℚ)) (hy : value? y = some (b : ℚ)) : x ≤ y ↔ a ≤ b := by
  have hcompare := (value?_eq_some_iff.1 hx).compare_eq (value?_eq_some_iff.1 hy)
  show decide (x.toModel ≤ y.toModel) = true ↔ a ≤ b
  rw [decide_eq_true_iff]
  show (x.toModel.unpack.compare y.toModel.unpack).any (·.isLE) = true ↔ a ≤ b
  rw [hcompare]
  exact Int.isLE_compare

end Comparisons

/-! ## Words -/

/-- The size of a number has its form's sign taken away. -/
theorem exists_size {s : Sign} {m : Nat} {e n : Int} (h : (s.apply m : ℚ) * 2 ^ e = n) :
    ∃ l : Nat, n = s.apply l ∧ m * 2 ^ e.toNat = l * 2 ^ (-e).toNat := by
  have hsize : (0 : ℚ) ≤ m * 2 ^ e := by positivity
  cases s with
  | negative =>
    have h' : (m : ℚ) * 2 ^ e = (-n : ℤ) := by
      rw [Int.cast_neg, ← h]
      simp [Sign.apply]
    obtain ⟨l, hl⟩ := Int.eq_ofNat_of_zero_le (show 0 ≤ -n by exact_mod_cast h' ▸ hsize)
    rw [hl, Int.cast_natCast] at h'
    exact ⟨l, by rw [Sign.apply, ← hl, neg_neg], mul_zpow_eq_iff.1 h'⟩
  | positive =>
    have h' : (m : ℚ) * 2 ^ e = n := h
    obtain ⟨l, rfl⟩ := Int.eq_ofNat_of_zero_le (show 0 ≤ n by exact_mod_cast h' ▸ hsize)
    exact ⟨l, rfl, mul_zpow_eq_iff.1 (by exact_mod_cast h')⟩

theorem roundToInt_eq (s : Sign) (m : Nat) (e : Int) :
    roundToInt s m e = s.apply (m * 2 ^ e.toNat / 2 ^ (-e).toNat : Nat) := by
  have hup : (e - 0).toNat = e.toNat := by rw [Int.sub_zero]
  have hdown : (0 - (e - (e.toNat : ℤ))).toNat = (-e).toNat := by omega
  rw [roundToInt, decreaseExponent]
  simp only [hup, shiftToExponent, hdown, mantissa_shiftRight, Nat.shiftLeft_eq]
  rfl

/-- Taking the whole part of a form gives the number it stands for. -/
theorem Stands.toInt_eq {u : UnpackedFloat} {n : Int} (h : Stands u n) (least most : Int) :
    u.toInt least most = n := by
  cases h with
  | zero s => rfl
  | finite hm low high _ _ h =>
    obtain ⟨l, rfl, hl⟩ := exists_size h
    rw [toInt, roundToInt_eq, hl, Nat.mul_div_cancel _ (Nat.two_pow_pos _)]

theorem toNat_toUInt32 {x : Float} {n : Nat} (hx : value? x = some ((n : ℤ) : ℚ))
    (hn : n < UInt32.size) : x.toUInt32.toNat = n := by
  have hstands := value?_eq_some_iff.1 hx
  show (UInt32.ofNatClamp (x.toModel.unpack.toInt 0 (UInt32.size - 1)).toNat).toNat = n
  rw [hstands.toInt_eq, Int.toNat_natCast, UInt32.ofNatClamp, dif_pos hn]
  rfl

/-- **A word's double stands for the word.** -/
theorem value?_toFloat (w : UInt32) : value? w.toFloat = some ((w.toNat : ℤ) : ℚ) := by
  have hsize := w.toNat_lt
  refine value?_pack (stands_normalize .positive ?_ ?_)
  · rw [Nat.abs_cast]
    omega
  · rw [zpow_zero, mul_one]

theorem value?_toFloat_of_le {w : UInt64} (h : w.toNat ≤ 2 ^ 53) :
    value? w.toFloat = some ((w.toNat : ℤ) : ℚ) := by
  refine value?_pack (stands_normalize .positive ?_ ?_)
  · rw [Nat.abs_cast]
    omega
  · rw [zpow_zero, mul_one]

/-- **The double of any word stands for a whole number**, if not for the word
itself. -/
theorem exists_value?_toFloat (w : UInt64) : ∃ n : Int, value? w.toFloat = some (n : ℚ) := by
  rcases le_total w.toNat (2 ^ 53) with hsmall | hlarge
  · exact ⟨_, value?_toFloat_of_le hsmall⟩
  · have hsize := w.toNat_lt
    have hword : ((w.toNat : ℤ) : ℚ) * 2 ^ (0 : ℤ) = (w.toNat : ℤ) := by rw [zpow_zero, mul_one]
    obtain ⟨n, -, hstands⟩ :=
      stands_normalize_large .positive (by exact_mod_cast hlarge) (by exact_mod_cast hsize.le) hword
    exact ⟨n, value?_pack hstands⟩

/-! ## Whole numbers beside a double -/

theorem value?_ofWhole (negative : Bool) {n : Nat} (h : n ≤ 2 ^ 53) :
    value? (ofWhole negative n) = some ((if negative then -n else n : ℤ) : ℚ) := by
  have hword : n.toUInt64.toNat = n := by
    rw [UInt64.toNat_ofNat']
    omega
  have hvalue := value?_toFloat_of_le (show n.toUInt64.toNat ≤ 2 ^ 53 by omega)
  rw [hword] at hvalue
  cases negative with
  | false => exact hvalue
  | true => exact value?_neg hvalue

/-- A finite double has a mantissa of at most 53 bits. -/
theorem mantissa_lt {x : Float} {s : Scaled} (h : Scaled.ofFloat? x = some s) :
    s.mantissa < 2 ^ 53 := by
  have hform : Unpacked x.toModel.unpack := unpacked_unpack _
  rw [Scaled.ofFloat?_eq] at h
  generalize x.toModel.unpack = u at h hform
  cases hform with
  | notANumber => cases h
  | infinity s => cases h
  | zero s => cases h; exact Nat.two_pow_pos 53
  | normal s hm low high => cases h; exact high
  | subnormal s hm high => cases h; exact high.trans (by decide)

variable {s : Scaled}

theorem below_eq (s : Scaled) : s.below = 2 ^ (-s.exponent).toNat := by
  rw [Scaled.below, Nat.shiftLeft_eq, Nat.one_mul]

theorem below_pos (s : Scaled) : 0 < s.below := by
  rw [below_eq]
  positivity

/-- Where nothing is left below the line, the number is whole. -/
theorem exists_value_eq (h : s.mantissa % s.below = 0) : ∃ n : Int, s.value = n := by
  obtain ⟨whole, hwhole⟩ := Nat.dvd_of_mod_eq_zero h
  have hsize : (s.mantissa : ℚ) * 2 ^ s.exponent = (whole * 2 ^ s.exponent.toNat : Nat) := by
    rw [mul_zpow_eq_iff, hwhole, below_eq]
    ring
  rw [Scaled.value]
  generalize whole * 2 ^ s.exponent.toNat = n at hsize
  cases s.negative with
  | false => exact ⟨n, by simpa using hsize⟩
  | true => exact ⟨-n, by simp [neg_mul, hsize]⟩

/-- Where something is left, the number lies between two whole ones. -/
theorem between_of_mod_ne_zero (h : s.mantissa % s.below ≠ 0) :
    (s.mantissa / s.below : Nat) < (s.mantissa : ℚ) * 2 ^ s.exponent ∧
      (s.mantissa : ℚ) * 2 ^ s.exponent < (s.mantissa / s.below : Nat) + 1 := by
  have hneg : s.exponent < 0 := by
    by_contra hle
    rw [below_eq, Int.toNat_of_nonpos (by omega), Nat.pow_zero, Nat.mod_one] at h
    exact h rfl
  have hline : (s.mantissa : ℚ) * 2 ^ s.exponent = s.mantissa / s.below := by
    obtain ⟨k, hk⟩ := Int.eq_ofNat_of_zero_le (show 0 ≤ -s.exponent by omega)
    rw [below_eq, hk, Int.toNat_natCast, show s.exponent = -(k : ℤ) by omega, zpow_neg,
      zpow_natCast, div_eq_mul_inv]
    norm_cast
  have hpos : (0 : ℚ) < s.below := by exact_mod_cast below_pos s
  have hsum := Nat.div_add_mod' s.mantissa s.below
  have hlt := Nat.mod_lt s.mantissa (below_pos s)
  rw [hline, lt_div_iff₀ hpos, div_lt_iff₀ hpos]
  constructor
  · exact_mod_cast (by omega : s.mantissa / s.below * s.below < s.mantissa)
  · exact_mod_cast (by rw [Nat.succ_mul]; omega :
      s.mantissa < (s.mantissa / s.below + 1) * s.below)

/-- **The least whole number that is not below a double.** -/
theorem value?_ceiling {x : Float} {q : ℚ} (h : value? x = some q) :
    value? (ceiling x) = some (⌈q⌉ : ℚ) := by
  obtain ⟨s, hs, rfl⟩ := Option.map_eq_some_iff.1 h
  rw [ceiling, hs]
  by_cases hwhole : s.mantissa % s.below = 0
  · obtain ⟨n, hn⟩ := exists_value_eq hwhole
    simp only [if_pos hwhole]
    rw [h, hn, Int.ceil_intCast]
  obtain ⟨hlow, hhigh⟩ := between_of_mod_ne_zero hwhole
  have hsize : s.mantissa / s.below < 2 ^ 53 := (Nat.div_le_self _ _).trans_lt (mantissa_lt hs)
  simp only [if_neg hwhole]
  rw [value?_ofWhole s.negative (by split <;> omega), Scaled.value]
  congr 2
  rw [eq_comm, Int.ceil_eq_iff]
  generalize s.mantissa / s.below = whole at hlow hhigh
  cases s.negative with
  | false =>
    push_cast
    exact ⟨by simpa using hlow, by simpa using hhigh.le⟩
  | true =>
    push_cast
    exact ⟨by simp only [if_true]; linarith, by simp only [if_true]; linarith⟩

/-- **The greatest whole number that is not above a double.** -/
theorem value?_floor {x : Float} {q : ℚ} (h : value? x = some q) :
    value? (floor x) = some (⌊q⌋ : ℚ) := by
  obtain ⟨s, hs, rfl⟩ := Option.map_eq_some_iff.1 h
  rw [floor, hs]
  by_cases hwhole : s.mantissa % s.below = 0
  · obtain ⟨n, hn⟩ := exists_value_eq hwhole
    simp only [if_pos hwhole]
    rw [h, hn, Int.floor_intCast]
  obtain ⟨hlow, hhigh⟩ := between_of_mod_ne_zero hwhole
  have hsize : s.mantissa / s.below < 2 ^ 53 := (Nat.div_le_self _ _).trans_lt (mantissa_lt hs)
  simp only [if_neg hwhole]
  rw [value?_ofWhole s.negative (by split <;> omega), Scaled.value]
  congr 2
  rw [eq_comm, Int.floor_eq_iff]
  generalize s.mantissa / s.below = whole at hlow hhigh
  cases s.negative with
  | false =>
    push_cast
    exact ⟨by simpa using hlow.le, by simpa using hhigh⟩
  | true =>
    push_cast
    exact ⟨by simp only [if_true]; linarith, by simp only [if_true]; linarith⟩

end Decimal

end Cutscene
