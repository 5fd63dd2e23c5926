import Cutscene.Decimal.Rounding
import Mathlib
/-!
# Decimal — the number a double stands for

A finite double stands for a rational number (`value?`). Its parts are those
of core's unpacked form (`ofFloat?_eq`), which arithmetic is computed on.

`Stands` is the form in which arithmetic is followed: a zero, or a mantissa
of 53 bits, that stands for a whole number. A double stands for a whole number
exactly when its unpacked form does (`value?_eq_some_iff`), and a form that
stands for one is kept by packing (`unpack_pack`).
-/

namespace Cutscene

namespace Decimal

open Float.Model Float.Model.UnpackedFloat

/-- The number that a sign, a mantissa and an exponent stand for. -/
def Scaled.value (s : Scaled) : ℚ :=
  (if s.negative then -s.mantissa else s.mantissa : ℤ) * 2 ^ s.exponent

/-- The number a double stands for; nothing when it is not finite. -/
def value? (x : Float) : Option ℚ := (Scaled.ofFloat? x).map Scaled.value

/-! ## Unpacked forms -/

/-- Does the sign say negative? -/
def isNegative : Sign → Bool
  | .negative => true
  | .positive => false

/-- The parts of an unpacked form. -/
def Scaled.ofUnpacked? : UnpackedFloat → Option Scaled
  | .notANumber => none
  | .infinity _ => none
  | .zero s => some ⟨isNegative s, 0, -1074⟩
  | .finite s m e _ => some ⟨isNegative s, m, e⟩

/-- What unpacking yields: a finite form has a mantissa of 53 bits, or a
shorter one with the least exponent. -/
inductive Unpacked : UnpackedFloat → Prop
  | notANumber : Unpacked .notANumber
  | infinity (s : Sign) : Unpacked (.infinity s)
  | zero (s : Sign) : Unpacked (.zero s)
  | normal (s : Sign) {m : Nat} {e : Int} (hm : 0 < m) (low : 2 ^ 52 ≤ m) (high : m < 2 ^ 53)
      (least : -1074 ≤ e) (most : e ≤ 971) : Unpacked (.finite s m e hm)
  | subnormal (s : Sign) {m : Nat} (hm : 0 < m) (high : m < 2 ^ 52) :
      Unpacked (.finite s m (-1074) hm)

section Fields

variable (b : BitVec Format.binary64.numBits)

theorem toNat_unpackMantissa : (unpackMantissa b).toNat = b.toNat % Scaled.leading := by
  simp [unpackMantissa, Scaled.leading]

theorem toNat_unpackExponent : (unpackExponent b).toNat = b.toNat / Scaled.leading % 2048 := by
  simp [unpackExponent, Scaled.leading, Nat.shiftRight_eq_div_pow]

theorem toNat_unpackSign : (unpackSign b).toNat = b.toNat / 2 ^ 63 := by
  have hb : b.toNat < 2 ^ 64 := b.isLt
  simp [unpackSign, Nat.shiftRight_eq_div_pow]
  omega

theorem unpackExponent_eq_iff {n : Nat} (hn : n < 2048) :
    unpackExponent b = BitVec.ofNat _ n ↔ b.toNat / Scaled.leading % 2048 = n := by
  rw [← toNat_unpackExponent, ← BitVec.toNat_inj, BitVec.toNat_ofNat]
  show _ = n % 2048 ↔ _
  rw [Nat.mod_eq_of_lt hn]

theorem isNegative_unpackSign :
    isNegative (Sign.ofBitVec (unpackSign b)) = decide (b.toNat / 2 ^ 63 = 1) := by
  rw [← toNat_unpackSign]
  generalize unpackSign b = v
  revert v
  decide

/-- The leading bit is put before the mantissa of a normal double. -/
theorem toNat_leading_append (v : BitVec 52) : (1#1 ++ v).toNat = v.toNat + Scaled.leading := by
  rw [BitVec.toNat_append, Nat.shiftLeft_eq, Nat.or_comm,
    show (1#1).toNat * 2 ^ 52 = 2 ^ 52 from rfl, Nat.or_two_pow_eq_add_of_lt v.isLt]
  rfl

/-- The parts of an unpacked word, read from the word. -/
theorem Scaled.ofUnpacked?_unpack :
    ofUnpacked? (unpack Format.binary64 b) =
      if b.toNat / leading % 2048 = 2047 then none
      else if b.toNat / leading % 2048 = 0 then
        some ⟨decide (b.toNat / 2 ^ 63 = 1), b.toNat % leading, -1074⟩
      else some ⟨decide (b.toNat / 2 ^ 63 = 1), b.toNat % leading + leading,
        (b.toNat / leading % 2048 : Nat) - 1075⟩ := by
  have hones : unpackExponent b = -1#_ ↔ b.toNat / leading % 2048 = 2047 :=
    unpackExponent_eq_iff b (by decide)
  have hzero : unpackExponent b = 0#_ ↔ b.toNat / leading % 2048 = 0 :=
    unpackExponent_eq_iff b (by decide)
  have hexponent := toNat_unpackExponent b
  have hmantissa := toNat_unpackMantissa b
  have hbias : (Format.binary64.exponentBias +
      Format.binary64.mantissaBitsWithoutImplicit : Int) = 1075 := rfl
  simp only [UnpackedFloat.unpack, hones, hzero, hbias, hexponent]
  by_cases h : b.toNat / leading % 2048 = 2047
  · rw [if_pos h, if_pos h]
    split <;> rfl
  rw [if_neg h, if_neg h]
  by_cases h' : b.toNat / leading % 2048 = 0
  · rw [if_pos h', if_pos h', ← isNegative_unpackSign, ← hmantissa]
    by_cases hm : unpackMantissa b = 0#_
    · rw [dif_pos hm, hm]
      rfl
    · rw [dif_neg hm, h']
      rfl
  · rw [if_neg h', if_neg h', ← isNegative_unpackSign, ← hmantissa, ← toNat_leading_append]
    rfl

end Fields

/-- **A double's parts are those of its unpacked form.** -/
theorem Scaled.ofFloat?_eq (x : Float) : ofFloat? x = ofUnpacked? x.toModel.unpack := by
  have hsign : signBit x = decide (x.toBits.toNat / 2 ^ 63 = 1) := by
    rw [signBit, beq_eq_decide, decide_eq_decide, ← UInt64.toNat_inj, UInt64.toNat_shiftRight,
      Nat.shiftRight_eq_div_pow]
    rfl
  rw [ofFloat?, Float.Model.unpack, ofUnpacked?_unpack, hsign]
  rfl

/-- **Unpacking yields such forms only.** -/
theorem unpacked_unpack (b : BitVec Format.binary64.numBits) :
    Unpacked (UnpackedFloat.unpack Format.binary64 b) := by
  have hmost : (unpackExponent b).toNat < 2048 := (unpackExponent b).isLt
  have hmantissa : (unpackMantissa b).toNat < 2 ^ 52 := (unpackMantissa b).isLt
  rw [UnpackedFloat.unpack]
  split
  · split
    · exact .infinity _
    · exact .notANumber
  rename_i hones
  split
  · split
    · exact .zero _
    · rename_i hzero _
      simp only [hzero]
      exact .subnormal _ _ hmantissa
  · rename_i hzero
    have hones' : (unpackExponent b).toNat ≠ 2047 := fun heq => hones (BitVec.eq_of_toNat_eq heq)
    have hzero' : (unpackExponent b).toNat ≠ 0 := fun heq => hzero (BitVec.eq_of_toNat_eq heq)
    have hbias : (Format.binary64.exponentBias +
        Format.binary64.mantissaBitsWithoutImplicit : Int) = 1075 := rfl
    have hleading := toNat_leading_append (unpackMantissa b)
    simp only [hbias]
    refine .normal _ _ ?_ ?_ ?_ ?_
    · rw [hleading]
      exact Nat.le_add_left _ _
    · rw [hleading, Scaled.leading]
      omega
    · omega
    · omega

/-! ## Forms that stand for whole numbers -/

/-- The form stands for a whole number, as a zero or with a mantissa of 53
bits. -/
inductive Stands : UnpackedFloat → Int → Prop
  | zero (s : Sign) : Stands (.zero s) 0
  | finite {s : Sign} {m : Nat} {e n : Int} (hm : 0 < m) (low : 2 ^ 52 ≤ m) (high : m < 2 ^ 53)
      (least : -1074 ≤ e) (most : e ≤ 971) (h : (s.apply m : ℚ) * 2 ^ e = n) :
      Stands (.finite s m e hm) n

theorem value_ofUnpacked {s : Sign} {m : Nat} {e : Int} :
    Scaled.value ⟨isNegative s, m, e⟩ = (s.apply m : ℚ) * 2 ^ e := by
  cases s <;> rfl

/-- A mantissa of fewer bits, far below the point, stands for no whole
number. -/
theorem apply_mul_ne_of_lt {s : Sign} {m k : Nat} (hm : 0 < m) (high : m < 2 ^ 52) (hk : 52 ≤ k)
    (n : Int) : (s.apply m : ℚ) * 2 ^ (-k : ℤ) ≠ n := by
  intro h
  rw [zpow_neg, zpow_natCast, ← div_eq_mul_inv, div_eq_iff (by positivity)] at h
  have hint : s.apply m = n * 2 ^ k := by exact_mod_cast h
  have hdvd : (2 ^ k : ℤ) ∣ s.apply m := ⟨n, by rw [hint, mul_comm]⟩
  have hdvd' : (2 ^ k : ℤ) ∣ m := by
    cases s with
    | negative => exact Int.dvd_neg.1 hdvd
    | positive => exact hdvd
  have hle : (2 ^ k : ℤ) ≤ m := Int.le_of_dvd (by exact_mod_cast hm) hdvd'
  have hlt : (m : ℤ) < 2 ^ k := by
    exact_mod_cast high.trans_le (Nat.pow_le_pow_right (by decide) hk)
  exact hle.not_gt hlt

/-- **A double stands for a whole number exactly when its unpacked form
does.** -/
theorem value?_eq_some_iff {x : Float} {n : Int} :
    value? x = some (n : ℚ) ↔ Stands x.toModel.unpack n := by
  rw [value?, Scaled.ofFloat?_eq]
  have hform : Unpacked x.toModel.unpack := unpacked_unpack _
  generalize x.toModel.unpack = u at hform
  constructor
  · intro h
    cases hform with
    | notANumber => simp [Scaled.ofUnpacked?] at h
    | infinity s => simp [Scaled.ofUnpacked?] at h
    | zero s =>
      simp only [Scaled.ofUnpacked?, Option.map_some, value_ofUnpacked, Option.some.injEq] at h
      have : n = 0 := by
        cases s <;> simpa [Sign.apply, eq_comm] using h
      exact this ▸ .zero s
    | normal s hm low high least most =>
      simp only [Scaled.ofUnpacked?, Option.map_some, value_ofUnpacked, Option.some.injEq] at h
      exact .finite hm low high least most h
    | subnormal s hm high =>
      simp only [Scaled.ofUnpacked?, Option.map_some, value_ofUnpacked, Option.some.injEq] at h
      exact absurd h (apply_mul_ne_of_lt hm high (by decide : 52 ≤ 1074) n)
  · intro h
    cases h with
    | zero s => cases s <;> simp [Scaled.ofUnpacked?, Scaled.value]
    | finite hm low high least most h =>
      simp only [Scaled.ofUnpacked?, Option.map_some, value_ofUnpacked, h]

/-! ## Packing -/

/-- What the fields of a normal double are unpacked to. -/
theorem unpack_packComponents (s : Sign) {exponent : BitVec 11} (mantissa : BitVec 52)
    (hones : exponent.toNat ≠ 2047) (hzero : exponent.toNat ≠ 0) :
    UnpackedFloat.unpack Format.binary64 (packComponents Format.binary64 s exponent mantissa) =
      .finite s (mantissa.toNat + Scaled.leading) (exponent.toNat - 1075) (Nat.succ_pos _) := by
  have hones' : exponent ≠ -1#11 := fun heq => hones (congrArg BitVec.toNat heq)
  have hzero' : exponent ≠ 0#11 := fun heq => hzero (congrArg BitVec.toNat heq)
  rw [UnpackedFloat.unpack, unpackSign_packComponents]
  simp only [unpackMantissa_packComponents, unpackExponent_packComponents, Sign.ofBitVec_toBitVec]
  rw [if_neg hones', if_neg hzero']
  simp only [toNat_leading_append]
  rfl

/-- A form with a mantissa of 53 bits is kept by packing. -/
theorem unpack_pack_normal (s : Sign) {m : Nat} {e : Int} (hm : 0 < m) (low : 2 ^ 52 ≤ m)
    (high : m < 2 ^ 53) (least : -1074 ≤ e) (most : e ≤ 971) :
    UnpackedFloat.unpack Format.binary64 (UnpackedFloat.pack Format.binary64 (.finite s m e hm)) =
      .finite s m e hm := by
  have hlog : m.log2 = 52 := (Nat.log2_eq_iff (by omega)).2 ⟨low, high⟩
  have hbiased : (e + Format.binary64.exponentBias +
      Format.binary64.mantissaBitsWithoutImplicit).toNat = (e + 1075).toNat :=
    congrArg Int.toNat (show e + 1023 + 52 = e + 1075 by omega)
  have hpack : UnpackedFloat.pack Format.binary64 (.finite s m e hm) =
      packComponents Format.binary64 s (BitVec.ofNat 11 (e + 1075).toNat) (BitVec.ofNat 52 m) := by
    rw [UnpackedFloat.pack]
    simp only [hbiased, hlog]
    rw [if_neg (show ¬ 2 ^ 11 ≤ (e + 1075).toNat + 1 by omega),
      if_pos (show 52 + 1 = Format.binary64.mantissaBits from rfl)]
  have hexponent : (BitVec.ofNat 11 (e + 1075).toNat).toNat = (e + 1075).toNat := by
    rw [BitVec.toNat_ofNat]
    omega
  rw [hpack, unpack_packComponents s _ (by omega) (by omega)]
  congr 1
  · rw [BitVec.toNat_ofNat, Scaled.leading]
    omega
  · omega

/-- **A form that stands for a whole number is kept by packing.** -/
theorem Stands.unpack_pack {u : UnpackedFloat} {n : Int} (h : Stands u n) :
    (Float.Model.pack u).unpack = u := by
  cases h with
  | zero s => cases s <;> rfl
  | finite hm low high least most _ => exact unpack_pack_normal _ hm low high least most

end Decimal

end Cutscene
