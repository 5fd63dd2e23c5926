import Cutscene.Random
import Mathlib.Data.Set.Card
import Mathlib.Logic.Function.Iterate
/-!
# Random numbers — bounded draws

A bounded draw returns what the first accepted word of its source stands for
(`draw?_eq_some_iff`), whatever the source. The words are shared out evenly:
as many stand for one number below the bound as for another, and fewer than
the bound are rejected (`fair_of_pos`).
-/

namespace Cutscene

namespace Random

/-! ## The first accepted word -/

section Source

variable {σ : Type} (next : σ → UInt32 × σ)

/-- The source after so many draws. -/
def after (s : σ) (count : Nat) : σ := (fun s => (next s).2)^[count] s

/-- The word that a source yields after so many others. -/
def word (s : σ) (count : Nat) : UInt32 := (next (after next s count)).1

/-- The draw returns what the first accepted word, after so many others, stands
for. -/
structure Draws (bound : Nat) (s : σ) (count n : Nat) : Prop where
  rejected : ∀ i < count, accept? bound (word next s i) = none
  accepted : accept? bound (word next s count) = some n

variable {next} {bound : Nat} {s : σ}

theorem after_next (count : Nat) : after next (next s).2 count = after next s (count + 1) :=
  (Function.iterate_succ_apply ..).symm

theorem word_next (count : Nat) : word next (next s).2 count = word next s (count + 1) := by
  rw [word, word, after_next]

theorem Draws.succ {count n : Nat} (hfirst : accept? bound (next s).1 = none)
    (h : Draws next bound (next s).2 count n) : Draws next bound s (count + 1) n where
  rejected i hi := by
    cases i with
    | zero => exact hfirst
    | succ i => exact word_next i ▸ h.rejected i (Nat.lt_of_succ_lt_succ hi)
  accepted := word_next count ▸ h.accepted

theorem Draws.of_succ {count n : Nat} (h : Draws next bound s (count + 1) n) :
    Draws next bound (next s).2 count n where
  rejected i hi := word_next i ▸ h.rejected (i + 1) (Nat.succ_lt_succ hi)
  accepted := word_next count ▸ h.accepted

/-- **The first accepted word decides**, if it is among those that may be
drawn. -/
theorem Draws.draw?_eq {count n : Nat} (h : Draws next bound s count n) (fuel : Nat) :
    draw? next bound fuel s =
      if count < fuel then some (n, after next s (count + 1)) else none := by
  induction fuel generalizing s count with
  | zero => rfl
  | succ fuel ih =>
    rw [draw?]
    cases count with
    | zero =>
      rw [show accept? bound (next s).1 = some n from h.accepted]
      exact (if_pos (Nat.succ_pos fuel)).symm
    | succ count =>
      rw [show accept? bound (next s).1 = none from h.rejected 0 (Nat.succ_pos count)]
      simp only [ih h.of_succ, after_next, Nat.succ_lt_succ_iff]

/-- **A draw that is made is that of the first accepted word.** -/
theorem draw?_eq_some_iff {fuel n : Nat} {t : σ} :
    draw? next bound fuel s = some (n, t) ↔
      ∃ count < fuel, Draws next bound s count n ∧ t = after next s (count + 1) := by
  constructor
  · intro h
    induction fuel generalizing s with
    | zero => cases h
    | succ fuel ih =>
      rw [draw?] at h
      cases hfirst : accept? bound (next s).1 with
      | some m =>
        rw [hfirst] at h
        cases h
        exact ⟨0, Nat.succ_pos fuel, ⟨fun i hi => absurd hi (Nat.not_lt_zero i), hfirst⟩, rfl⟩
      | none =>
        rw [hfirst] at h
        obtain ⟨count, hcount, hdraws, rfl⟩ := ih h
        exact ⟨count + 1, Nat.succ_lt_succ hcount, hdraws.succ hfirst, after_next _⟩
  · rintro ⟨count, hcount, hdraws, rfl⟩
    rw [hdraws.draw?_eq, if_pos hcount]

theorem belowFrom?_zero (fuel : Nat) : belowFrom? next 0 fuel s = some (0, s) := rfl

theorem belowFrom?_of_pos (h : 0 < bound) (fuel : Nat) :
    belowFrom? next bound fuel s = draw? next bound fuel s :=
  if_neg h.ne'

theorem Draws.belowFrom?_eq (h : 0 < bound) {count n : Nat} (hdraws : Draws next bound s count n)
    (fuel : Nat) : belowFrom? next bound fuel s =
      if count < fuel then some (n, after next s (count + 1)) else none := by
  rw [belowFrom?_of_pos h, hdraws.draw?_eq]

end Source

theorem Draws.below_eq {r : Random} {bound count n : Nat} (h : 0 < bound)
    (hdraws : Draws next bound r count n) (hcount : count < UInt32.size) :
    below bound r = (n, after next r (count + 1)) := by
  rw [below, hdraws.belowFrom?_eq h, if_pos hcount, Option.getD_some]

/-! ## Fairness -/

theorem threshold_le (bound : Nat) : threshold bound ≤ UInt32.size := Nat.div_mul_le_self _ _

theorem accept?_eq_some_iff {bound n : Nat} {w : UInt32} :
    accept? bound w = some n ↔ w.toNat < threshold bound ∧ w.toNat % bound = n := by
  rw [accept?]
  split <;> simp_all

theorem accept?_eq_none_iff {bound : Nat} {w : UInt32} :
    accept? bound w = none ↔ threshold bound ≤ w.toNat := by
  rw [accept?]
  split <;> simp_all

/-- The words stand for the numbers below a bound in equal shares, and fewer of
them than the bound stand for none. -/
structure Fair (bound : Nat) : Prop where
  lt : ∀ {w : UInt32} {n : Nat}, accept? bound w = some n → n < bound
  share : ∀ n < bound, {w : UInt32 | accept? bound w = some n}.ncard = UInt32.size / bound
  rejected : {w : UInt32 | accept? bound w = none}.ncard < bound

/-- One word in every stretch of the bound's length stands for a number. -/
theorem ncard_accept? {bound n : Nat} (hn : n < bound) :
    {w : UInt32 | accept? bound w = some n}.ncard = UInt32.size / bound := by
  have hsize {i : Nat} (hi : i < UInt32.size / bound) : i * bound + n < threshold bound := by
    have : (i + 1) * bound ≤ threshold bound := Nat.mul_le_mul_right bound hi
    rw [Nat.succ_mul] at this
    omega
  have htoNat {i : Nat} (hi : i < UInt32.size / bound) :
      (UInt32.ofNat (i * bound + n)).toNat = i * bound + n :=
    UInt32.toNat_ofNat_of_lt' ((hsize hi).trans_le (threshold_le bound))
  refine Set.ncard_eq_of_bijective (fun i _ => UInt32.ofNat (i * bound + n)) ?_ ?_ ?_
  · intro w hw
    obtain ⟨hlt, rfl⟩ := accept?_eq_some_iff.1 hw
    have hpos : 0 < bound := Nat.pos_of_ne_zero fun h => by omega
    refine ⟨w.toNat / bound, (Nat.div_lt_iff_lt_mul hpos).2 hlt, ?_⟩
    rw [Nat.div_add_mod']
    exact UInt32.ofNat_toNat
  · intro i hi
    rw [Set.mem_ofPred_eq, accept?_eq_some_iff, htoNat hi, Nat.mul_comm, Nat.mul_add_mod,
      Nat.mod_eq_of_lt hn, Nat.mul_comm]
    exact ⟨hsize hi, rfl⟩
  · intro i j hi hj heq
    have := congrArg UInt32.toNat heq
    rw [htoNat hi, htoNat hj] at this
    have hpos : 0 < bound := Nat.pos_of_ne_zero fun h => by omega
    exact Nat.eq_of_mul_eq_mul_right hpos (Nat.add_right_cancel this)

/-- The words above the last whole multiple are rejected. -/
theorem ncard_rejected {bound : Nat} :
    {w : UInt32 | accept? bound w = none}.ncard = UInt32.size % bound := by
  have hsum : threshold bound + UInt32.size % bound = UInt32.size := Nat.div_add_mod' _ _
  have htoNat {i : Nat} (hi : i < UInt32.size % bound) :
      (UInt32.ofNat (threshold bound + i)).toNat = threshold bound + i :=
    UInt32.toNat_ofNat_of_lt' (by omega)
  refine Set.ncard_eq_of_bijective (fun i _ => UInt32.ofNat (threshold bound + i)) ?_ ?_ ?_
  · intro w hw
    have hle := accept?_eq_none_iff.1 hw
    have hlt := w.toNat_lt_size
    refine ⟨w.toNat - threshold bound, by omega, ?_⟩
    rw [Nat.add_sub_cancel' hle]
    exact UInt32.ofNat_toNat
  · intro i hi
    rw [Set.mem_ofPred_eq, accept?_eq_none_iff, htoNat hi]
    exact Nat.le_add_right _ _
  · intro i j hi hj heq
    have := congrArg UInt32.toNat heq
    rw [htoNat hi, htoNat hj] at this
    exact Nat.add_left_cancel this

theorem fair_of_pos {bound : Nat} (h : 0 < bound) : Fair bound where
  lt hw := (accept?_eq_some_iff.1 hw).2 ▸ Nat.mod_lt _ h
  share _ hn := ncard_accept? hn
  rejected := ncard_rejected ▸ Nat.mod_lt _ h

end Random

end Cutscene
