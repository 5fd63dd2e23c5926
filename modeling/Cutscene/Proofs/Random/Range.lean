import Cutscene.Proofs.Decimal.Whole
import Cutscene.Proofs.Random.Cycle
import Cutscene.Run.Operand
/-!
# Random numbers — whole numbers of a range

A random whole number between two bounds is the lower bound and a bounded
draw. Where the bounds stand for whole numbers up to `2 ^ 53`, all of this is
exact: either nothing ever comes of the operand, since there is no number
between the bounds or there are too many, or the range is counted right and
the words are shared out evenly among its numbers (`compute_randomInt_cases`).
-/

namespace Cutscene

open Decimal

namespace Random

/-- What a word makes of a range with a least number and a count, unless it is
rejected. -/
def yield? (low : Float) (span : UInt32) (w : UInt32) : Option Float :=
  (accept? span.toNat w).map fun n => low + n.toUInt32.toFloat

/-- The range has the whole numbers from one to another, and the words yield
these in equal shares. -/
structure Covers (low : Float) (span : UInt32) (a b : Int) : Prop where
  count : (span.toNat : Int) = b - a + 1
  within : ∀ {w : UInt32} {x : Float}, yield? low span w = some x →
    ∃ k : Int, a ≤ k ∧ k ≤ b ∧ value? x = some (k : ℚ)
  share : ∀ k : Int, a ≤ k → k ≤ b →
    {w : UInt32 | (yield? low span w).bind value? = some (k : ℚ)}.ncard = UInt32.size / span.toNat

section Range

variable {low : Float} {span : UInt32} {a b : Int}

/-- The number that an accepted word yields. -/
theorem value?_low_add (hlow : value? low = some (a : ℚ)) (ha : |a| ≤ 2 ^ 53) (hb : |b| ≤ 2 ^ 53)
    (hcount : (span.toNat : Int) = b - a + 1) {n : Nat} (hn : n < span.toNat) :
    value? (low + n.toUInt32.toFloat) = some ((a + n : ℤ) : ℚ) := by
  have hword : n.toUInt32.toNat = n := UInt32.toNat_ofNat_of_lt' (hn.trans span.toNat_lt_size)
  have hdrawn := value?_toFloat n.toUInt32
  rw [hword] at hdrawn
  rw [abs_le] at ha hb
  exact value?_add hlow hdrawn (abs_le.2 ⟨by omega, by omega⟩)

theorem covers (hlow : value? low = some (a : ℚ)) (ha : |a| ≤ 2 ^ 53) (hb : |b| ≤ 2 ^ 53)
    (hcount : (span.toNat : Int) = b - a + 1) (hpos : 0 < span.toNat) : Covers low span a b where
  count := hcount
  within {w x} hx := by
    obtain ⟨n, hn, rfl⟩ := Option.map_eq_some_iff.1 hx
    have hlt := (fair_of_pos hpos).lt hn
    exact ⟨a + n, by omega, by omega, value?_low_add hlow ha hb hcount hlt⟩
  share k hk hk' := by
    rw [← ncard_accept? (show (k - a).toNat < span.toNat by omega)]
    congr 1
    ext w
    simp only [Set.mem_ofPred_eq, yield?]
    cases hw : accept? span.toNat w with
    | none => simp
    | some n =>
      have hlt := (fair_of_pos hpos).lt hw
      simp only [Option.map_some, Option.bind_some, value?_low_add hlow ha hb hcount hlt,
        Option.some.injEq, Int.cast_inj]
      omega

end Range

end Random

/-! ## The range of the bounds -/

theorem value?_widest : value? 4294967295.0 = some ((4294967295 : ℤ) : ℚ) := by
  have hparts : Scaled.ofFloat? 4294967295.0 = some ⟨false, 9007199252643840, -21⟩ := by
    decide +kernel
  rw [value?, hparts, Option.map_some, Scaled.value]
  norm_num

/-- Is the range too wide? The difference that decides may be rounded. -/
theorem widest_le_sub_iff {low high : Float} {a b : Int} (hlow : value? low = some (a : ℚ))
    (hhigh : value? high = some (b : ℚ)) (ha : |a| ≤ 2 ^ 53) (hb : |b| ≤ 2 ^ 53) (h : a ≤ b) :
    4294967295.0 ≤ high - low ↔ 4294967295 ≤ b - a := by
  rw [abs_le] at ha hb
  rcases le_total (b - a) (2 ^ 53) with hsmall | hlarge
  · exact le_iff value?_widest (value?_sub hhigh hlow (abs_le.2 ⟨by omega, hsmall⟩))
  · obtain ⟨n, hn, hsub⟩ := value?_sub_large hhigh hlow hlarge (by omega)
    rw [le_iff value?_widest hsub]
    omega

variable {min max : Option Float}

theorem compute_randomInt_of_none (m : Machine) (ref : Option VariableRef) (decimals : Option Nat)
    (h : wholeRange? min max = none) (r : Random) :
    (NumberOperand.math .randomInt ref min max decimals).compute m r = (none, r) := by
  rw [NumberOperand.compute, Machine.math]
  simp only [h]
  rfl

theorem compute_randomInt_of_some (m : Machine) (ref : Option VariableRef) (decimals : Option Nat)
    {low : Float} {span : UInt32} (h : wholeRange? min max = some (low, span)) (r : Random) :
    (NumberOperand.math .randomInt ref min max decimals).compute m r =
      (some (low + (r.below span.toNat).1.toUInt32.toFloat), (r.below span.toNat).2) := by
  rw [NumberOperand.compute, Machine.math]
  simp only [h]
  rfl

section Bounds

variable {a b : Int} (hmin : value? (min.getD 0.0) = some (a : ℚ))
  (hmax : value? (max.getD 1.0) = some (b : ℚ)) (ha : |a| ≤ 2 ^ 53) (hb : |b| ≤ 2 ^ 53)

include hmin hmax ha hb

/-- **The range of whole bounds.** There is none when no number or too many lie
between them; otherwise it is counted without wrapping. -/
theorem wholeRange?_cases :
    ((b < a ∨ 4294967295 ≤ b - a) ∧ wholeRange? min max = none) ∨
      ∃ low span, wholeRange? min max = some (low, span) ∧ value? low = some (a : ℚ) ∧
        (span.toNat : Int) = b - a + 1 ∧ 0 < span.toNat := by
  have hlow := value?_ceiling hmin
  have hhigh := value?_floor hmax
  rw [Int.ceil_intCast] at hlow
  rw [Int.floor_intCast] at hhigh
  rw [wholeRange?]
  by_cases hempty : b < a
  · refine .inl ⟨.inl hempty, if_pos ?_⟩
    simp [(lt_iff hhigh hlow).2 hempty]
  have hle : a ≤ b := not_lt.1 hempty
  have hlt : ¬ Decimal.floor (max.getD 1.0) < ceiling (min.getD 0.0) :=
    (lt_iff hhigh hlow).not.2 hempty
  by_cases hwide : 4294967295 ≤ b - a
  · refine .inl ⟨.inr hwide, if_pos ?_⟩
    simp [(widest_le_sub_iff hlow hhigh ha hb hle).2 hwide]
  have hnarrow : ¬ 4294967295.0 ≤ Decimal.floor (max.getD 1.0) - ceiling (min.getD 0.0) :=
    (widest_le_sub_iff hlow hhigh ha hb hle).not.2 hwide
  refine .inr ⟨_, _, if_neg ?_, hlow, ?_⟩
  · simp [isFinite_of_value? hlow, isFinite_of_value? hhigh, hlt, hnarrow]
  -- below the widest range the count is a word, and so is its successor
  obtain ⟨n, hn⟩ := Int.eq_ofNat_of_zero_le (Int.sub_nonneg.2 hle)
  have hsub := value?_sub hhigh hlow (by rw [hn, Nat.abs_cast]; omega)
  rw [hn] at hsub
  have hcount := toNat_toUInt32 hsub (show n < 4294967296 by omega)
  rw [UInt32.toNat_add, hcount, hn]
  show ((n + 1) % 4294967296 : Nat) = (n : ℤ) + 1 ∧ 0 < (n + 1) % 4294967296
  omega

/-- **A random whole number is drawn evenly from its range**, and nothing ever
comes of an empty range or of one that is too wide. -/
theorem compute_randomInt_cases (m : Machine) (ref : Option VariableRef) (decimals : Option Nat) :
    ((b < a ∨ 4294967295 ≤ b - a) ∧
        ∀ r, (NumberOperand.math .randomInt ref min max decimals).compute m r = (none, r)) ∨
      ∃ low span, wholeRange? min max = some (low, span) ∧ Random.Covers low span a b ∧
        ∀ r : Random, ∃ count x,
          (∀ i < count, Random.yield? low span (Random.word Random.next r i) = none) ∧
          Random.yield? low span (Random.word Random.next r count) = some x ∧
          (NumberOperand.math .randomInt ref min max decimals).compute m r =
            (some x, Random.after Random.next r (count + 1)) := by
  obtain ⟨hrange, hnone⟩ | ⟨low, span, hsome, hlow, hcount, hpos⟩ :=
    wholeRange?_cases hmin hmax ha hb
  · exact .inl ⟨hrange, compute_randomInt_of_none m ref decimals hnone⟩
  · refine .inr ⟨low, span, hsome, Random.covers hlow ha hb hcount hpos, fun r => ?_⟩
    obtain ⟨count, hlt, n, hdraws⟩ := Random.exists_draws r hpos span.toNat_lt_size.le
    refine ⟨count, low + n.toUInt32.toFloat, fun i hi => ?_, ?_, ?_⟩
    · rw [Random.yield?, hdraws.rejected i hi, Option.map_none]
    · rw [Random.yield?, hdraws.accepted, Option.map_some]
    · rw [compute_randomInt_of_some m ref decimals hsome, hdraws.below_eq hpos hlt]

end Bounds

/-- **Bounded draws are exact and unbiased.** The words are shared out evenly
among the numbers below a bound, and from every source the first accepted word
decides; below zero nothing is drawn. A random whole number between whole bounds
is drawn evenly from all the numbers between them, unless there are none or too
many. -/
theorem draws_fair :
    (∀ bound, 0 < bound → bound < UInt32.size → Random.Fair bound ∧
      ∀ {σ : Type} (next : σ → UInt32 × σ) (s t : σ) (fuel n : Nat),
        Random.belowFrom? next bound fuel s = some (n, t) ↔
          ∃ count < fuel, Random.Draws next bound s count n ∧
            t = Random.after next s (count + 1)) ∧
    (∀ {σ : Type} (next : σ → UInt32 × σ) (s : σ) (fuel : Nat),
      Random.belowFrom? next 0 fuel s = some (0, s)) ∧
    ∀ (m : Machine) (ref : Option VariableRef) (min max : Option Float) (decimals : Option Nat)
      (a b : Int), value? (min.getD 0.0) = some (a : ℚ) → value? (max.getD 1.0) = some (b : ℚ) →
      |a| ≤ 2 ^ 53 → |b| ≤ 2 ^ 53 →
      ((b < a ∨ 4294967295 ≤ b - a) ∧
          ∀ r, (NumberOperand.math .randomInt ref min max decimals).compute m r = (none, r)) ∨
        ∃ low span, wholeRange? min max = some (low, span) ∧ Random.Covers low span a b ∧
          ∀ r : Random, ∃ count x,
            (∀ i < count, Random.yield? low span (Random.word Random.next r i) = none) ∧
            Random.yield? low span (Random.word Random.next r count) = some x ∧
            (NumberOperand.math .randomInt ref min max decimals).compute m r =
              (some x, Random.after Random.next r (count + 1)) :=
  ⟨fun _ hpos _ => ⟨Random.fair_of_pos hpos, fun next _ _ _ _ => by
      rw [Random.belowFrom?_of_pos hpos, Random.draw?_eq_some_iff]⟩,
    fun _ _ fuel => Random.belowFrom?_zero fuel,
    fun m ref _ _ decimals _ _ hmin hmax ha hb =>
      compute_randomInt_cases hmin hmax ha hb m ref decimals⟩

/-- The widest range that is not too wide: all words but the largest stand for
a number each. -/
theorem draws_fair_widest :
    Random.Fair 4294967295 ∧
      ∃ low span, wholeRange? (some 1.0) (some 4294967295.0) = some (low, span) ∧
        Random.Covers low span 1 4294967295 ∧
        ∀ r : Random, ∃ count x,
          (∀ i < count, Random.yield? low span (Random.word Random.next r i) = none) ∧
          Random.yield? low span (Random.word Random.next r count) = some x ∧
          (NumberOperand.math .randomInt none (some 1.0) (some 4294967295.0) none).compute default r =
            (some x, Random.after Random.next r (count + 1)) := by
  have hone : value? 1.0 = some ((1 : ℤ) : ℚ) := by
    have hparts : Scaled.ofFloat? 1.0 = some ⟨false, 4503599627370496, -52⟩ := by decide +kernel
    rw [value?, hparts, Option.map_some, Scaled.value]
    norm_num
  refine ⟨(draws_fair.1 4294967295 (by decide) (by decide)).1, ?_⟩
  exact (draws_fair.2.2 default none (some 1.0) (some 4294967295.0) none 1 4294967295 hone
    value?_widest (by norm_num) (by norm_num)).resolve_left fun h => absurd h.1 (by omega)

end Cutscene
