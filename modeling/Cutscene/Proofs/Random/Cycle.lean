import Cutscene.Proofs.Random.Draw
/-!
# Random numbers — every bounded draw ends

A draw adds an odd number to the state, so within `2 ^ 32` draws the state
comes to every value (`exists_after_eq`), zero among them. At zero the word
zero is drawn, which every bound accepts. So the generator itself yields an
accepted word within `2 ^ 32` draws, at every state and for every bound
(`exists_draws`), and a bounded draw ends with it.
-/

namespace Cutscene

namespace Random

/-- What the increment is multiplied with to give one. -/
def inverse : UInt32 := 0xdc58aa5d

theorem inverse_mul_increment : inverse * increment = 1 := by decide

/-- Every draw adds the increment. -/
theorem state_after (r : Random) (count : Nat) :
    (after next r count).state = r.state + UInt32.ofNat count * increment := by
  induction count with
  | zero =>
    show r.state = r.state + 0 * increment
    rw [UInt32.zero_mul, UInt32.add_zero]
  | succ count ih =>
    have hstep : (after next r (count + 1)).state = (after next r count).state + increment :=
      congrArg state (Function.iterate_succ_apply' (fun r => (next r).2) count r)
    rw [hstep, ih, UInt32.ofNat_add, UInt32.add_mul, UInt32.add_assoc]
    exact congrArg (r.state + ·) (congrArg _ (UInt32.one_mul _).symm)

/-- **The state comes to every value within `2 ^ 32` draws.** -/
theorem exists_after_eq (r : Random) (s : UInt32) :
    ∃ count < UInt32.size, after next r (count + 1) = ⟨s⟩ := by
  -- so many increments lie between the two states, up to whole rounds
  let steps := (s - r.state) * inverse
  refine ⟨(steps - 1).toNat, (steps - 1).toNat_lt_size, ?_⟩
  have hstate : (after next r ((steps - 1).toNat + 1)).state = s := by
    rw [state_after, UInt32.ofNat_add, UInt32.ofNat_toNat]
    show r.state + ((s - r.state) * inverse - 1 + 1) * increment = s
    rw [UInt32.sub_add_cancel, UInt32.mul_assoc, inverse_mul_increment, UInt32.mul_one,
      UInt32.add_comm, UInt32.sub_add_cancel]
  generalize after next r ((steps - 1).toNat + 1) = last at hstate ⊢
  cases last
  exact congrArg Random.mk hstate

/-- The word zero is accepted for every bound. -/
theorem accept?_zero {bound : Nat} (h : 0 < bound) (h' : bound ≤ UInt32.size) :
    accept? bound 0 = some 0 :=
  accept?_eq_some_iff.2 ⟨Nat.mul_pos (Nat.div_pos h' h) h, Nat.zero_mod bound⟩

/-- The words that an initial state yields: the word zero comes after the state
zero. -/
theorem exists_word_eq_zero (r : Random) : ∃ count < UInt32.size, word next r count = 0 := by
  obtain ⟨count, hcount, hstate⟩ := exists_after_eq r 0
  refine ⟨count, hcount, ?_⟩
  have hnext : (next (after next r count)).2 = ⟨0⟩ :=
    (Function.iterate_succ_apply' (fun r => (next r).2) count r).symm.trans hstate
  have hmix : word next r count = mix (next (after next r count)).2.state := rfl
  rw [hmix, hnext]
  decide

/-- **Within `2 ^ 32` draws a word is accepted.** -/
theorem exists_draws (r : Random) {bound : Nat} (h : 0 < bound) (h' : bound ≤ UInt32.size) :
    ∃ count < UInt32.size, ∃ n, Draws next bound r count n := by
  obtain ⟨zeroAt, hzeroAt, hzero⟩ := exists_word_eq_zero r
  have haccepted : ∃ count, (accept? bound (word next r count)).isSome :=
    ⟨zeroAt, by rw [hzero, accept?_zero h h']; rfl⟩
  have hfirst : Nat.find haccepted ≤ zeroAt :=
    Nat.find_min' haccepted (by rw [hzero, accept?_zero h h']; rfl)
  obtain ⟨n, hn⟩ := Option.isSome_iff_exists.1 (Nat.find_spec haccepted)
  exact ⟨Nat.find haccepted, hfirst.trans_lt hzeroAt, n,
    fun i hi => Option.not_isSome_iff_eq_none.1 (Nat.find_min haccepted hi), hn⟩

/-- **Every bounded draw ends.** At every state and for every bound a word is
accepted within `2 ^ 32` draws; the loop ends with it, after as many draws as
that takes, and no draw is given up. -/
theorem below_eq_of_pos (r : Random) {bound : Nat} (h : 0 < bound) (h' : bound < UInt32.size) :
    ∃ count n, count < UInt32.size ∧ n < bound ∧ Draws next bound r count n ∧
      (∀ fuel, belowFrom? next bound fuel r =
        if count < fuel then some (n, after next r (count + 1)) else none) ∧
      below bound r = (n, after next r (count + 1)) := by
  obtain ⟨count, hcount, n, hdraws⟩ := exists_draws r h h'.le
  exact ⟨count, n, hcount, (fair_of_pos h).lt hdraws.accepted, hdraws, hdraws.belowFrom?_eq h,
    hdraws.below_eq h hcount⟩

/-- The first word is rejected here, and the draw goes on. -/
theorem below_eq_after_rejection :
    accept? 2147483649 (word next ⟨1⟩ 0) = none ∧
      ∃ count n, count < UInt32.size ∧ n < 2147483649 ∧ Draws next 2147483649 ⟨1⟩ count n ∧
        (∀ fuel, belowFrom? next 2147483649 fuel ⟨1⟩ =
          if count < fuel then some (n, after next ⟨1⟩ (count + 1)) else none) ∧
        below 2147483649 ⟨1⟩ = (n, after next ⟨1⟩ (count + 1)) :=
  ⟨by decide, below_eq_of_pos ⟨1⟩ (by decide) (by decide)⟩

end Random

end Cutscene
