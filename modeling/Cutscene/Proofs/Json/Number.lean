import Cutscene.Json.Parser
import Cutscene.Json.Printer
import Mathlib.Data.List.DropRight
/-!
# Json — the text of a number

Every number is written as the grammar has it: a whole number as its digits
(`NumberText.Grammatical.ofInt`), and a double that is finite with a point or an
exponent (`exists_grammatical_render`). What the grammar then reads is the parts
that were written (`numberText?_chars`), wherever nothing follows that could
belong to a number.
-/

namespace Cutscene

namespace Json

/-! ## Digits -/

theorem digit?_of_isDigit {c : Char} (h : c.isDigit) :
    Decimal.digit? c = some (c.toNat - '0'.toNat) := by
  rw [Decimal.digit?, if_pos]
  simpa [Char.isDigit, Char.le_def] using h

/-- The digits of a number that fits a word are gathered into it. -/
theorem gather_eq {digits : List Char} (hdigits : ∀ c ∈ digits, c.isDigit) {word : Nat}
    (hfits : Nat.ofDigitChars 10 digits word ≤ maxWord) :
    gather word digits = (Nat.ofDigitChars 10 digits word, 0) := by
  induction digits generalizing word with
  | nil => rfl
  | cons c digits ih =>
    obtain ⟨hc, hdigits⟩ := List.forall_mem_cons.1 hdigits
    rw [Nat.ofDigitChars_cons] at hfits ⊢
    have hle : 10 * word + (c.toNat - '0'.toNat) ≤ maxWord := by
      have hpos : 1 ≤ 10 ^ digits.length := Nat.one_le_pow _ _ (by decide)
      have hmul := Nat.mul_le_mul_right (10 * word + (c.toNat - '0'.toNat)) hpos
      rw [Nat.ofDigitChars_eq_ofDigitChars_zero] at hfits
      omega
    rw [gather, digit?_of_isDigit hc, Option.getD_some, if_neg (by omega), ih hdigits hfits]

/-- Of a number that does not fit, digits are left over. -/
theorem gather_snd_ne_zero {digits : List Char} (hdigits : ∀ c ∈ digits, c.isDigit) {word : Nat}
    (hword : word ≤ maxWord) (hbeyond : maxWord < Nat.ofDigitChars 10 digits word) :
    (gather word digits).2 ≠ 0 := by
  induction digits generalizing word with
  | nil => exact absurd hbeyond (by simpa using hword)
  | cons c digits ih =>
    obtain ⟨hc, hdigits⟩ := List.forall_mem_cons.1 hdigits
    rw [Nat.ofDigitChars_cons] at hbeyond
    rw [gather, digit?_of_isDigit hc, Option.getD_some]
    split
    · simp
    · exact ih hdigits (by omega) hbeyond

/-- No number but zero is written with a zero in front. -/
theorem head?_toDigits_ne {n : Nat} (hn : 0 < n) : (Nat.toDigits 10 n).head? ≠ some '0' := by
  induction n using Nat.strongRecOn with
  | ind n ih =>
    by_cases hlt : n < 10
    · rw [Nat.toDigits_of_lt_base hlt]
      have hdigit : ∀ k < 10, 0 < k → k.digitChar ≠ '0' := by decide
      simpa using hdigit n hlt hn
    · rw [Nat.toDigits_of_base_le (by decide) (by omega), List.head?_append_of_ne_nil]
      · exact ih (n / 10) (by omega) (by omega)
      · exact Nat.toDigits_ne_nil

theorem isDigit_toDigits (n : Nat) : ∀ c ∈ Nat.toDigits 10 n, c.isDigit := fun _ hc =>
  Nat.isDigit_of_mem_toDigits (by decide) (by decide) hc

theorem isDigit_zeros (count : Nat) : ∀ c ∈ Decimal.zeros count, c.isDigit := by
  intro c hc
  obtain rfl := List.eq_of_mem_replicate hc
  decide

/-! ## The grammar -/

/-- The characters of a number without its sign; an exponent always has one. -/
def NumberText.unsigned (t : NumberText) : List Char :=
  t.whole ++ (t.fraction.elim [] ('.' :: ·) ++
    t.exponent.elim [] fun e => 'e' :: (if e.1 then '-' else '+') :: e.2)

/-- The characters of a number. -/
def NumberText.chars (t : NumberText) : List Char :=
  if t.negative then '-' :: t.unsigned else t.unsigned

/-- One digit at least. -/
def IsDigits (cs : List Char) : Prop := cs ≠ [] ∧ ∀ c ∈ cs, c.isDigit

/-- Parts as the grammar has them. -/
structure NumberText.Grammatical (t : NumberText) : Prop where
  whole : IsDigits t.whole
  leading : 1 < t.whole.length → t.whole.head? ≠ some '0'
  fraction : ∀ digits ∈ t.fraction, IsDigits digits
  exponent : ∀ e ∈ t.exponent, IsDigits e.2

/-- What may follow a value that is laid out. -/
def Follows (rest : List Char) : Prop := ∀ c ∈ rest.head?, c = ',' ∨ c = '\n'

/-- Nothing that could be one more digit. -/
def NoDigit (rest : List Char) : Prop := ∀ c ∈ rest.head?, Decimal.isDigit c = false

theorem Follows.noDigit {rest : List Char} (hrest : Follows rest) : NoDigit rest := by
  intro c hc
  rcases hrest c hc with rfl | rfl <;> decide

theorem spanDigits_append {digits rest : List Char} (hdigits : ∀ c ∈ digits, c.isDigit)
    (hrest : NoDigit rest) : Decimal.spanDigits (digits ++ rest) = (digits, rest) := by
  have hall : ∀ c ∈ digits, Decimal.isDigit c := fun c hc => by
    rw [Decimal.isDigit, digit?_of_isDigit (hdigits c hc)]; rfl
  have hstop : rest.takeWhile Decimal.isDigit = [] ∧ rest.dropWhile Decimal.isDigit = rest := by
    cases rest with
    | nil => exact ⟨rfl, rfl⟩
    | cons c rest => simp [hrest c rfl]
  rw [Decimal.spanDigits, List.takeWhile_append_of_pos hall, List.dropWhile_append_of_pos hall,
    hstop.1, hstop.2, List.append_nil]

/-- A sign in front is part of the number. -/
theorem numberText?_minus {cs : List Char} (hcs : ∀ more, cs ≠ '-' :: more) :
    numberText? ('-' :: cs) =
      (numberText? cs).map fun x => ({ x.1 with negative := true }, x.2) := by
  rw [numberText?, numberText?]
  · simp only
    split
    · rfl
    · rw [Option.map_bind]
      refine congrArg (Option.bind _) (funext fun x => ?_)
      obtain ⟨fraction, rest⟩ := x
      simp only [Function.comp]
      cases rest with
      | nil => rfl
      | cons mark more =>
        simp only
        split
        · split <;> split <;> rfl
        · rfl
  · exact fun more h => hcs more h

theorem NumberText.Grammatical.ne_minus {t : NumberText} (ht : t.Grammatical)
    (rest more : List Char) : t.unsigned ++ rest ≠ '-' :: more := by
  obtain ⟨c, cs, hcs⟩ := List.exists_cons_of_ne_nil ht.whole.1
  intro h
  rw [unsigned, hcs, List.cons_append, List.cons_append, List.cons.injEq] at h
  exact absurd (h.1 ▸ ht.whole.2 c (hcs ▸ List.mem_cons_self)) (by decide)

theorem numberText?_unsigned {t : NumberText} (ht : t.Grammatical) {rest : List Char}
    (hrest : Follows rest) :
    numberText? (t.unsigned ++ rest) = some ({ t with negative := false }, rest) := by
  have hstart := ht.ne_minus rest
  obtain ⟨negative, whole, fraction, exponent⟩ := t
  obtain ⟨⟨hne, hdigits⟩, hleading, hfraction, hexponent⟩ := ht
  have hzero : ¬ (whole.isEmpty = true ∨ (1 < whole.length ∧ whole.head? = some '0')) := by
    rintro (hempty | ⟨hlong, hhead⟩)
    · exact hne (List.isEmpty_iff.1 hempty)
    · exact hleading hlong hhead
  simp only [NumberText.unsigned, List.append_assoc] at hstart ⊢
  rw [numberText?]
  · -- the digits of each part stop where the next part starts
    have hspan : ∀ {tail}, NoDigit tail → Decimal.spanDigits (whole ++ tail) = (whole, tail) :=
      spanDigits_append hdigits
    have hpoint : ∀ more, NoDigit ('.' :: more) := fun more => by simp [NoDigit]; decide
    have hmark : ∀ more, NoDigit ('e' :: more) := fun more => by simp [NoDigit]; decide
    have hafter : NoDigit ((exponent.elim [] fun e =>
        'e' :: (if e.1 then '-' else '+') :: e.2) ++ rest) := by
      cases exponent with
      | none => exact hrest.noDigit
      | some e => exact hmark _
    cases fraction with
    | none =>
      simp only [Option.elim_none, List.nil_append, hspan hafter, if_neg hzero]
      cases exponent with
      | none =>
        cases rest with
        | nil => rfl
        | cons c rest => rcases hrest c rfl with rfl | rfl <;> rfl
      | some e =>
        obtain ⟨down, digits⟩ := e
        obtain ⟨hsome, hall⟩ := hexponent _ rfl
        have hread := spanDigits_append hall hrest.noDigit
        cases down <;> simp [hread, hsome]
    | some digits =>
      obtain ⟨hsome, hall⟩ := hfraction _ rfl
      have hread := spanDigits_append hall hafter
      simp only [Option.elim_some, List.cons_append, hspan (hpoint _), if_neg hzero, hread]
      cases exponent with
      | none =>
        cases rest with
        | nil => simp [hsome]
        | cons c rest => rcases hrest c rfl with rfl | rfl <;> simp [hsome]
      | some e =>
        obtain ⟨down, digits'⟩ := e
        obtain ⟨hsome', hall'⟩ := hexponent _ rfl
        have hread' := spanDigits_append hall' hrest.noDigit
        cases down <;> simp [hread', hsome, hsome']
  · exact fun more h => hstart more h

/-- **What is written as the grammar has it is read.** -/
theorem numberText?_chars {t : NumberText} (ht : t.Grammatical) {rest : List Char}
    (hrest : Follows rest) : numberText? (t.chars ++ rest) = some (t, rest) := by
  have h := numberText?_unsigned ht hrest
  rw [NumberText.chars]
  split
  · rename_i hneg
    rw [List.cons_append, numberText?_minus (ht.ne_minus rest), h, Option.map_some, ← hneg]
  · rename_i hneg
    rw [h, ← Bool.not_eq_true _ |>.mp hneg]

/-! ## Doubles -/

end Json

namespace Decimal

theorem Digits.coefficient_dropZeros_pos (fuel : Nat) {d : Digits} (hd : 0 < d.coefficient) :
    0 < (d.dropZeros fuel).coefficient := by
  induction fuel generalizing d with
  | zero => exact hd
  | succ fuel ih =>
    rw [dropZeros]
    split
    · exact ih (by simp only; omega)
    · exact hd

/-- The neighbours of a positive number are taken inside its interval, which
does not reach zero. -/
theorem Interval.onGrid_pos {tie : Tie} {i : Interval} {exponent : Int} {d : Nat}
    (hlow : 0 < i.low) (h : i.onGrid tie exponent = some d) : 0 < d := by
  unfold onGrid at h
  extract_lets step unit centre down inside gapDown gapUp at h
  have hleft : 0 < i.low * unit := by
    refine Nat.mul_pos hlow ?_
    simp only [unit, Nat.shiftLeft_eq]
    exact Nat.mul_pos (Nat.pow_pos (by decide)) (Nat.pow_pos (by decide))
  have hinside : ∀ n, inside n = true → 0 < n := by
    rintro (_ | n) hn
    · simp only [inside, Nat.zero_mul] at hn
      split at hn <;> simp only [Bool.and_eq_true, decide_eq_true_eq] at hn
      · exact absurd hn.1 (Nat.not_le.2 hleft)
      · exact absurd hn.1 (Nat.not_lt_zero _)
    · exact Nat.succ_pos n
  split at h
  · simp at h
  · rename_i hdown _
    exact Option.some.inj h ▸ hinside _ hdown
  · exact Option.some.inj h ▸ Nat.succ_pos _
  · rename_i hdown _
    have hpos := hinside _ hdown
    suffices hnear : d = down ∨ d = down + 1 by omega
    split at h
    · exact .inl (Option.some.inj h).symm
    · split at h
      · exact .inr (Option.some.inj h).symm
      · cases tie with
        | even =>
          obtain rfl := Option.some.inj h
          exact ite_eq_or_eq _ _ _
        | away => exact .inr (Option.some.inj h).symm

theorem Scaled.low_pos {s : Scaled} (hs : s.mantissa ≠ 0) : 0 < s.interval.low := by
  simp only [interval]
  split <;> omega

theorem coefficient_shortest_pos (tie : Tie) {s : Scaled} (hs : s.mantissa ≠ 0) :
    0 < (shortest tie s).coefficient := by
  refine Digits.coefficient_dropZeros_pos 18 ?_
  cases hfound : (List.range 17).findSome? fun more : Nat =>
      (s.interval.onGrid tie (magnitude s.above s.below - more)).map
        (Digits.mk · (magnitude s.above s.below - more)) with
  | none =>
    simp only [Option.getD_none, Scaled.above, Nat.shiftLeft_eq]
    exact Nat.mul_pos (Nat.pos_of_ne_zero hs) (Nat.pow_pos (by decide))
  | some d =>
    obtain ⟨more, -, hmore⟩ := List.exists_of_findSome?_eq_some hfound
    obtain ⟨n, hn, rfl⟩ := Option.map_eq_some_iff.1 hmore
    simp only [Option.getD_some]
    exact Interval.onGrid_pos (Scaled.low_pos hs) hn

/-- The doubles that have digits are the finite ones. -/
theorem Scaled.isSome_ofFloat? (x : Float) : (ofFloat? x).isSome = x.isFinite := by
  have hexponent : (@Float.Model.UnpackedFloat.unpackExponent .binary64
      x.toModel.toBits.toBitVec).toNat = x.toBits.toNat / leading % 2048 := by
    have hbits : x.toBits = x.toModel.toBits := rfl
    simp [Float.Model.UnpackedFloat.unpackExponent, hbits, Nat.shiftRight_eq_div_pow, leading]
  have hfinite : x.isFinite = !decide (x.toBits.toNat / leading % 2048 = 2047) := by
    rw [← hexponent]
    delta Float.isFinite Float.Model.isFinite Float.Model.unpack Float.Model.UnpackedFloat.unpack
    by_cases hall : @Float.Model.UnpackedFloat.unpackExponent .binary64
        x.toModel.toBits.toBitVec = -1#11
    · rw [if_pos hall, hall]
      split <;> rfl
    · have hne : ¬ (@Float.Model.UnpackedFloat.unpackExponent .binary64
          x.toModel.toBits.toBitVec).toNat = 2047 := fun he =>
        hall (BitVec.eq_of_toNat_eq (by rw [he]; rfl))
      rw [if_neg hall, decide_eq_false hne, apply_ite Float.Model.UnpackedFloat.isFinite,
        apply_dite Float.Model.UnpackedFloat.isFinite]
      dsimp only [Float.Model.UnpackedFloat.isFinite]
      simp only [ite_self, dite_eq_ite, Bool.not_false]
  rw [hfinite]
  simp only [ofFloat?]
  split
  · simp [*]
  · rename_i h
    simp only [h]
    split <;> rfl

end Decimal

namespace Json

open Decimal

theorem isDigits_wholeDigits (n : Nat) : IsDigits (wholeDigits n) :=
  ⟨Nat.toDigits_ne_nil, isDigit_toDigits n⟩

/-- Digits with a point are a number. -/
theorem exists_grammatical_positional {d : Digits} (hd : 0 < d.coefficient) (negative : Bool) :
    ∃ t : NumberText, t.Grammatical ∧ t.negative = negative ∧ t.unsigned = d.positional true := by
  obtain ⟨hne, hdigits⟩ := isDigits_wholeDigits d.coefficient
  have hhead : (wholeDigits d.coefficient).head? ≠ some '0' := head?_toDigits_ne hd
  simp only [Digits.positional]
  generalize wholeDigits d.coefficient = digits at hne hdigits hhead
  generalize hplaces : (-d.exponent).toNat = places
  split
  · refine ⟨⟨negative, digits ++ zeros d.exponent.toNat, some ['0'], none⟩,
      ⟨⟨by simp [hne], List.forall_mem_append.2 ⟨hdigits, isDigit_zeros _⟩⟩, fun _ => ?_,
        by simp [IsDigits], by simp⟩, rfl, by simp [NumberText.unsigned]⟩
    rwa [List.head?_append_of_ne_nil _ hne]
  · have hplaces : 0 < places := by omega
    split
    · refine ⟨⟨negative, digits.take (digits.length - places),
          some (digits.drop (digits.length - places)), none⟩,
        ⟨⟨?_, fun c hc => hdigits c (List.mem_of_mem_take hc)⟩, fun _ => ?_, ?_, by simp⟩, rfl,
        by simp [NumberText.unsigned]⟩
      · simp [hne]
        omega
      · rwa [List.head?_take, if_neg (by omega)]
      · simp only [Option.mem_some_iff, forall_eq']
        exact ⟨by simp; omega, fun c hc => hdigits c (List.mem_of_mem_drop hc)⟩
    · refine ⟨⟨negative, ['0'], some (zeros (places - digits.length) ++ digits), none⟩,
        ⟨by simp [IsDigits], by simp, ?_, by simp⟩, rfl, by simp [NumberText.unsigned]⟩
      simp only [Option.mem_some_iff, forall_eq']
      exact ⟨by simp [hne], List.forall_mem_append.2 ⟨isDigit_zeros _, hdigits⟩⟩

/-- Digits with an exponent are a number. -/
theorem exists_grammatical_scientific (d : Digits) (negative : Bool) :
    ∃ t : NumberText, t.Grammatical ∧ t.negative = negative ∧ t.unsigned = d.scientific true := by
  obtain ⟨hne, hdigits⟩ := isDigits_wholeDigits d.coefficient
  simp only [Digits.scientific]
  generalize wholeDigits d.coefficient = digits at hne hdigits
  generalize d.exponent + digits.length - 1 = power
  have hexponent : ∀ e ∈ some (decide (power < 0), wholeDigits power.natAbs), IsDigits e.2 := by
    simpa using isDigits_wholeDigits _
  have hsign : (if power < 0 then ['-'] else ['+']) = [if power < 0 then '-' else '+'] := by
    split <;> rfl
  have hwhole : IsDigits (digits.take 1) :=
    ⟨by simp [hne], fun c hc => hdigits c (List.mem_of_mem_take hc)⟩
  have hleading : 1 < (digits.take 1).length → (digits.take 1).head? ≠ some '0' :=
    fun h => absurd h (Nat.not_lt.2 (List.length_take_le 1 digits))
  cases hfraction : digits.drop 1 with
  | nil =>
    exact ⟨⟨negative, digits.take 1, none, some (decide (power < 0), wholeDigits power.natAbs)⟩,
      ⟨hwhole, hleading, by simp, hexponent⟩, rfl, by simp [NumberText.unsigned, hsign]⟩
  | cons c cs =>
    refine ⟨⟨negative, digits.take 1, some (c :: cs),
        some (decide (power < 0), wholeDigits power.natAbs)⟩,
      ⟨hwhole, hleading, ?_, hexponent⟩, rfl, by simp [NumberText.unsigned, hsign]⟩
    simp only [Option.mem_some_iff, forall_eq']
    exact ⟨by simp, fun c' hc => hdigits c' (List.mem_of_mem_drop (hfraction ▸ hc))⟩

/-- **A double that is finite is written as a number.** -/
theorem exists_grammatical_render {x : Float} (hx : x.isFinite) :
    ∃ t : NumberText, t.Grammatical ∧ t.chars = (numbers.render x).toList := by
  rw [← Scaled.isSome_ofFloat?] at hx
  obtain ⟨s, hs⟩ := Option.isSome_iff_exists.1 hx
  simp only [Layout.render, hs, String.toList_ofList, numbers, if_true]
  generalize hbody : ite (s.mantissa = 0) _ _ = body
  suffices h : ∃ t : NumberText, t.Grammatical ∧ t.negative = s.negative ∧ t.unsigned = body by
    obtain ⟨t, ht, hnegative, rfl⟩ := h
    refine ⟨t, ht, ?_⟩
    rw [NumberText.chars, hnegative]
    cases s.negative <;> rfl
  split at hbody
  · exact ⟨⟨s.negative, ['0'], some ['0'], none⟩, ⟨by simp [IsDigits], by simp, by simp [IsDigits],
      by simp⟩, rfl, by simp [NumberText.unsigned, ← hbody]⟩
  · rename_i hmantissa
    have hpos := coefficient_shortest_pos .even hmantissa
    obtain rfl | rfl := (ite_eq_or_eq _ _ _).imp hbody.symm.trans hbody.symm.trans
    · exact exists_grammatical_positional hpos s.negative
    · exact exists_grammatical_scientific (shortest .even s) s.negative

/-- The parts of a whole number. -/
def NumberText.ofInt (n : Int) : NumberText := ⟨decide (n < 0), wholeDigits n.natAbs, none, none⟩

/-- **A whole number is written as a number.** -/
theorem NumberText.Grammatical.ofInt (n : Int) : (NumberText.ofInt n).Grammatical := by
  refine ⟨isDigits_wholeDigits _, fun hlong => ?_, by simp [NumberText.ofInt],
    by simp [NumberText.ofInt]⟩
  rcases Nat.eq_zero_or_pos n.natAbs with hzero | hpos
  · simp [NumberText.ofInt, hzero, wholeDigits] at hlong
  · exact head?_toDigits_ne hpos

theorem NumberText.chars_ofInt (n : Int) : (ofInt n).chars = (toString n).toList := by
  cases n with
  | ofNat n => simp [chars, ofInt, unsigned, wholeDigits, toString, Int.repr, Nat.repr]
  | negSucc n => simp [chars, ofInt, unsigned, wholeDigits, toString, Int.repr, Nat.repr]

/-- A number that fits a word is read as it is. -/
theorem NumberText.value_ofInt {n : Nat} (hn : n ≤ maxWord) : (ofInt n).value = .int n := by
  have hgather : gather 0 (Nat.toDigits 10 n) = (n, 0) := by
    rw [gather_eq (isDigit_toDigits n) (by rwa [Nat.ofDigitChars_ten_toDigits]),
      Nat.ofDigitChars_ten_toDigits]
  simp [value, ofInt, wholeDigits, hgather]

/-- One that does not fit is read as a double, if at all. -/
theorem NumberText.value_ofInt_of_lt {n : Nat} (hn : maxWord < n) (k : Int) :
    (ofInt n).value ≠ .int k := by
  have hgather : (gather 0 (Nat.toDigits 10 n)).2 ≠ 0 :=
    gather_snd_ne_zero (isDigit_toDigits n) (Nat.zero_le _) (by rwa [Nat.ofDigitChars_ten_toDigits])
  simp only [value, ofInt, wholeDigits, Int.natAbs_natCast, hgather, ne_eq, not_false_eq_true,
    if_true]
  split <;> simp

end Json

end Cutscene
