import Cutscene.Proofs.Custom.Quoting
import Mathlib.Data.List.TakeWhile
/-!
# Custom instructions — commas that separate

A comma separates where the text before it ends outside quotes
(`Arguments.Closed`), and the fields of a text are what stands between two such
commas that follow each other (`Arguments.fields`). Both are said by positions
in the text, without the scan that reads it.

The scan yields these fields (`stretches_eq`), so a text is split into its
fields or refused (`split_eq`), and the three ways to be refused have an order:
an empty field before a comma, then a quote left open, then nothing after the
last comma. A text is split just if its quotes are closed and it is blank or has
no blank field (`split_eq_ok_iff`).
-/

namespace Cutscene

namespace Arguments

/-! ## Quotes -/

/-- The text may stand between quotes: no quote in it ends them, since a
backslash protects the character after it. -/
inductive Quotable : List Char → Prop
  | nil : Quotable []
  | plain {c : Char} {cs : List Char} (hquote : c ≠ '"') (hslash : c ≠ '\\') (h : Quotable cs) :
      Quotable (c :: cs)
  | shielded {c : Char} {cs : List Char} (h : Quotable cs) : Quotable ('\\' :: c :: cs)

/-- The text ends outside quotes: from left to right, every quote that opens is
closed again. -/
inductive Closed : List Char → Prop
  | nil : Closed []
  | plain {c : Char} {cs : List Char} (hc : c ≠ '"') (h : Closed cs) : Closed (c :: cs)
  | quoted {inner cs : List Char} (hinner : Quotable inner) (h : Closed cs) :
      Closed ('"' :: (inner ++ '"' :: cs))

namespace Place

/-- The place after a text. -/
def after (place : Place) (cs : List Char) : Place := cs.foldl Place.next place

@[simp] theorem after_nil (place : Place) : place.after [] = place := rfl

@[simp] theorem after_cons (place : Place) (c : Char) (cs : List Char) :
    place.after (c :: cs) = (place.next c).after cs := rfl

theorem after_append (place : Place) (cs cs' : List Char) :
    place.after (cs ++ cs') = (place.after cs).after cs' :=
  List.foldl_append

end Place

/-- What may stand between quotes does not leave them. -/
theorem Quotable.after {cs : List Char} (h : Quotable cs) : Place.quoted.after cs = .quoted := by
  induction h with
  | nil => rfl
  | plain hquote hslash _ ih => rwa [Place.after_cons, Place.next, if_neg hslash, if_neg hquote]
  | shielded _ ih => exact ih

theorem Closed.after {cs : List Char} (h : Closed cs) : Place.outside.after cs = .outside := by
  induction h with
  | nil => rfl
  | plain hc _ ih => rwa [Place.after_cons, Place.next, if_neg hc]
  | quoted hinner _ ih =>
    rw [Place.after_cons, Place.after_append, show Place.outside.next '"' = .quoted from rfl,
      hinner.after]
    exact ih

/-- The text ends outside quotes when it begins at the place: inside quotes it
has to close them first, and what is protected is passed. -/
def ClosedFrom : Place → List Char → Prop
  | .outside, cs => Closed cs
  | .quoted, cs => ∃ inner rest, cs = inner ++ '"' :: rest ∧ Quotable inner ∧ Closed rest
  | .shielded, cs => ∃ c inner rest, cs = c :: (inner ++ '"' :: rest) ∧ Quotable inner ∧ Closed rest

theorem closedFrom_of_after {place : Place} {cs : List Char} (h : place.after cs = .outside) :
    ClosedFrom place cs := by
  -- along the text, from all three places at once, since each leads to another
  induction cs generalizing place with
  | nil =>
    obtain rfl : place = .outside := h
    exact .nil
  | cons c cs ih =>
    have hrest := ih h
    cases place with
    | outside =>
      by_cases hc : c = '"'
      · subst hc
        obtain ⟨inner, rest, rfl, hinner, hclosed⟩ := hrest
        exact .quoted hinner hclosed
      · rw [Place.next, if_neg hc] at hrest
        exact .plain hc hrest
    | quoted =>
      by_cases hslash : c = '\\'
      · subst hslash
        obtain ⟨d, inner, rest, rfl, hinner, hclosed⟩ := hrest
        exact ⟨'\\' :: d :: inner, rest, rfl, .shielded hinner, hclosed⟩
      · rw [Place.next, if_neg hslash] at hrest
        by_cases hquote : c = '"'
        · subst hquote
          exact ⟨[], cs, rfl, .nil, hrest⟩
        · rw [if_neg hquote] at hrest
          obtain ⟨inner, rest, rfl, hinner, hclosed⟩ := hrest
          exact ⟨c :: inner, rest, rfl, .plain hquote hslash hinner, hclosed⟩
    | shielded =>
      obtain ⟨inner, rest, rfl, hinner, hclosed⟩ := hrest
      exact ⟨c, inner, rest, rfl, hinner, hclosed⟩

/-- **The scan ends outside quotes just if all quotes are closed.** -/
theorem closed_iff {cs : List Char} : Closed cs ↔ Place.outside.after cs = .outside :=
  ⟨Closed.after, closedFrom_of_after⟩

instance : DecidablePred Closed := fun _ => decidable_of_iff _ closed_iff.symm

/-! ## Fields -/

/-- At the position stands a comma outside quotes. -/
def Separates (cs : List Char) (i : Nat) : Prop := cs[i]? = some ',' ∧ Closed (cs.take i)

instance (cs : List Char) : DecidablePred (Separates cs) := fun _ => instDecidableAnd

/-- The positions of the commas outside quotes, in order. -/
def separators (cs : List Char) : List Nat := (List.range cs.length).filter (Separates cs)

/-- The text from one position up to another. -/
def slice (cs : List Char) (start stop : Nat) : List Char := (cs.take stop).drop start

/-- What stands before the first of the positions, between each and the next,
and behind the last. -/
def between (cs : List Char) (positions : List Nat) : List (List Char) :=
  List.zipWith (slice cs) (0 :: positions.map (· + 1)) (positions ++ [cs.length])

/-- The fields of a text: what stands between commas outside quotes. -/
def fields (cs : List Char) : List (List Char) := between cs (separators cs)

/-- The character at the front moves all positions by one. -/
theorem zipWith_slice_cons (c : Char) (cs : List Char) (starts stops : List Nat) :
    List.zipWith (slice (c :: cs)) (starts.map (· + 1)) (stops.map (· + 1)) =
      List.zipWith (slice cs) starts stops := by
  rw [List.zipWith_map]
  rfl

theorem stops_cons (c : Char) (cs : List Char) (positions : List Nat) :
    positions.map (· + 1) ++ [(c :: cs).length] = (positions ++ [cs.length]).map (· + 1) := by
  simp

theorem between_cons (c : Char) (cs : List Char) (positions : List Nat) :
    between (c :: cs) (positions.map (· + 1)) = before [c] (between cs positions) := by
  rw [between, stops_cons, between]
  cases positions with
  | nil => simp [slice, before]
  | cons i positions =>
    have hrest := zipWith_slice_cons c cs ((i + 1) :: positions.map (· + 1))
      (positions ++ [cs.length])
    exact congrArg ((c :: cs.take i) :: ·) hrest

theorem between_cons_zero (c : Char) (cs : List Char) (positions : List Nat) :
    between (c :: cs) (0 :: positions.map (· + 1)) = [] :: between cs positions := by
  have hrest := zipWith_slice_cons c cs (0 :: positions.map (· + 1)) (positions ++ [cs.length])
  rw [between, List.cons_append, stops_cons, List.zipWith_cons_cons, between, ← hrest]
  rfl

/-- The positions of the commas that separate when the text begins at the
place. -/
def separatorsFrom (place : Place) (cs : List Char) : List Nat :=
  (List.range cs.length).filter fun i => cs[i]? = some ',' ∧ place.after (cs.take i) = .outside

theorem separatorsFrom_outside (cs : List Char) : separatorsFrom .outside cs = separators cs :=
  List.filter_congr fun i _ => by simp only [Separates, closed_iff]

theorem separatorsFrom_cons (place : Place) (c : Char) (cs : List Char) :
    separatorsFrom place (c :: cs) =
      if place = .outside ∧ c = ',' then 0 :: (separatorsFrom .outside cs).map (· + 1)
      else (separatorsFrom (place.next c) cs).map (· + 1) := by
  rw [separatorsFrom, List.length_cons, List.range_succ_eq_map, List.filter_cons, List.filter_map]
  by_cases hc : place = .outside ∧ c = ','
  · obtain ⟨rfl, rfl⟩ := hc
    rfl
  · have hc' : ¬ (c = ',' ∧ place = .outside) := fun h => hc h.symm
    simp only [List.getElem?_cons_zero, Option.some.injEq, List.take_zero, Place.after_nil, hc,
      hc', decide_false, Bool.false_eq_true, if_false]
    rfl

/-- **Scanning yields the stretches between the commas that separate**, and the
place at the end. -/
theorem stretches_eq_between (place : Place) (cs : List Char) :
    stretches place cs = (between cs (separatorsFrom place cs), place.after cs) := by
  -- along the text: a character at the front moves the positions behind it by one
  induction cs generalizing place with
  | nil => rfl
  | cons c cs ih =>
    rw [separatorsFrom_cons]
    by_cases hc : place = .outside ∧ c = ','
    · rw [if_pos hc, between_cons_zero]
      obtain ⟨rfl, rfl⟩ := hc
      rw [stretches_comma, ih]
      rfl
    · rw [if_neg hc, between_cons, stretches_cons hc, ih, Place.after_cons]

/-- **Scanning yields the fields.** -/
theorem stretches_eq (cs : List Char) :
    stretches .outside cs = (fields cs, Place.outside.after cs) := by
  rw [stretches_eq_between, separatorsFrom_outside, fields]

theorem fst_stretches (cs : List Char) : (stretches .outside cs).1 = fields cs :=
  congrArg Prod.fst (stretches_eq cs)

/-! ## What a comma does -/

/-- A text that goes on goes on in the last of its stretches. -/
theorem exists_stretches_append (place : Place) (cs : List Char) :
    ∃ front last, (stretches place cs).1 = front ++ [last] ∧
      ∀ rest, (stretches place (cs ++ rest)).1 =
        front ++ before last (stretches (place.after cs) rest).1 := by
  induction cs generalizing place with
  | nil =>
    refine ⟨[], [], rfl, fun rest => ?_⟩
    obtain ⟨x, xs, hxs⟩ := List.exists_cons_of_ne_nil (stretches_ne_nil place rest)
    rw [List.nil_append, Place.after_nil, hxs]
    rfl
  | cons c cs ih =>
    by_cases hc : place = .outside ∧ c = ','
    · obtain ⟨rfl, rfl⟩ := hc
      obtain ⟨front, last, hcs, hrest⟩ := ih .outside
      refine ⟨[] :: front, last, ?_, fun rest => ?_⟩
      · rw [stretches_comma, hcs]
        rfl
      · rw [List.cons_append, stretches_comma, hrest]
        rfl
    · obtain ⟨front, last, hcs, hrest⟩ := ih (place.next c)
      rw [stretches_cons hc, hcs]
      cases front with
      | nil =>
        refine ⟨[], c :: last, rfl, fun rest => ?_⟩
        rw [List.cons_append, stretches_cons hc, hrest, Place.after_cons]
        cases (stretches ((place.next c).after cs) rest).1 <;> rfl
      | cons x front =>
        refine ⟨(c :: x) :: front, last, rfl, fun rest => ?_⟩
        rw [List.cons_append, stretches_cons hc, hrest]
        rfl

theorem exists_fields_eq (cs : List Char) : ∃ front last, fields cs = front ++ [last] := by
  obtain ⟨front, last, h, -⟩ := exists_stretches_append .outside cs
  exact ⟨front, last, (fst_stretches cs).symm.trans h⟩

/-- With the commas between them, the stretches make up the text. -/
theorem intercalate_stretches (place : Place) (cs : List Char) :
    [','].intercalate (stretches place cs).1 = cs := by
  induction cs generalizing place with
  | nil => simp [stretches]
  | cons c cs ih =>
    have hne := stretches_ne_nil (place.next c) cs
    by_cases hc : place = .outside ∧ c = ','
    · obtain ⟨rfl, rfl⟩ := hc
      rw [stretches_comma, List.intercalate_cons_of_ne_nil (stretches_ne_nil _ _), ih]
      rfl
    · rw [stretches_cons hc]
      obtain ⟨x, xs, hxs⟩ := List.exists_cons_of_ne_nil hne
      have hcs := ih (place.next c)
      rw [hxs] at hcs ⊢
      rw [before, List.singleton_append, List.intercalate_cons_cons_left, hcs]

/-- **Nothing is lost.** With commas between them, the fields make up the
text. -/
theorem intercalate_fields (cs : List Char) : [','].intercalate (fields cs) = cs := by
  rw [← fst_stretches, intercalate_stretches]

/-- **A comma outside quotes separates**: the text before it and the text behind
it have their own fields. -/
theorem fields_append_of_closed {front : List Char} (h : Closed front) (back : List Char) :
    fields (front ++ ',' :: back) = fields front ++ fields back := by
  obtain ⟨earlier, last, hfront, hrest⟩ := exists_stretches_append .outside front
  rw [← fst_stretches, hrest, h.after, stretches_comma, ← fst_stretches, hfront, ← fst_stretches,
    before, List.append_nil, List.append_assoc, List.singleton_append]

/-- **A comma inside quotes separates nothing**: it stands in one of the fields,
with what is before it and behind it there. -/
theorem exists_field_of_not_closed {front : List Char} (h : ¬ Closed front) (back : List Char) :
    ∃ earlier x y later, fields (front ++ ',' :: back) = earlier ++ (x ++ ',' :: y) :: later ∧
      [','].intercalate (earlier ++ [x]) = front ∧ [','].intercalate (y :: later) = back := by
  obtain ⟨earlier, x, hfront, hrest⟩ := exists_stretches_append .outside front
  -- the place of the comma is not outside, so the text goes on in the last stretch
  have hplace : ¬ (Place.outside.after front = .outside ∧ ',' = ',') := fun hp =>
    h (closed_iff.2 hp.1)
  have hearlier := intercalate_stretches .outside front
  have hlater := intercalate_stretches ((Place.outside.after front).next ',') back
  obtain ⟨y, later, hback⟩ := List.exists_cons_of_ne_nil
    (stretches_ne_nil ((Place.outside.after front).next ',') back)
  rw [hfront] at hearlier
  rw [hback] at hlater
  refine ⟨earlier, x, y, later, ?_, hearlier, hlater⟩
  rw [← fst_stretches, hrest, stretches_cons hplace, hback]
  rfl

example : fields "a, b:\"c,d\\\",e\" ,f".toList =
    ["a".toList, " b:\"c,d\\\",e\" ".toList, "f".toList] := by
  decide

/-! ## Blanks -/

/-- There is nothing but blanks. -/
def Blank (cs : List Char) : Prop := ∀ c ∈ cs, Text.isBlank c

instance : DecidablePred Blank := fun cs => inferInstanceAs (Decidable (∀ c ∈ cs, Text.isBlank c))

theorem isBlankText_iff {cs : List Char} : isBlankText cs ↔ Blank cs := by
  rw [isBlankText, List.isEmpty_iff, Text.trim, Text.trimEnd, List.reverse_eq_nil_iff,
    List.dropWhile_eq_nil_iff]
  simp only [List.mem_reverse]
  constructor
  · intro h c hc
    rw [← List.takeWhile_append_dropWhile (p := Text.isBlank) (l := cs)] at hc
    rcases List.mem_append.1 hc with hc | hc
    · exact List.mem_takeWhile_imp hc
    · exact h c hc
  · exact fun h c hc => h c (List.dropWhile_sublist _ |>.subset hc)

/-! ## Splitting -/

/-- **What becomes of a text**: it is refused for a blank field before a comma,
else for a quote left open, else for a blank field behind the last comma; and if
it is not, its parts are the fields, trimmed, or none when it is blank. -/
theorem split_eq {text : String} {front : List (List Char)} {last : List Char}
    (h : fields text.toList = front ++ [last]) :
    split text =
      if ∃ s ∈ front, Blank s then .error (.emptyEntry text)
      else if ¬ Closed text.toList then .error (.openQuote text)
      else if ¬ Blank last then .ok ((front ++ [last]).map Text.trim)
      else if front = [] then .ok []
      else .error (.trailingComma text) := by
  have hany : front.any isBlankText ↔ ∃ s ∈ front, Blank s := by
    simp only [List.any_eq_true, isBlankText_iff]
  have hlast : (!isBlankText last) ↔ ¬ Blank last := by
    rw [← isBlankText_iff, Bool.not_eq_true', Bool.not_eq_true]
  have hclosed : Place.outside.after text.toList ≠ .outside ↔ ¬ Closed text.toList := by
    rw [closed_iff]
  rw [split, stretches_eq, h]
  simp only [List.dropLast_concat, List.getLast?_append, List.getLast?_singleton, Option.some_or,
    Option.getD_some, List.isEmpty_iff, hany, hlast, hclosed]

/-- A text is blank just if its only field is. -/
theorem blank_iff {cs : List Char} {front : List (List Char)} {last : List Char}
    (h : fields cs = front ++ [last]) : Blank cs ↔ front = [] ∧ Blank last := by
  have hjoin := intercalate_fields cs
  rw [h] at hjoin
  cases front with
  | nil =>
    obtain rfl : last = cs := by simpa using hjoin
    simp
  | cons x front =>
    refine iff_of_false (fun hblank => ?_) (by simp)
    rw [List.cons_append, List.intercalate_cons_of_ne_nil (by simp)] at hjoin
    exact absurd (hblank ',' (hjoin ▸ by simp)) (by decide)

/-- **A text is split just if its quotes are closed and it is blank or has no
blank field**, and its parts are then none, or the fields, trimmed. -/
theorem split_eq_ok_iff {text : String} {parts : List (List Char)} :
    split text = .ok parts ↔
      Closed text.toList ∧ (Blank text.toList ∨ ∀ s ∈ fields text.toList, ¬ Blank s) ∧
        parts = if Blank text.toList then [] else (fields text.toList).map Text.trim := by
  obtain ⟨front, last, hfields⟩ := exists_fields_eq text.toList
  have hall : (∀ s ∈ front ++ [last], ¬ Blank s) ↔ (¬ ∃ s ∈ front, Blank s) ∧ ¬ Blank last := by
    simp only [List.forall_mem_append, List.forall_mem_singleton, not_exists, not_and]
  simp only [split_eq hfields, blank_iff hfields, hfields, hall]
  by_cases hfront : ∃ s ∈ front, Blank s
  · have hne : front ≠ [] := by
      rintro rfl
      simp at hfront
    simp [hfront, hne]
  by_cases hclosed : Closed text.toList
  · by_cases hlast : Blank last
    · by_cases hne : front = []
      · simp [hclosed, hlast, hne, eq_comm]
      · simp [hfront, hclosed, hlast, hne]
    · simp [hfront, hclosed, hlast, eq_comm]
  · simp [hfront, hclosed]

end Arguments

end Cutscene
