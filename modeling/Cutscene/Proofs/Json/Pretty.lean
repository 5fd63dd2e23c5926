import Cutscene.Proofs.Json.Number
/-!
# Json — what is laid out reads back

The text of every value that is laid out can be read, and `Json.reread` says what
is read in its place (`Json.parse?_pretty`): the value itself if it is legible
(`Json.reread_of_legible`), that is, if its numbers are whole and fit a word and it
nests no more deeply than is read.
-/

namespace Cutscene

namespace Json

/-! ## The layout of a value -/

mutual

/-- The characters of a value laid out at a level. -/
def layout (level : Nat) : Json → List Char
  | .array [] => ['[', ']']
  | .array items => '[' :: (layoutItems (level + 1) items ++ (newLine level).toList ++ [']'])
  | .object [] => ['\x7b', '\x7d']
  | .object fields =>
    '\x7b' :: (layoutFields (level + 1) fields ++ (newLine level).toList ++ ['\x7d'])
  | j => j.scalar.toList

/-- The characters of the items of an array, with commas between them. -/
def layoutItems (level : Nat) : List Json → List Char
  | [] => []
  | j :: rest =>
    (newLine level).toList ++ (layout level j ++
      (if rest.isEmpty then [] else ',' :: layoutItems level rest))

/-- The characters of the fields of an object, with commas between them. -/
def layoutFields (level : Nat) : List (String × Json) → List Char
  | [] => []
  | (name, j) :: rest =>
    (newLine level).toList ++ ((quote name).toList ++ (':' :: ' ' :: (layout level j ++
      (if rest.isEmpty then [] else ',' :: layoutFields level rest))))

end

mutual

theorem toList_writePretty (level : Nat) (out : String) : (j : Json) →
    (writePretty level out j).toList = out.toList ++ layout level j
  | .array [] => by simp [writePretty, layout]
  | .array (j :: rest) => by
    rw [writePretty, String.toList_append, String.toList_append, toList_prettyItems, layout]
    simp
    all_goals simp
  | .object [] => by simp [writePretty, layout]
  | .object (field :: rest) => by
    rw [writePretty, String.toList_append, String.toList_append, toList_prettyFields, layout]
    simp
    all_goals simp
  | .null | .bool _ | .int _ | .float _ | .string _ | .unreadable => by
    simp [writePretty, layout]

theorem toList_prettyItems (level : Nat) (out : String) : (first : Bool) → (items : List Json) →
    (prettyItems level out first items).toList =
      out.toList ++ (if first || items.isEmpty then layoutItems level items
        else ',' :: layoutItems level items)
  | first, [] => by simp [prettyItems, layoutItems]
  | first, j :: rest => by
    rw [prettyItems, toList_prettyItems, toList_writePretty, layoutItems]
    cases first <;> cases rest <;> simp [layoutItems]

theorem toList_prettyFields (level : Nat) (out : String) :
    (first : Bool) → (fields : List (String × Json)) →
    (prettyFields level out first fields).toList =
      out.toList ++ (if first || fields.isEmpty then layoutFields level fields
        else ',' :: layoutFields level fields)
  | first, [] => by simp [prettyFields, layoutFields]
  | first, (name, j) :: rest => by
    rw [prettyFields, toList_prettyFields, toList_writePretty, layoutFields]
    cases first <;> cases rest <;> simp [layoutFields]

end

theorem toList_pretty (j : Json) : j.pretty.toList = layout 0 j := by
  rw [pretty, toList_writePretty]
  rfl

/-! ## Strings -/

theorem hexDigit?_hexDigit : ∀ n < 16, Decimal.hexDigit? (hexDigit n) = some n := by decide

/-- An escaped character reads back. -/
theorem stringRest?_escaped (c : Char) (written rest : List Char) (whole : Bool) :
    stringRest? written whole (escaped c ++ rest) = stringRest? (c :: written) whole rest := by
  unfold escaped
  split
  · simp [stringRest?, escape?]
  · simp [stringRest?, escape?]
  · simp [stringRest?, escape?]
  · simp [stringRest?, escape?]
  · simp [stringRest?, escape?]
  · simp [stringRest?, escape?]
  · simp [stringRest?, escape?]
  split
  -- a control character stands as its code, below all halves of surrogate pairs
  · rename_i hc
    have hzero : Decimal.hexDigit? '0' = some 0 := by decide
    have hhigh := hexDigit?_hexDigit (c.toNat / 16) (by omega)
    have hlow := hexDigit?_hexDigit (c.toNat % 16) (by omega)
    have hword : hexWord? '0' '0' (hexDigit (c.toNat / 16)) (hexDigit (c.toNat % 16)) =
        some c.toNat := by
      simp [hexWord?, hhigh, hlow, hzero]
      omega
    have hhighHalf : isHighHalf c.toNat = false := by simp [isHighHalf]; omega
    have hlowHalf : isLowHalf c.toNat = false := by simp [isLowHalf]; omega
    simp only [List.cons_append, List.nil_append]
    rw [stringRest?]
    simp [hword, hhighHalf, hlowHalf]
  · rename_i hc
    simp only [List.cons_append, List.nil_append]
    rw [stringRest?]
    · simp [hc]
    all_goals simp_all

theorem stringRest?_flatMap (cs written rest : List Char) :
    stringRest? written true (cs.flatMap escaped ++ '"' :: rest) =
      some (some (String.ofList (written.reverse ++ cs)), rest) := by
  induction cs generalizing written with
  | nil => simp [stringRest?]
  | cons c cs ih =>
    rw [List.flatMap_cons, List.append_assoc, stringRest?_escaped, ih, List.reverse_cons,
      List.append_assoc, List.singleton_append]

/-- A string between quotes reads back. -/
theorem stringRest?_quote (s : String) (rest : List Char) :
    ∃ cs, (quote s).toList ++ rest = '"' :: cs ∧ stringRest? [] true cs = some (some s, rest) := by
  refine ⟨s.toList.flatMap escaped ++ '"' :: rest, by simp [quote], ?_⟩
  rw [stringRest?_flatMap, List.reverse_nil, List.nil_append, String.ofList_toList]

/-! ## Values -/

/-- What is read where a number is written. -/
def readNumber (text : String) : Json := (numberText? text.toList).elim .unreadable (·.1.value)

mutual

/-- What is read where the value is written, at a place where so many arrays and
objects may open. -/
def reread : Nat → Json → Json
  | _, .int n => readNumber (toString n)
  | _, .float x => if x.isFinite then readNumber (numbers.render x) else .null
  | depth, .array items =>
    if depth = 0 then .unreadable else .array (rereadItems (depth - 1) items)
  | depth, .object fields =>
    if depth = 0 then .unreadable else .object (rereadFields (depth - 1) fields)
  | _, .unreadable => .null
  | _, j => j

/-- What is read for each item. -/
def rereadItems : Nat → List Json → List Json
  | _, [] => []
  | depth, j :: rest => reread depth j :: rereadItems depth rest

/-- What is read for each field. -/
def rereadFields : Nat → List (String × Json) → List (String × Json)
  | _, [] => []
  | depth, (name, j) :: rest => (name, reread depth j) :: rereadFields depth rest

end

mutual

/-- Is the value read back from its text, at a place where so many arrays and
objects may open? -/
def legible : Nat → Json → Bool
  | _, .int n => decide (0 ≤ n ∧ n ≤ maxWord)
  | _, .float _ => false
  | depth, .array items => decide (0 < depth) && legibleItems (depth - 1) items
  | depth, .object fields => decide (0 < depth) && legibleFields (depth - 1) fields
  | _, .unreadable => false
  | _, _ => true

/-- Is every item read back? -/
def legibleItems : Nat → List Json → Bool
  | _, [] => true
  | depth, j :: rest => legible depth j && legibleItems depth rest

/-- Is every field read back? -/
def legibleFields : Nat → List (String × Json) → Bool
  | _, [] => true
  | depth, (_, j) :: rest => legible depth j && legibleFields depth rest

end

theorem skipSpace_newLine (level : Nat) (cs : List Char) :
    skipSpace ((newLine level).toList ++ cs) = skipSpace cs := by
  have hspaces : ∀ c ∈ (newLine level).toList, isSpace c := by
    simp only [newLine, String.toList_ofList, List.forall_mem_cons, List.mem_replicate]
    refine ⟨by decide, ?_⟩
    rintro c ⟨-, rfl⟩
    decide
  exact List.dropWhile_append_of_pos hspaces

theorem skipSpace_cons {c : Char} (hc : isSpace c = false) (cs : List Char) :
    skipSpace (c :: cs) = c :: cs := by
  rw [skipSpace, List.dropWhile_cons_of_neg (by simp [hc])]

theorem skipSpace_blank (cs : List Char) : skipSpace (' ' :: cs) = skipSpace cs := rfl

theorem skipSpace_quote (s : String) (cs : List Char) :
    skipSpace ((quote s).toList ++ cs) = (quote s).toList ++ cs := by
  simp [quote, skipSpace, isSpace]

theorem value?_congr {cs cs' : List Char} (h : skipSpace cs = skipSpace cs') (fuel depth : Nat) :
    value? fuel depth cs = value? fuel depth cs' := by
  cases fuel with
  | zero => rw [value?, value?]
  | succ fuel => rw [value?, value?, h]

theorem items?_congr {cs cs' : List Char} (h : skipSpace cs = skipSpace cs') (fuel depth : Nat) :
    items? fuel depth cs = items? fuel depth cs' := by
  cases fuel with
  | zero => rw [items?, items?]
  | succ fuel => rw [items?, items?, value?_congr h]

theorem fields?_congr {cs cs' : List Char} (h : skipSpace cs = skipSpace cs') (fuel depth : Nat) :
    fields? fuel depth cs = fields? fuel depth cs' := by
  cases fuel with
  | zero => rw [fields?, fields?]
  | succ fuel => rw [fields?, fields?, h]

theorem skipSpace_skipSpace (cs : List Char) : skipSpace (skipSpace cs) = skipSpace cs :=
  List.dropWhile_idempotent _ cs

theorem follows_newLine (level : Nat) (rest : List Char) :
    Follows ((newLine level).toList ++ rest) := by
  simp [Follows, newLine]

theorem follows_comma (rest : List Char) : Follows (',' :: rest) := by simp [Follows]

theorem isSpace_of_isDigit {c : Char} (hc : c.isDigit) : isSpace c = false := by
  rw [Bool.eq_false_iff]
  intro h
  simp only [isSpace, Bool.or_eq_true, decide_eq_true_eq] at h
  rcases h with ((rfl | rfl) | rfl) | rfl <;> exact absurd hc (by decide)

/-! ### Numbers -/

/-- Where a number starts. -/
theorem exists_chars_eq {t : NumberText} (ht : t.Grammatical) :
    ∃ c cs, t.chars = c :: cs ∧ (c = '-' ∨ c.isDigit) := by
  rw [NumberText.chars]
  split
  · exact ⟨_, _, rfl, .inl rfl⟩
  · obtain ⟨c, cs, hcs⟩ := List.exists_cons_of_ne_nil ht.whole.1
    exact ⟨c, _, by rw [NumberText.unsigned, hcs, List.cons_append],
      .inr (ht.whole.2 c (hcs ▸ List.mem_cons_self))⟩

theorem readNumber_eq {t : NumberText} (ht : t.Grammatical) {text : String}
    (htext : t.chars = text.toList) : readNumber text = t.value := by
  have h : numberText? (t.chars ++ []) = some (t, []) := numberText?_chars ht (by simp [Follows])
  rw [List.append_nil, htext] at h
  rw [readNumber, h, Option.elim_some]

/-- The text of a number at the front. -/
theorem value?_chars {t : NumberText} (ht : t.Grammatical) (fuel depth : Nat) {rest : List Char}
    (hrest : Follows rest) : value? (fuel + 1) depth (t.chars ++ rest) = some (t.value, rest) := by
  have hnumber := numberText?_chars ht hrest
  obtain ⟨c, cs, hcs, hc⟩ := exists_chars_eq ht
  have hspace : isSpace c = false := hc.elim (fun h => h ▸ by decide) isSpace_of_isDigit
  rw [hcs, List.cons_append] at hnumber ⊢
  rw [value?, skipSpace_cons hspace]
  -- neither a digit nor a minus is the start of another value
  split
  all_goals rename_i h
  all_goals try (
    simp only [List.cons.injEq] at h
    obtain ⟨rfl, -⟩ := h
    exact absurd hc (by decide))
  simp only [hnumber, Option.map_some]

theorem layout_int (level depth : Nat) (n : Int) :
    layout level (.int n) = (NumberText.ofInt n).chars ∧
      reread depth (.int n) = (NumberText.ofInt n).value := by
  have hread : reread depth (.int n) = readNumber (toString n) := by simp [reread]
  rw [hread, readNumber_eq (.ofInt n) (NumberText.chars_ofInt n), NumberText.chars_ofInt]
  exact ⟨by simp [layout, scalar], rfl⟩

theorem exists_layout_float (level depth : Nat) {x : Float} (hx : x.isFinite) :
    ∃ t : NumberText, t.Grammatical ∧ layout level (.float x) = t.chars ∧
      reread depth (.float x) = t.value := by
  obtain ⟨t, ht, htext⟩ := exists_grammatical_render hx
  have hread : reread depth (.float x) = readNumber (numbers.render x) := by simp [reread, hx]
  rw [hread, readNumber_eq ht htext]
  exact ⟨t, ht, by simp [layout, scalar, hx, htext], rfl⟩

/-- Where a value starts. -/
theorem exists_layout_eq (level : Nat) (j : Json) :
    ∃ c cs, layout level j = c :: cs ∧ isSpace c = false ∧ c ≠ ']' ∧ c ≠ '\x7d' := by
  have hnumber : ∀ t : NumberText, t.Grammatical → layout level j = t.chars →
      ∃ c cs, layout level j = c :: cs ∧ isSpace c = false ∧ c ≠ ']' ∧ c ≠ '\x7d' := by
    intro t ht hlayout
    obtain ⟨c, cs, hcs, hc⟩ := exists_chars_eq ht
    refine ⟨c, cs, hlayout.trans hcs, ?_⟩
    rcases hc with rfl | hc
    · decide
    · refine ⟨isSpace_of_isDigit hc, ?_⟩
      constructor <;> rintro rfl <;> exact absurd hc (by decide)
  cases j with
  | null => exact ⟨_, _, rfl, by decide⟩
  | bool b => cases b <;> exact ⟨_, _, rfl, by decide⟩
  | int n => exact hnumber _ (.ofInt n) (layout_int level 0 n).1
  | float x =>
    cases hx : x.isFinite with
    | true =>
      obtain ⟨t, ht, hlayout, -⟩ := exists_layout_float level 0 hx
      exact hnumber t ht hlayout
    | false => exact ⟨'n', ['u', 'l', 'l'], by simp [layout, scalar, hx], by decide⟩
  | string s =>
    exact ⟨'"', s.toList.flatMap escaped ++ ['"'], by simp [layout, scalar, quote], by decide⟩
  | array items => cases items <;> exact ⟨_, _, rfl, by decide⟩
  | object fields => cases fields <;> exact ⟨_, _, rfl, by decide⟩
  | unreadable => exact ⟨_, _, rfl, by decide⟩

/-! ### Arrays and objects -/

theorem layout_array (level : Nat) (j : Json) (items : List Json) :
    layout level (.array (j :: items)) =
      '[' :: (layoutItems (level + 1) (j :: items) ++ ((newLine level).toList ++ [']'])) := by
  rw [layout, List.append_assoc]
  simp

theorem layout_object (level : Nat) (field : String × Json) (fields : List (String × Json)) :
    layout level (.object (field :: fields)) =
      '\x7b' :: (layoutFields (level + 1) (field :: fields) ++
        ((newLine level).toList ++ ['\x7d'])) := by
  rw [layout, List.append_assoc]
  simp

theorem value?_array {fuel depth : Nat} {cs rest : List Char} {items : List Json}
    (hstart : ∀ more, skipSpace cs ≠ ']' :: more)
    (hitems : items? fuel (depth - 1) cs = some (items, rest)) :
    value? (fuel + 1) depth ('[' :: cs) =
      some (if depth = 0 then .unreadable else .array items, rest) := by
  rw [value?, skipSpace_cons rfl]
  simp only
  rw [items?_congr (skipSpace_skipSpace cs), hitems]
  rfl

theorem value?_object {fuel depth : Nat} {cs rest : List Char} {fields : List (String × Json)}
    (hstart : ∀ more, skipSpace cs ≠ '\x7d' :: more)
    (hfields : fields? fuel (depth - 1) cs = some (some fields, rest)) :
    value? (fuel + 1) depth ('\x7b' :: cs) =
      some (if depth = 0 then .unreadable else .object fields, rest) := by
  rw [value?, skipSpace_cons rfl]
  simp only
  rw [fields?_congr (skipSpace_skipSpace cs), hfields]
  rfl

theorem items?_last {fuel depth : Nat} {cs mid rest : List Char} {j : Json}
    (hj : value? fuel depth cs = some (j, mid)) (hmid : skipSpace mid = ']' :: rest) :
    items? (fuel + 1) depth cs = some ([j], rest) := by
  simp [items?, hj, hmid]

theorem items?_cons {fuel depth : Nat} {cs mid more rest : List Char} {j : Json}
    {items : List Json} (hj : value? fuel depth cs = some (j, mid))
    (hmid : skipSpace mid = ',' :: more) (hitems : items? fuel depth more = some (items, rest)) :
    items? (fuel + 1) depth cs = some (j :: items, rest) := by
  simp [items?, hj, hmid, hitems]

theorem fields?_last {fuel depth : Nat} {cs mid more rest : List Char} {name : String} {j : Json}
    (hname : skipSpace cs = (quote name).toList ++ ':' :: mid)
    (hj : value? fuel depth mid = some (j, more)) (hmore : skipSpace more = '\x7d' :: rest) :
    fields? (fuel + 1) depth cs = some (some [(name, j)], rest) := by
  obtain ⟨cs', hcs', hread⟩ := stringRest?_quote name (':' :: mid)
  rw [hcs'] at hname
  simp [fields?, hname, hread, skipSpace_cons (show isSpace ':' = false from rfl), hj, hmore]

theorem fields?_cons {fuel depth : Nat} {cs mid after more rest : List Char} {name : String}
    {j : Json} {fields : List (String × Json)}
    (hname : skipSpace cs = (quote name).toList ++ ':' :: mid)
    (hj : value? fuel depth mid = some (j, after)) (hafter : skipSpace after = ',' :: more)
    (hfields : fields? fuel depth more = some (some fields, rest)) :
    fields? (fuel + 1) depth cs = some (some ((name, j) :: fields), rest) := by
  obtain ⟨cs', hcs', hread⟩ := stringRest?_quote name (':' :: mid)
  rw [hcs'] at hname
  simp [fields?, hname, hread, skipSpace_cons (show isSpace ':' = false from rfl), hj, hafter,
    hfields]

/-- Reading stops nowhere within the text of a value. -/
theorem layout_length_pos (level : Nat) (j : Json) : 0 < (layout level j).length := by
  obtain ⟨c, cs, hcs, -⟩ := exists_layout_eq level j
  simp [hcs]

mutual

/-- What is read where a value is laid out. -/
theorem value?_layout (level : Nat) : (j : Json) → ∀ {depth fuel : Nat} {rest : List Char},
    (layout level j).length ≤ fuel → Follows rest →
      value? fuel depth (layout level j ++ rest) = some (reread depth j, rest)
  | j, depth, 0, rest, hfuel, _ => absurd (layout_length_pos level j) (by omega)
  | .null, depth, fuel + 1, rest, _, _ => by
    simp [value?, layout, scalar, skipSpace, isSpace, reread]
  | .unreadable, depth, fuel + 1, rest, _, _ => by
    simp [value?, layout, scalar, skipSpace, isSpace, reread]
  | .bool true, depth, fuel + 1, rest, _, _ => by
    simp [value?, layout, scalar, skipSpace, isSpace, reread]
  | .bool false, depth, fuel + 1, rest, _, _ => by
    simp [value?, layout, scalar, skipSpace, isSpace, reread]
  | .int n, depth, fuel + 1, rest, _, hrest => by
    obtain ⟨hlayout, hreread⟩ := layout_int level depth n
    rw [hlayout, hreread]
    exact value?_chars (.ofInt n) fuel depth hrest
  | .float x, depth, fuel + 1, rest, _, hrest => by
    cases hx : x.isFinite with
    | true =>
      obtain ⟨t, ht, hlayout, hreread⟩ := exists_layout_float level depth hx
      rw [hlayout, hreread]
      exact value?_chars ht fuel depth hrest
    | false => simp [value?, layout, scalar, skipSpace, isSpace, reread, hx]
  | .string s, depth, fuel + 1, rest, _, _ => by
    obtain ⟨cs, hcs, hread⟩ := stringRest?_quote s rest
    rw [layout, scalar, hcs, value?]
    · simp [skipSpace, isSpace, hread, reread]
    all_goals simp
  | .array [], depth, fuel + 1, rest, _, _ => by
    simp [value?, layout, skipSpace, isSpace, reread, rereadItems]
  | .array (j :: items), depth, fuel + 1, rest, hfuel, hrest => by
    have hlayout := layout_array level j items
    rw [hlayout] at hfuel ⊢
    simp only [List.length_cons, List.length_append] at hfuel
    have hlength : (layoutItems (level + 1) (j :: items)).length ≤ fuel := by omega
    have hitems := items?_layout (level + 1) level (j :: items) (by simp) (depth - 1) hlength rest
    simp only [List.cons_append, List.append_assoc, List.nil_append] at hitems ⊢
    rw [reread]
    refine value?_array (fun more h => ?_) hitems
    -- the array does not close before its first item
    obtain ⟨c, cs, hcs, hspace, hclose, -⟩ := exists_layout_eq (level + 1) j
    simp only [layoutItems, hcs, List.append_assoc, List.cons_append, skipSpace_newLine,
      skipSpace_cons hspace, List.cons.injEq] at h
    exact hclose h.1
  | .object [], depth, fuel + 1, rest, _, _ => by
    simp [value?, layout, skipSpace, isSpace, reread, rereadFields]
  | .object ((name, j) :: fields), depth, fuel + 1, rest, hfuel, hrest => by
    have hlayout := layout_object level (name, j) fields
    rw [hlayout] at hfuel ⊢
    simp only [List.length_cons, List.length_append] at hfuel
    have hlength : (layoutFields (level + 1) ((name, j) :: fields)).length ≤ fuel := by omega
    have hfields :=
      fields?_layout (level + 1) level ((name, j) :: fields) (by simp) (depth - 1) hlength rest
    simp only [List.cons_append, List.append_assoc, List.nil_append] at hfields ⊢
    rw [reread]
    refine value?_object (fun more h => ?_) hfields
    -- nor does the object close before its first name
    rw [layoutFields, List.append_assoc, skipSpace_newLine, List.append_assoc, skipSpace_quote] at h
    simp [quote] at h

theorem items?_layout (level outer : Nat) : (items : List Json) → items ≠ [] →
    ∀ (depth : Nat) {fuel : Nat}, (layoutItems level items).length ≤ fuel →
      ∀ rest, items? fuel depth
        (layoutItems level items ++ ((newLine outer).toList ++ ']' :: rest)) =
          some (rereadItems depth items, rest)
  | [], h, _, _, _, _ => absurd rfl h
  | j :: items, _, depth, 0, hfuel, rest => by simp [layoutItems, newLine] at hfuel
  | j :: items, _, depth, fuel + 1, hfuel, rest => by
    have hnewLine : 0 < (newLine level).toList.length := by simp [newLine]
    simp only [layoutItems, List.length_append] at hfuel
    rw [layoutItems, List.append_assoc, List.append_assoc]
    have hread : ∀ more, Follows more →
        value? fuel depth ((newLine level).toList ++ (layout level j ++ more)) =
          some (reread depth j, more) := by
      intro more hmore
      rw [value?_congr (skipSpace_newLine level _)]
      exact value?_layout level j (by omega) hmore
    cases items with
    | nil => exact items?_last (hread _ (follows_newLine _ _)) (skipSpace_newLine _ _)
    | cons j' items =>
      simp only [List.isEmpty_cons, Bool.false_eq_true, if_false, List.length_cons] at hfuel ⊢
      exact items?_cons (hread _ (follows_comma _)) (skipSpace_cons rfl _)
        (items?_layout level outer (j' :: items) (by simp) depth (by omega) rest)

theorem fields?_layout (level outer : Nat) : (fields : List (String × Json)) → fields ≠ [] →
    ∀ (depth : Nat) {fuel : Nat}, (layoutFields level fields).length ≤ fuel →
      ∀ rest, fields? fuel depth
        (layoutFields level fields ++ ((newLine outer).toList ++ '\x7d' :: rest)) =
          some (some (rereadFields depth fields), rest)
  | [], h, _, _, _, _ => absurd rfl h
  | (name, j) :: fields, _, depth, 0, hfuel, rest => by simp [layoutFields, newLine] at hfuel
  | (name, j) :: fields, _, depth, fuel + 1, hfuel, rest => by
    have hnewLine : 0 < (newLine level).toList.length := by simp [newLine]
    simp only [layoutFields, List.length_append, List.length_cons] at hfuel
    rw [layoutFields]
    simp only [List.append_assoc, List.cons_append]
    have hname := fun more => (skipSpace_newLine level ((quote name).toList ++ ':' :: ' ' ::
      (layout level j ++ more))).trans (skipSpace_quote name _)
    have hread : ∀ more, Follows more →
        value? fuel depth (' ' :: (layout level j ++ more)) = some (reread depth j, more) := by
      intro more hmore
      rw [value?_congr (skipSpace_blank _)]
      exact value?_layout level j (by omega) hmore
    cases fields with
    | nil => exact fields?_last (hname _) (hread _ (follows_newLine _ _)) (skipSpace_newLine _ _)
    | cons field fields =>
      simp only [List.isEmpty_cons, Bool.false_eq_true, if_false, List.length_cons] at hfuel ⊢
      exact fields?_cons (hname _) (hread _ (follows_comma _)) (skipSpace_cons rfl _)
        (fields?_layout level outer (field :: fields) (by simp) depth (by omega) rest)

end

/-- **Every value that is laid out can be read**, and what is read is known. -/
theorem parse?_pretty (j : Json) : parse? j.pretty = some (j.reread maxDepth) := by
  have hread : value? (2 * (layout 0 j).length + 2) maxDepth (layout 0 j ++ []) =
      some (j.reread maxDepth, []) :=
    value?_layout 0 j (by omega) (by simp [Follows])
  rw [List.append_nil] at hread
  simp [parse?, toList_pretty, hread, skipSpace]

/-! ## Legible values -/

mutual

theorem reread_of_legible : (j : Json) → ∀ {depth : Nat}, legible depth j → reread depth j = j
  | .null, _, _ | .bool _, _, _ | .string _, _, _ => by simp [reread]
  | .int n, depth, h => by
    simp only [legible, decide_eq_true_eq] at h
    obtain ⟨n, rfl⟩ := Int.eq_ofNat_of_zero_le h.1
    rw [(layout_int 0 depth n).2, NumberText.value_ofInt (by omega)]
  | .array items, depth, h => by
    simp only [legible, Bool.and_eq_true, decide_eq_true_eq] at h
    rw [reread, if_neg (by omega), rereadItems_of_legible items h.2]
  | .object fields, depth, h => by
    simp only [legible, Bool.and_eq_true, decide_eq_true_eq] at h
    rw [reread, if_neg (by omega), rereadFields_of_legible fields h.2]
  | .float _, _, h | .unreadable, _, h => by simp [legible] at h

theorem rereadItems_of_legible : (items : List Json) → ∀ {depth : Nat},
    legibleItems depth items → rereadItems depth items = items
  | [], _, _ => rfl
  | j :: items, _, h => by
    simp only [legibleItems, Bool.and_eq_true] at h
    rw [rereadItems, reread_of_legible j h.1, rereadItems_of_legible items h.2]

theorem rereadFields_of_legible : (fields : List (String × Json)) → ∀ {depth : Nat},
    legibleFields depth fields → rereadFields depth fields = fields
  | [], _, _ => rfl
  | (_, j) :: fields, _, h => by
    simp only [legibleFields, Bool.and_eq_true] at h
    rw [rereadFields, reread_of_legible j h.1, rereadFields_of_legible fields h.2]

end

mutual

theorem readable_of_legible : (j : Json) → ∀ {depth : Nat}, legible depth j → j.readable
  | .null, _, _ | .bool _, _, _ | .int _, _, _ | .string _, _, _ => rfl
  | .array items, _, h => by
    simp only [legible, Bool.and_eq_true] at h
    exact readableItems_of_legible items h.2
  | .object fields, _, h => by
    simp only [legible, Bool.and_eq_true] at h
    exact readableFields_of_legible fields h.2
  | .float _, _, h | .unreadable, _, h => by simp [legible] at h

theorem readableItems_of_legible : (items : List Json) → ∀ {depth : Nat},
    legibleItems depth items → readableItems items
  | [], _, _ => rfl
  | j :: items, _, h => by
    simp only [legibleItems, Bool.and_eq_true] at h
    rw [readableItems, readable_of_legible j h.1, readableItems_of_legible items h.2, Bool.and_self]

theorem readableFields_of_legible : (fields : List (String × Json)) → ∀ {depth : Nat},
    legibleFields depth fields → readableFields fields
  | [], _, _ => rfl
  | (_, j) :: fields, _, h => by
    simp only [legibleFields, Bool.and_eq_true] at h
    rw [readableFields, readable_of_legible j h.1, readableFields_of_legible fields h.2,
      Bool.and_self]

end

/-- **What is legible reads back**, with its fields in order where they are wanted
so. -/
theorem read?_pretty {j : Json} (hj : legible maxDepth j) : read? j.pretty = some j.normalize := by
  rw [read?, parse?_pretty, reread_of_legible j hj, Option.bind_some,
    if_pos (readable_of_legible j hj)]

end Json

end Cutscene
