import Cutscene.Custom.Arguments
/-!
# Custom instructions — texts in quotes

A text is written between quotes with a backslash before every quote and every
backslash (`Arguments.escape`), and pairs so written stand between commas
(`Arguments.quotedText`). The entries come back as they were written
(`split_quotedText`): a quote that is protected ends nothing, and a comma inside
quotes separates nothing.

Two stages disagree with the writing. Reading takes the backslash away before a
quote and not before another backslash (`unescape_escape`), and an entry with a
line end is no key and value (`keyed?_quoted`). So pairs are read as they were
written exactly when no text has a backslash or a line end
(`ofText_quotedText`).
-/

namespace Cutscene

namespace Arguments

/-! ## Writing -/

/-- The text with a backslash before every quote and every backslash. -/
def escape : List Char → List Char
  | [] => []
  | c :: cs => if c = '"' ∨ c = '\\' then '\\' :: c :: escape cs else c :: escape cs

/-- Is it a letter or an underscore, followed by letters, digits, underscores
and hyphens? -/
def isKey (key : String) : Bool :=
  match key.toList with
  | [] => false
  | c :: cs => isKeyStart c && cs.all isKeyRest

/-- The entry of a key and a text, in quotes. -/
def quoted (p : String × String) : List Char :=
  p.1.toList ++ ':' :: '"' :: (escape p.2.toList ++ ['"'])

/-- The entries of keys and texts, with commas between them. -/
def quotedText (pairs : List (String × String)) : String :=
  String.ofList ([','].intercalate (pairs.map quoted))

/-- The text with every backslash twice. -/
def doubled : List Char → List Char
  | [] => []
  | c :: cs => if c = '\\' then '\\' :: '\\' :: doubled cs else c :: doubled cs

/-! ## Escapes -/

theorem escape_cons_of_plain {c : Char} (h : ¬ (c = '"' ∨ c = '\\')) (cs : List Char) :
    escape (c :: cs) = c :: escape cs :=
  if_neg h

/-- What is escaped begins with no quote, so a backslash before it protects
nothing. -/
theorem unescape_backslash_escape (cs : List Char) :
    unescape ('\\' :: escape cs) = '\\' :: unescape (escape cs) := by
  cases cs with
  | nil => rfl
  | cons c cs =>
    by_cases h : c = '"' ∨ c = '\\'
    · rw [escape, if_pos h]
      rfl
    · rw [escape_cons_of_plain h, unescape]
      intro rest _ heq
      exact h (.inl (List.cons.inj heq).1)

/-- **Reading undoes the escapes of quotes only.** -/
theorem unescape_escape (cs : List Char) : unescape (escape cs) = doubled cs := by
  induction cs with
  | nil => rfl
  | cons c cs ih =>
    by_cases hquote : c = '"'
    · subst hquote
      exact congrArg _ ih
    by_cases hslash : c = '\\'
    · subst hslash
      show unescape ('\\' :: '\\' :: escape cs) = '\\' :: '\\' :: doubled cs
      rw [unescape, unescape_backslash_escape, ih]
      simp
    · rw [escape_cons_of_plain (by simp [hquote, hslash]), doubled, if_neg hslash, unescape, ih]
      rintro _ rfl
      exact absurd rfl hslash

theorem mem_escape_iff {x : Char} (hx : x ≠ '\\') {cs : List Char} :
    x ∈ escape cs ↔ x ∈ cs := by
  induction cs with
  | nil => rfl
  | cons c cs ih =>
    rw [escape]
    split <;> simp [ih, hx]

theorem length_le_length_doubled (cs : List Char) : cs.length ≤ (doubled cs).length := by
  induction cs with
  | nil => exact Nat.le_refl _
  | cons c cs ih =>
    rw [doubled]
    split <;> simp only [List.length_cons] <;> omega

/-- Only a text without backslashes is as long as it is with all of them
twice. -/
theorem doubled_eq_self_iff {cs : List Char} : doubled cs = cs ↔ '\\' ∉ cs := by
  induction cs with
  | nil => simp [doubled]
  | cons c cs ih =>
    by_cases hslash : c = '\\'
    · subst hslash
      refine iff_of_false (fun heq => ?_) (by simp)
      have hlength := congrArg List.length heq
      have := length_le_length_doubled cs
      simp only [doubled, if_true, List.length_cons] at hlength
      omega
    · rw [doubled, if_neg hslash]
      simp [ih, Ne.symm hslash]

/-! ## Splitting -/

/-- No comma separates in the text, which leads from one place to another. -/
inductive Unbroken : Place → List Char → Place → Prop
  | nil (place : Place) : Unbroken place [] place
  | cons {place last : Place} {c : Char} {cs : List Char} (hc : ¬ (place = .outside ∧ c = ','))
      (h : Unbroken (place.next c) cs last) : Unbroken place (c :: cs) last

theorem Unbroken.append {place middle last : Place} {cs cs' : List Char}
    (h : Unbroken place cs middle) (h' : Unbroken middle cs' last) :
    Unbroken place (cs ++ cs') last := by
  induction h with
  | nil => exact h'
  | cons hc _ ih => exact .cons hc (ih h')

/-- The stretches with a text before the first of them. -/
def before (cs : List Char) : List (List Char) → List (List Char)
  | [] => [cs]
  | stretch :: rest => (cs ++ stretch) :: rest

theorem stretches_ne_nil (place : Place) (cs : List Char) : (stretches place cs).1 ≠ [] := by
  cases cs with
  | nil => simp [stretches]
  | cons c cs =>
    rw [stretches]
    split
    · simp
    · split <;> simp

theorem stretches_comma (cs : List Char) :
    stretches .outside (',' :: cs) =
      ([] :: (stretches .outside cs).1, (stretches .outside cs).2) := by
  rw [stretches, if_pos ⟨rfl, rfl⟩]

theorem stretches_cons {place : Place} {c : Char} (hc : ¬ (place = .outside ∧ c = ','))
    (cs : List Char) :
    stretches place (c :: cs) =
      (before [c] (stretches (place.next c) cs).1, (stretches (place.next c) cs).2) := by
  rw [stretches, if_neg hc]
  rcases stretches (place.next c) cs with ⟨_ | ⟨stretch, rest⟩, last⟩ <;> rfl

/-- What is unbroken is all in one stretch. -/
theorem Unbroken.stretches_append {place last : Place} {cs : List Char}
    (h : Unbroken place cs last) (rest : List Char) :
    stretches place (cs ++ rest) =
      (before cs (stretches last rest).1, (stretches last rest).2) := by
  induction h with
  | nil place =>
    have hne := stretches_ne_nil place rest
    rw [List.nil_append]
    rcases hs : stretches place rest with ⟨_ | ⟨stretch, more⟩, last⟩
    · exact absurd (congrArg Prod.fst hs) hne
    · rfl
  | @cons place last c cs hc _ ih =>
    rw [List.cons_append, stretches_cons hc, ih]
    cases (stretches last rest).1 <;> rfl

/-- Unbroken pieces with commas between them are split into these pieces. -/
theorem stretches_intercalate {p : List Char} {ps : List (List Char)}
    (h : ∀ x ∈ p :: ps, Unbroken .outside x .outside) :
    stretches .outside ([','].intercalate (p :: ps)) = (p :: ps, .outside) := by
  induction ps generalizing p with
  | nil =>
    have hp := (h p List.mem_cons_self).stretches_append []
    rw [List.append_nil] at hp
    rw [List.intercalate_singleton, hp]
    simp [stretches, before]
  | cons q ps ih =>
    obtain ⟨hp, hps⟩ := List.forall_mem_cons.1 h
    have hcut : [','].intercalate (p :: q :: ps) = p ++ ',' :: [','].intercalate (q :: ps) := by
      rw [List.intercalate_cons_cons, List.append_assoc, List.singleton_append]
    rw [hcut, hp.stretches_append, stretches_comma, ih hps, before, List.append_nil]

/-! ## Entries are unbroken -/

theorem isKeyRest_of_isKeyStart {c : Char} (h : isKeyStart c) : isKeyRest c := by
  simp only [isKeyStart, isKeyRest, Bool.or_eq_true, Char.isAlphanum] at h ⊢
  exact .inl (h.imp_left .inl)

/-- A key has none of the characters that may not stand in one, such as quotes,
commas and colons. -/
theorem ne_of_isKeyRest {c x : Char} (h : isKeyRest c) (hx : isKeyRest x = false) : c ≠ x := by
  rintro rfl
  rw [h] at hx
  simp at hx

theorem unbroken_of_keyRest {cs : List Char} (h : ∀ c ∈ cs, isKeyRest c) :
    Unbroken .outside cs .outside := by
  induction cs with
  | nil => exact .nil _
  | cons c cs ih =>
    obtain ⟨hc, hcs⟩ := List.forall_mem_cons.1 h
    refine .cons (fun hcomma => ne_of_isKeyRest hc (by decide) hcomma.2) ?_
    rw [Place.next, if_neg (ne_of_isKeyRest hc (by decide))]
    exact ih hcs

/-- What is escaped does not leave the quotes. -/
theorem unbroken_escape (cs : List Char) : Unbroken .quoted (escape cs) .quoted := by
  induction cs with
  | nil => exact .nil _
  | cons c cs ih =>
    rw [escape]
    split
    · exact .cons (by simp) (.cons (by simp [Place.next]) ih)
    · rename_i hplain
      refine .cons (by simp) ?_
      rw [Place.next, if_neg fun h => hplain (.inr h), if_neg fun h => hplain (.inl h)]
      exact ih

theorem isKey_iff {key : String} :
    isKey key ↔ ∃ c cs, key.toList = c :: cs ∧ isKeyStart c ∧ ∀ x ∈ cs, isKeyRest x := by
  unfold isKey
  cases key.toList with
  | nil => simp
  | cons c cs =>
    rw [Bool.and_eq_true, List.all_eq_true]
    constructor
    · exact fun h => ⟨c, cs, rfl, h⟩
    · rintro ⟨_, _, heq, h⟩
      obtain ⟨rfl, rfl⟩ := List.cons.inj heq
      exact h

theorem unbroken_quoted {p : String × String} (h : isKey p.1) :
    Unbroken .outside (quoted p) .outside := by
  obtain ⟨c, cs, hkey, hc, hcs⟩ := isKey_iff.1 h
  refine Unbroken.append (unbroken_of_keyRest ?_) ?_
  · rw [hkey]
    exact List.forall_mem_cons.2 ⟨isKeyRest_of_isKeyStart hc, hcs⟩
  · -- the colon stands outside, the first quote opens and the last one closes
    refine .cons (by simp) (.cons (by simp) ?_)
    exact (unbroken_escape _).append (.cons (by simp) (.nil _))

/-! ## Trimming -/

theorem trimStart_cons {c : Char} (hc : Text.isBlank c = false) (cs : List Char) :
    Text.trimStart (c :: cs) = c :: cs :=
  List.dropWhile_cons_of_neg (by simp [hc])

/-- Nothing is trimmed from a text between characters that are not blank. -/
theorem trim_bounded {c d : Char} (hc : Text.isBlank c = false) (hd : Text.isBlank d = false)
    (cs : List Char) : Text.trim (c :: (cs ++ [d])) = c :: (cs ++ [d]) := by
  rw [Text.trim, trimStart_cons hc, Text.trimEnd, ← List.cons_append, List.reverse_append,
    List.reverse_singleton, List.singleton_append, List.dropWhile_cons_of_neg (by simp [hd]),
    ← List.singleton_append, List.reverse_append, List.reverse_reverse, List.reverse_singleton]

theorem isBlank_eq_false_of_isKeyRest {c : Char} (h : isKeyRest c) : Text.isBlank c = false := by
  have hblanks : Text.blanks.all (fun x => !isKeyRest x) = true := by decide
  rw [Text.isBlank, List.contains_eq_mem, decide_eq_false_iff_not]
  intro hblank
  have hrest := List.all_eq_true.1 hblanks c hblank
  rw [h] at hrest
  exact Bool.false_ne_true hrest

theorem trim_quoted {p : String × String} (h : isKey p.1) : Text.trim (quoted p) = quoted p := by
  obtain ⟨c, cs, hkey, hc, -⟩ := isKey_iff.1 h
  have hquoted : quoted p = c :: ((cs ++ ':' :: '"' :: escape p.2.toList) ++ ['"']) := by
    simp [quoted, hkey]
  rw [hquoted]
  exact trim_bounded (isBlank_eq_false_of_isKeyRest (isKeyRest_of_isKeyStart hc)) (by decide) _

theorem isBlankText_quoted {p : String × String} (h : isKey p.1) :
    isBlankText (quoted p) = false := by
  rw [isBlankText, trim_quoted h]
  simp [quoted]

/-- **A text of entries comes apart into these entries.** -/
theorem split_quotedText {pairs : List (String × String)} (h : ∀ p ∈ pairs, isKey p.1) :
    split (quotedText pairs) = .ok (pairs.map quoted) := by
  cases pairs with
  | nil => rfl
  | cons p ps =>
    have hunbroken : ∀ x ∈ (p :: ps).map quoted, Unbroken .outside x .outside := fun x hx => by
      obtain ⟨q, hq, rfl⟩ := List.mem_map.1 hx
      exact unbroken_quoted (h q hq)
    have hcut : stretches .outside ([','].intercalate ((p :: ps).map quoted)) =
        ((p :: ps).map quoted, .outside) := stretches_intercalate hunbroken
    have hblank : ∀ x ∈ (p :: ps).map quoted, isBlankText x = false := fun x hx => by
      obtain ⟨q, hq, rfl⟩ := List.mem_map.1 hx
      exact isBlankText_quoted (h q hq)
    have htrim : ((p :: ps).map quoted).map Text.trim = (p :: ps).map quoted := by
      rw [List.map_map]
      exact List.map_congr_left fun q hq => trim_quoted (h q hq)
    have hbefore : (((p :: ps).map quoted).dropLast.any isBlankText) = false :=
      List.any_eq_false.2 fun x hx => by simp [hblank x (List.dropLast_subset _ hx)]
    have hlast : isBlankText (((p :: ps).map quoted).getLast?.getD []) = false := by
      rw [List.getLast?_eq_some_getLast (by simp), Option.getD_some]
      exact hblank _ (List.getLast_mem _)
    rw [split, quotedText, String.toList_ofList, hcut]
    simp only [hbefore, hlast, htrim, Bool.false_eq_true, if_false, ne_eq, not_true_eq_false,
      Bool.not_false, if_true]

/-! ## Reading an entry -/

/-- A key ends before a character that may not stand in one, and what follows
the blanks there decides: nothing, or a colon. -/
theorem keyed?_append {key : String} (h : isKey key) {rest : List Char}
    (hrest : rest.head?.any isKeyRest = false) :
    keyed? (key.toList ++ rest) =
      match Text.trimStart rest with
      | [] => some (key, none)
      | ':' :: raw =>
        if (Text.trimStart raw).contains '\n' then none else some (key, some (Text.trimStart raw))
      | _ => none := by
  obtain ⟨c, cs, hkey, hc, hcs⟩ := isKey_iff.1 h
  have hname : String.ofList (c :: cs) = key := by rw [← hkey, String.ofList_toList]
  have hspan : rest.takeWhile isKeyRest = [] ∧ rest.dropWhile isKeyRest = rest := by
    cases rest with
    | nil => exact ⟨rfl, rfl⟩
    | cons x rest =>
      have hx : ¬ isKeyRest x := by simpa using hrest
      exact ⟨List.takeWhile_cons_of_neg hx, List.dropWhile_cons_of_neg hx⟩
  rw [hkey, List.cons_append, keyed?, List.takeWhile_append_of_pos hcs,
    List.dropWhile_append_of_pos hcs, hspan.1, hspan.2, List.append_nil, hname]
  exact if_neg (by simp [hc])

/-- **An entry is a key and a value unless its text has a line end.** -/
theorem keyed?_quoted {p : String × String} (h : isKey p.1) :
    keyed? (quoted p) =
      if '\n' ∈ p.2.toList then none
      else some (p.1, some ('"' :: (escape p.2.toList ++ ['"']))) := by
  have hline : ('"' :: (escape p.2.toList ++ ['"'])).contains '\n' ↔ '\n' ∈ p.2.toList := by
    rw [List.contains_iff_mem]
    simp [mem_escape_iff]
  rw [quoted, keyed?_append h rfl, trimStart_cons (by decide)]
  simp only [trimStart_cons (show Text.isBlank '"' = false by decide), hline]

/-- A text in quotes is read as it stands between them, but for the
backslashes. -/
theorem value_quoted (part cs : List Char) :
    value part (Text.trim ('"' :: (escape cs ++ ['"']))) =
      .ok (.string (String.ofList (doubled cs))) := by
  rw [trim_bounded (by decide) (by decide), value]
  simp only [List.getLast?_append, List.getLast?_singleton, Option.some_or, if_true,
    List.dropLast_concat, unescape_escape]

/-- The key and the value that an entry of a key and a text is read as. -/
def reread (p : String × String) : String × Value :=
  (p.1, .string (String.ofList (doubled p.2.toList)))

theorem entry_quoted {p : String × String} (h : isKey p.1) :
    entry (quoted p) =
      if '\n' ∈ p.2.toList then .error (.malformed (String.ofList (quoted p)))
      else .ok (reread p) := by
  rw [entry, keyed?_quoted h]
  by_cases hline : '\n' ∈ p.2.toList
  · simp only [if_pos hline]
  · simp only [if_neg hline, value_quoted]
    rfl

/-- The first entry with a line end is refused; without one, all are read. -/
theorem mapM_entry_quoted {pairs : List (String × String)} (h : ∀ p ∈ pairs, isKey p.1) :
    (pairs.map quoted).mapM entry =
      match pairs.find? (fun p => '\n' ∈ p.2.toList) with
      | some p => .error (.malformed (String.ofList (quoted p)))
      | none => .ok (pairs.map reread) := by
  induction pairs with
  | nil => rfl
  | cons p ps ih =>
    obtain ⟨hp, hps⟩ := List.forall_mem_cons.1 h
    rw [List.map_cons, List.mapM_cons, entry_quoted hp, ih hps]
    by_cases hline : '\n' ∈ p.2.toList
    · rw [if_pos hline, List.find?_cons_of_pos (by simpa using hline)]
      rfl
    · rw [if_neg hline, List.find?_cons_of_neg (by simpa using hline)]
      cases ps.find? (fun p => decide ('\n' ∈ p.2.toList)) <;> rfl

theorem ofText_quotedText_eq {pairs : List (String × String)} (h : ∀ p ∈ pairs, isKey p.1) :
    ofText (quotedText pairs) =
      match pairs.find? (fun p => '\n' ∈ p.2.toList) with
      | some p => .error (.malformed (String.ofList (quoted p)))
      | none => .ok (ofEntries (pairs.map reread)) := by
  rw [ofText, split_quotedText h]
  simp only [Except.bind, mapM_entry_quoted h]
  cases pairs.find? (fun p => decide ('\n' ∈ p.2.toList)) <;> rfl

theorem reread_eq_iff {p : String × String} :
    reread p = (p.1, .string p.2) ↔ '\\' ∉ p.2.toList := by
  rw [← doubled_eq_self_iff]
  simp only [reread, Prod.mk.injEq, true_and, Value.string.injEq]
  constructor
  · exact fun heq => (String.toList_ofList).symm.trans (congrArg String.toList heq)
  · intro heq
    rw [heq, String.ofList_toList]

/-- **What pairs in quotes are read as.** The keys come back in their order,
each with its text in which every backslash stands twice, unless a text has a
line end: then the first such entry is refused. So pairs come back as they were
written exactly when no text has a backslash or a line end. -/
theorem ofText_quotedText {pairs : List (String × String)} (h : ∀ p ∈ pairs, isKey p.1) :
    (ofText (quotedText pairs) =
      match pairs.find? (fun p => '\n' ∈ p.2.toList) with
      | some p => .error (.malformed (String.ofList (quoted p)))
      | none => .ok (ofEntries (pairs.map reread))) ∧
    (ofText (quotedText pairs) = .ok (ofEntries (pairs.map fun p => (p.1, .string p.2))) ↔
      ∀ p ∈ pairs, '\\' ∉ p.2.toList ∧ '\n' ∉ p.2.toList) := by
  refine ⟨ofText_quotedText_eq h, ?_⟩
  rw [ofText_quotedText_eq h]
  cases hfind : pairs.find? (fun p => decide ('\n' ∈ p.2.toList)) with
  | some p =>
    have hline := List.find?_some hfind
    refine iff_of_false (by simp) fun hplain => ?_
    exact (hplain p (List.mem_of_find?_eq_some hfind)).2 (of_decide_eq_true hline)
  | none =>
    have hlines : ∀ p ∈ pairs, '\n' ∉ p.2.toList := by simpa using hfind
    have hread : pairs.map reread = (pairs.map fun p => (p.1, .string p.2)) ↔
        ∀ p ∈ pairs, '\\' ∉ p.2.toList := by
      simp only [List.map_inj_left, reread_eq_iff]
    constructor
    · intro heq
      have hentries := congrArg Arguments.entries (Except.ok.inj heq)
      exact fun p hp => ⟨hread.1 hentries p hp, hlines p hp⟩
    · intro hplain
      simp only [hread.2 fun p hp => (hplain p hp).1]

/-- Quotes, commas and colons are no obstacle. -/
theorem ofText_quotedText_label :
    ofText "label:\"a, \\\"b\\\": c\"" = .ok (ofEntries [("label", .string "a, \"b\": c")]) :=
  (@ofText_quotedText [("label", "a, \"b\": c")] (by decide)).2.2 (by decide)

/-- **Not every text can be passed.** A backslash comes back as two, and a text
with a line end is refused. -/
theorem exists_not_reread :
    (isKey "path" ∧ ofText (quotedText [("path", "a\\b")]) =
      .ok (ofEntries [("path", .string "a\\\\b")])) ∧
    (isKey "note" ∧ ofText (quotedText [("note", "a\nb")]) =
      .error (.malformed "note:\"a\nb\"")) := by
  refine ⟨⟨by decide, ?_⟩, by decide, ?_⟩
  · rw [ofText_quotedText_eq (by decide)]
    rfl
  · rw [ofText_quotedText_eq (by decide)]
    rfl

end Arguments

end Cutscene
