import Cutscene.Proofs.Custom.Separator
import Cutscene.Proofs.Outcome
import Mathlib.Data.List.DropRight
/-!
# Custom instructions — reading and looking up

Each part of a text is read by itself (`Arguments.Spells`), so arguments have
one entry for each part, in order (`ofText_eq_ok_iff`).

Looking up remembers what was found. What is remembered is what the entries say
(`Arguments.Faithful`), every look-up keeps it so, and therefore questions are
answered from the last entry under their key, in whatever order and however
often they are asked (`Faithful.askAll_eq`).
-/

namespace Cutscene

namespace Arguments

/-! ## Reading a part -/

/-- The part is written for the key and the value: the key alone stands for
`true`; else a colon follows it, and the value is that of the text behind the
colon, in which a line may end only among the blanks at its front. -/
inductive Spells (part : List Char) : String × Value → Prop
  | alone {key : String} {gap : List Char} (hkey : isKey key) (hgap : Blank gap)
      (hpart : part = key.toList ++ gap) : Spells part (key, .bool true)
  | valued {key : String} {gap raw : List Char} {v : Value} (hkey : isKey key) (hgap : Blank gap)
      (hpart : part = key.toList ++ (gap ++ ':' :: raw)) (hline : '\n' ∉ Text.trimStart raw)
      (hvalue : value part (Text.trim raw) = .ok v) : Spells part (key, v)

theorem trimStart_append {gap : List Char} (h : Blank gap) (cs : List Char) :
    Text.trimStart (gap ++ cs) = Text.trimStart cs :=
  List.dropWhile_append_of_pos h

/-- No key goes on with a blank. -/
theorem Blank.head?_append {gap cs : List Char} (h : Blank gap)
    (hcs : cs.head?.any isKeyRest = false) : (gap ++ cs).head?.any isKeyRest = false := by
  cases gap with
  | nil => exact hcs
  | cons c gap =>
    have hc := h c List.mem_cons_self
    by_contra hrest
    have hkey : isKeyRest c := by simpa using hrest
    rw [isBlank_eq_false_of_isKeyRest hkey] at hc
    exact Bool.false_ne_true hc

theorem trim_trimStart (cs : List Char) : Text.trim (Text.trimStart cs) = Text.trim cs := by
  rw [Text.trim, Text.trimStart, Text.trimStart, List.dropWhile_idempotent]
  rfl

/-- What is read begins with a key, and goes on with a character that may not
stand in one. -/
theorem exists_key_of_keyed? {part : List Char} {p : String × Option (List Char)}
    (h : keyed? part = some p) :
    ∃ key rest, isKey key ∧ part = key.toList ++ rest ∧ rest.head?.any isKeyRest = false := by
  cases part with
  | nil => simp [keyed?] at h
  | cons c cs =>
    have hc : isKeyStart c := by
      rw [keyed?] at h
      split at h
      · simp at h
      · rename_i hc
        simpa using hc
    refine ⟨String.ofList (c :: cs.takeWhile isKeyRest), cs.dropWhile isKeyRest, ?_, ?_, ?_⟩
    · exact isKey_iff.2 ⟨c, _, String.toList_ofList, hc, fun x hx => List.mem_takeWhile_imp hx⟩
    · rw [String.toList_ofList, List.cons_append, List.takeWhile_append_dropWhile]
    · have hhead := List.head?_dropWhile_not isKeyRest cs
      cases hrest : (cs.dropWhile isKeyRest).head? with
      | none => rfl
      | some x => simpa [hrest] using hhead

/-- **A key is followed by nothing or by a colon**, with blanks between them. -/
theorem keyed?_eq_some_iff {part : List Char} {key : String} {o : Option (List Char)} :
    keyed? part = some (key, o) ↔
      isKey key ∧ ∃ gap, Blank gap ∧ ((part = key.toList ++ gap ∧ o = none) ∨
        ∃ raw, part = key.toList ++ (gap ++ ':' :: raw) ∧ '\n' ∉ Text.trimStart raw ∧
          o = some (Text.trimStart raw)) := by
  constructor
  · intro h
    obtain ⟨key', rest, hkey, rfl, hrest⟩ := exists_key_of_keyed? h
    have hgap : Blank (rest.takeWhile Text.isBlank) := fun x hx => List.mem_takeWhile_imp hx
    have hparts : rest.takeWhile Text.isBlank ++ Text.trimStart rest = rest :=
      List.takeWhile_append_dropWhile
    rw [keyed?_append hkey hrest] at h
    split at h
    · rename_i hnone
      obtain ⟨rfl, rfl⟩ := Prod.mk.inj (Option.some.inj h)
      rw [hnone, List.append_nil] at hparts
      exact ⟨hkey, _, hgap, .inl ⟨by rw [hparts], rfl⟩⟩
    · rename_i raw hcolon
      split at h
      · simp at h
      rename_i hline
      obtain ⟨rfl, rfl⟩ := Prod.mk.inj (Option.some.inj h)
      rw [hcolon] at hparts
      exact ⟨hkey, _, hgap, .inr ⟨raw, by rw [hparts], by simpa using hline, rfl⟩⟩
    · simp at h
  · rintro ⟨hkey, gap, hgap, ⟨rfl, rfl⟩ | ⟨raw, rfl, hline, rfl⟩⟩
    · have hnone : Text.trimStart gap = [] := List.dropWhile_eq_nil_iff.2 hgap
      have hrest : (gap ++ []).head?.any isKeyRest = false := hgap.head?_append rfl
      rw [List.append_nil] at hrest
      rw [keyed?_append hkey hrest, hnone]
    · rw [keyed?_append hkey (hgap.head?_append rfl), trimStart_append hgap,
        trimStart_cons (by decide)]
      exact if_neg (by simpa using hline)

theorem entry_eq_ok_iff {part : List Char} {e : String × Value} :
    entry part = .ok e ↔ Spells part e := by
  constructor
  · intro h
    rw [entry] at h
    split at h
    · simp at h
    · rename_i key hkeyed
      obtain rfl := Except.ok.inj h
      obtain ⟨hkey, gap, hgap, ⟨hpart, -⟩ | ⟨_, _, _, ho⟩⟩ := keyed?_eq_some_iff.1 hkeyed
      · exact .alone hkey hgap hpart
      · simp at ho
    · rename_i key raw hkeyed
      obtain ⟨hkey, gap, hgap, ⟨_, ho⟩ | ⟨text, hpart, hline, ho⟩⟩ := keyed?_eq_some_iff.1 hkeyed
      · simp at ho
      · obtain rfl := Option.some.inj ho
        rw [trim_trimStart] at h
        cases hv : value part (Text.trim text) with
        | error err => simp [hv, Except.map] at h
        | ok v =>
          rw [hv] at h
          obtain rfl := Except.ok.inj h
          exact .valued hkey hgap hpart hline hv
  · intro h
    cases h with
    | alone hkey hgap hpart =>
      rw [entry, keyed?_eq_some_iff.2 ⟨hkey, _, hgap, .inl ⟨hpart, rfl⟩⟩]
    | valued hkey hgap hpart hline hvalue =>
      rw [entry, keyed?_eq_some_iff.2 ⟨hkey, _, hgap, .inr ⟨_, hpart, hline, rfl⟩⟩]
      simp only [trim_trimStart, hvalue, Except.map]

/-- **Arguments have one entry for each part**, in order. -/
theorem ofText_eq_ok_iff {text : String} {a : Arguments} :
    ofText text = .ok a ↔ ∃ parts entries, split text = .ok parts ∧
      List.Forall₂ Spells parts entries ∧ a = ofEntries entries := by
  have hparts : ∀ parts entries, parts.mapM entry = .ok entries ↔
      List.Forall₂ Spells parts entries := fun parts entries => by
    rw [Except.mapM_eq_ok]
    simp only [entry_eq_ok_iff]
  simp only [← hparts]
  rw [ofText]
  cases split text with
  | error err => simp [Except.bind]
  | ok parts =>
    show (parts.mapM entry).map ofEntries = .ok a ↔ _
    cases hmapM : parts.mapM entry with
    | error err => simp [Except.map, hmapM]
    | ok entries => simp [Except.map, hmapM, eq_comm]

/-! ## Looking up -/

/-- The value of the last of the entries under a key. -/
def last? (entries : List (String × Value)) (key : String) : Option Value :=
  (entries.filter (·.1 = key)).getLast?.map (·.2)

theorem find?_eq_last? (a : Arguments) (key : String) : a.find? key = last? a.entries key := by
  rw [last?, List.getLast?_filter, find?]
  rfl

/-- What can be asked about a key: its value, the number or the text of it, and
whether it is `true`. -/
inductive Question where
  | value (key : String)
  | number (key : String)
  | string (key : String)
  | flag (key : String)

/-- What is said to a question. -/
inductive Reply where
  | value (found : Option Value)
  | number (x : Option Float)
  | string (s : Option String)
  | flag (b : Bool)

/-- The key that is asked about. -/
def Question.key : Question → String
  | .value key | .number key | .string key | .flag key => key

/-- The reply when this is the value under the key. -/
def Question.reply (found : Option Value) : Question → Reply
  | .value _ => .value found
  | .number _ => .number (found.bind Value.number?)
  | .string _ => .string (found.map Value.text)
  | .flag _ => .flag (decide (found.bind Value.bool? = some true))

/-- Asks one question. -/
def ask (a : Arguments) : Question → Reply × Arguments
  | .value key => (.value (a.get key).1, (a.get key).2)
  | .number key => (.number (a.number key).1, (a.number key).2)
  | .string key => (.string (a.string key).1, (a.string key).2)
  | .flag key => (.flag (a.flag key).1, (a.flag key).2)

/-- Asks one question after the other. -/
def askAll (a : Arguments) : List Question → List Reply × Arguments
  | [] => ([], a)
  | q :: questions =>
    let (reply, asked) := a.ask q
    let (replies, last) := asked.askAll questions
    (reply :: replies, last)

/-- Every question looks its key up once. -/
theorem ask_eq (a : Arguments) (q : Question) :
    a.ask q = (q.reply (a.get q.key).1, (a.get q.key).2) := by
  cases q with
  | value key => rfl
  | number key => rfl
  | string key => rfl
  | flag key =>
    rw [ask, flag, Question.reply, Question.key]
    rcases (a.get key).1.bind Value.bool? with _ | _ | _ <;> rfl

/-- What is remembered is what the entries say. -/
def Faithful (a : Arguments) : Prop :=
  ∀ key found, a.cache.get? key = some found → found = last? a.entries key

theorem faithful_ofEntries (entries : List (String × Value)) : (ofEntries entries).Faithful :=
  fun _ _ h => by simp [ofEntries] at h

theorem entries_get (a : Arguments) (key : String) : (a.get key).2.entries = a.entries := by
  rw [get]
  cases a.cache.get? key <;> rfl

namespace Faithful

variable {a : Arguments}

/-- **A look-up finds what the entries say**, remembered or not. -/
theorem get_fst (h : a.Faithful) (key : String) : (a.get key).1 = last? a.entries key := by
  rw [get]
  cases hcache : a.cache.get? key with
  | some found => exact h key found hcache
  | none => exact find?_eq_last? a key

/-- What it remembers is that. -/
theorem get_snd (h : a.Faithful) (key : String) : (a.get key).2.Faithful := by
  intro key' found hfound
  rw [entries_get]
  rw [get] at hfound
  cases hcache : a.cache.get? key with
  | some _ =>
    rw [hcache] at hfound
    exact h key' found hfound
  | none =>
    rw [hcache] at hfound
    by_cases hkey : key' = key
    · subst hkey
      rw [← find?_eq_last?]
      exact (Option.some.inj ((Table.get?_insert_self _ _ _).symm.trans hfound)).symm
    · exact h key' found ((Table.get?_insert_of_ne _ _ hkey).symm.trans hfound)

/-- **Whatever was asked before, a question is answered from the last entry
under its key.** -/
theorem askAll_eq (h : a.Faithful) (questions : List Question) :
    (a.askAll questions).1 = questions.map fun q => q.reply (last? a.entries q.key) := by
  induction questions generalizing a with
  | nil => rfl
  | cons q questions ih =>
    have hrest := ih (h.get_snd q.key)
    rw [entries_get] at hrest
    rw [askAll, ask_eq, h.get_fst, List.map_cons, ← hrest]

end Faithful

/-! ## Texts of arguments -/

/-- **What becomes of a text of arguments.** It is split just if its quotes are
closed and it is blank or has no blank field; its parts are then the fields in
their order, trimmed, or none; a comma inside quotes stands in one of the
fields, and one outside quotes parts them. The text is read just if it is split
and every part is an entry, and there is then one entry for each part, in order.
Whatever is asked of what was read, and in whatever order, every reply is that
of the last entry under the key, or that of nothing where there is none. -/
theorem laws_of_text (text : String) :
    ((∃ parts, split text = .ok parts) ↔
      Closed text.toList ∧ (Blank text.toList ∨ ∀ s ∈ fields text.toList, ¬ Blank s)) ∧
    (∀ parts, split text = .ok parts →
      parts = if Blank text.toList then [] else (fields text.toList).map Text.trim) ∧
    (∀ front back, text.toList = front ++ ',' :: back → ¬ Closed front →
      ∃ earlier x y later, fields text.toList = earlier ++ (x ++ ',' :: y) :: later ∧
        [','].intercalate (earlier ++ [x]) = front ∧ [','].intercalate (y :: later) = back) ∧
    (∀ front back, text.toList = front ++ ',' :: back → Closed front →
      fields text.toList = fields front ++ fields back) ∧
    (∀ a, ofText text = .ok a ↔ ∃ parts entries, split text = .ok parts ∧
      List.Forall₂ Spells parts entries ∧ a = ofEntries entries) ∧
    ∀ a, ofText text = .ok a → ∀ questions,
      (a.askAll questions).1 = questions.map fun q => q.reply (last? a.entries q.key) := by
  refine ⟨?_, fun parts h => (split_eq_ok_iff.1 h).2.2, ?_, ?_, fun a => ofText_eq_ok_iff, ?_⟩
  · simp only [split_eq_ok_iff, exists_and_left, exists_eq, and_true]
  · intro front back htext h
    rw [htext]
    exact exists_field_of_not_closed h back
  · intro front back htext h
    rw [htext, fields_append_of_closed h]
  · intro a h questions
    obtain ⟨_, entries, -, -, rfl⟩ := ofText_eq_ok_iff.1 h
    exact (faithful_ofEntries entries).askAll_eq questions

end Arguments

end Cutscene
