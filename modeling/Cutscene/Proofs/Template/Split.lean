import Cutscene.Run.Variable
import Mathlib.Data.List.Basic
import Mathlib.Data.List.TakeWhile
/-!
# Templates — the stretches of a source

Scanned from left to right, a source falls into stretches in one way only
(`Stretch.Splits.unique`): a placeholder is taken wherever one starts, and a
literal reaches to the next placeholder or to the end. Cutting a source yields
the pieces of these stretches, one for each (`exists_splits`), so nothing of the
source is lost or repeated.

What is rendered is therefore known stretch by stretch
(`Template.splits_parse`): a literal stands for itself and a placeholder for its
variable's text, whatever that text looks like.
-/

namespace Cutscene

/-! ## Homes -/

namespace Home

/-- The name that a placeholder uses for the home. -/
def name : Home → List Char
  | .context => "local".toList
  | .world => "global".toList
  | .owner => "self".toList

/-- The reference to a variable of the home. -/
def ref (key : String) : Home → VariableRef
  | .context => .ofContext key
  | .world => .ofWorld key
  | .owner => .ofOwner key

theorem names_eq : names = [context, world, owner].map fun home => (home.name, home) := rfl

theorem mem_names_iff {name : List Char} {home : Home} :
    (name, home) ∈ names ↔ name = home.name := by
  cases home <;> simp [names, Home.name]

/-- A name and a colon tell the homes apart. -/
theorem isPrefixOf_name (home home' : Home) (cs : List Char) :
    (home'.name ++ [':']).isPrefixOf (home.name ++ ':' :: cs) = decide (home' = home) := by
  cases home <;> cases home' <;> rfl

end Home

/-! ## Stretches -/

/-- A stretch of a source: literal text, or a placeholder with its key as it is
written. -/
inductive Stretch where
  | literal (text : List Char)
  | placeholder (home : Home) (key : List Char)
  deriving DecidableEq

/-- The key may stand in a placeholder. -/
def Template.IsKey (key : List Char) : Prop := key ≠ [] ∧ ∀ c ∈ key, c ≠ '\x7b' ∧ c ≠ '\x7d'

namespace Stretch

open Template (IsKey)

/-- The stretch as it stands in the source. -/
def chars : Stretch → List Char
  | .literal text => text
  | .placeholder home key => '\x7b' :: (home.name ++ ':' :: (key ++ ['\x7d']))

/-- The piece that is made of the stretch: a key is trimmed. -/
def piece : Stretch → Piece
  | .literal text => .literal (String.ofList text)
  | .placeholder home key => .placeholder home (String.ofList (Text.trim key))

/-- What is shown for the stretch: a literal itself, and for a placeholder the
text of its variable, if it is set. -/
def shown (m : Machine) : Stretch → String
  | .literal text => String.ofList text
  | .placeholder home key =>
    ((m.read (home.ref (String.ofList (Text.trim key)))).map Value.text).getD ""

/-- A placeholder starts where the text does. -/
def Starts (cs : List Char) : Prop :=
  ∃ home key rest, IsKey key ∧ cs = (placeholder home key).chars ++ rest

/-- No placeholder starts inside a text that these characters follow. -/
def Plain (text cs : List Char) : Prop :=
  ∀ passed left, text = passed ++ left → left ≠ [] → ¬ Starts (left ++ cs)

/-- The stretches are those of the text, scanned from left to right: a
placeholder is taken where one starts, and a literal reaches to where one does
or to the end. -/
inductive Splits : List Stretch → List Char → Prop
  | nil : Splits [] []
  | placeholder {home : Home} {key : List Char} {rest : List Stretch} {cs : List Char}
      (hkey : IsKey key) (h : Splits rest cs) :
      Splits (.placeholder home key :: rest) ((Stretch.placeholder home key).chars ++ cs)
  | literal {text : List Char} {rest : List Stretch} {cs : List Char} (hne : text ≠ [])
      (hplain : Plain text cs) (hrest : ∀ more, rest.head? ≠ some (.literal more))
      (h : Splits rest cs) : Splits (.literal text :: rest) (text ++ cs)

/-! ## Placeholders -/

theorem isKey_iff {key : List Char} :
    IsKey key ↔ key ≠ [] ∧ ∀ c ∈ key, Template.isKeyChar c := by
  simp [IsKey, Template.isKeyChar]

/-- What is read after a name is the key up to the closing brace. -/
theorem takeWhile_key {key : List Char} (h : IsKey key) (after : List Char) :
    (key ++ '\x7d' :: after).takeWhile Template.isKeyChar = key ∧
      (key ++ '\x7d' :: after).dropWhile Template.isKeyChar = '\x7d' :: after := by
  have hchars := (isKey_iff.1 h).2
  rw [List.takeWhile_append_of_pos hchars, List.dropWhile_append_of_pos hchars]
  have hclose : Template.isKeyChar '\x7d' = false := rfl
  simp [hclose]

/-- **Reading a placeholder finds the one that starts there**, and only then. -/
theorem placeholder?_eq_some_iff {cs key after : List Char} {home : Home} :
    Template.placeholder? cs = some (home, key, after) ↔
      IsKey key ∧ '\x7b' :: cs = (placeholder home key).chars ++ after := by
  constructor
  · intro h
    obtain ⟨⟨name, home'⟩, hmem, h⟩ := List.exists_of_findSome?_eq_some h
    obtain rfl := Home.mem_names_iff.1 hmem
    simp only at h
    split at h
    · rename_i hprefix
      obtain ⟨rest, rfl⟩ := List.isPrefixOf_iff_prefix.1 hprefix
      have hdrop : (home'.name ++ [':'] ++ rest).drop (home'.name.length + 1) = rest :=
        List.drop_left' (by simp)
      rw [hdrop] at h
      split at h
      · rename_i after' hclose
        split at h
        · simp at h
        · rename_i hkey
          simp only [Option.some.injEq, Prod.mk.injEq] at h
          obtain ⟨rfl, rfl, rfl⟩ := h
          have hall : ∀ c ∈ rest.takeWhile Template.isKeyChar, Template.isKeyChar c :=
            fun c hc => List.mem_takeWhile_imp hc
          refine ⟨isKey_iff.2 ⟨by simpa using hkey, hall⟩, ?_⟩
          have hparts : rest.takeWhile Template.isKeyChar ++ '\x7d' :: after' = rest := by
            rw [← hclose, List.takeWhile_append_dropWhile]
          simp only [chars, List.cons_append, List.append_assoc, List.nil_append, hparts]
      · simp at h
    · simp at h
  · rintro ⟨hkey, hcs⟩
    obtain rfl : cs = home.name ++ ':' :: (key ++ '\x7d' :: after) := by
      simpa [chars] using hcs
    obtain ⟨htake, hdrop⟩ := takeWhile_key hkey after
    have hne : key.isEmpty = false := by simpa using hkey.1
    have hrest : (home.name ++ ':' :: (key ++ '\x7d' :: after)).drop (home.name.length + 1) =
        key ++ '\x7d' :: after := by
      rw [← List.singleton_append, ← List.append_assoc]
      exact List.drop_left' (by simp)
    -- of the three names only that of the home is one the text begins with
    simp only [Template.placeholder?, Home.names_eq, List.map_cons, List.map_nil,
      List.findSome?_cons, List.findSome?_nil, Home.isPrefixOf_name]
    cases home <;> simp only [hrest, htake, hdrop, hne, reduceCtorEq, decide_true, decide_false,
      Bool.false_eq_true, if_true, if_false]

theorem starts_cons_iff {c : Char} {cs : List Char} :
    Starts (c :: cs) ↔ c = '\x7b' ∧ (Template.placeholder? cs).isSome := by
  constructor
  · rintro ⟨home, key, rest, hkey, h⟩
    obtain rfl : c = '\x7b' := (List.cons.inj h).1
    exact ⟨rfl, Option.isSome_iff_exists.2 ⟨_, placeholder?_eq_some_iff.2 ⟨hkey, h⟩⟩⟩
  · rintro ⟨rfl, h⟩
    obtain ⟨⟨home, key, rest⟩, h⟩ := Option.isSome_iff_exists.1 h
    obtain ⟨hkey, h⟩ := placeholder?_eq_some_iff.1 h
    exact ⟨home, key, rest, hkey, h⟩

/-- One placeholder starts in one place. -/
theorem placeholder_inj {home home' : Home} {key key' rest rest' : List Char} (hkey : IsKey key)
    (hkey' : IsKey key')
    (h : (placeholder home key).chars ++ rest = (placeholder home' key').chars ++ rest') :
    home = home' ∧ key = key' ∧ rest = rest' := by
  have hread := placeholder?_eq_some_iff.2
    ⟨hkey, (rfl : '\x7b' :: _ = (placeholder home key).chars ++ rest)⟩
  have hread' := placeholder?_eq_some_iff.2 ⟨hkey', h⟩
  simpa using hread.symm.trans hread'

/-! ## One way to split -/

namespace Plain

variable {text cs : List Char} {c : Char}

theorem nil : Plain [] cs := fun passed left h hne => by
  simp only [List.nil_eq_append_iff] at h
  exact absurd h.2 hne

/-- A text stays plain when a character is added at which no placeholder
starts. -/
theorem concat (h : Plain text (c :: cs)) (hc : ¬ Starts (c :: cs)) : Plain (text ++ [c]) cs := by
  intro passed left heq hne
  obtain ⟨left, last, rfl⟩ := (List.eq_nil_or_concat' left).resolve_left hne
  rw [← List.append_assoc] at heq
  obtain ⟨rfl, hlast⟩ := List.append_inj' heq rfl
  obtain rfl : c = last := by simpa using hlast
  rw [List.append_assoc, List.singleton_append]
  by_cases hleft : left = []
  · rw [hleft, List.nil_append]
    exact hc
  · exact h passed left rfl hleft

end Plain

namespace Splits

variable {p q : List Stretch} {text text' cs cs' : List Char}

/-- **The stretches make up the source.** -/
theorem flatMap_chars (h : Splits p cs) : p.flatMap chars = cs := by
  induction h with
  | nil => rfl
  | placeholder hkey _ ih => rw [List.flatMap_cons, ih]
  | literal hne hplain hrest _ ih => rw [List.flatMap_cons, ih, chars]

/-- After a literal there is a placeholder or the end. -/
theorem starts (h : Splits p cs) (hhead : ∀ more, p.head? ≠ some (.literal more)) (hne : cs ≠ []) :
    Starts cs := by
  cases h with
  | nil => exact absurd rfl hne
  | placeholder hkey _ => exact ⟨_, _, _, hkey, rfl⟩
  | literal => exact absurd rfl (hhead _)

/-- A plain text is no longer than a literal that stands in the same place. -/
theorem length_le (h : Splits p cs) (hhead : ∀ more, p.head? ≠ some (.literal more))
    (hplain : Plain text' cs') (heq : text ++ cs = text' ++ cs') :
    text'.length ≤ text.length := by
  rcases List.append_eq_append_iff.1 heq with ⟨left, rfl, rfl⟩ | ⟨left, rfl, rfl⟩
  · by_cases hleft : left = []
    · rw [hleft, List.append_nil]
    · exact absurd (h.starts hhead (by simp [hleft])) (hplain text left rfl hleft)
  · simp

/-- **A text is split in one way only.** -/
theorem unique (h : Splits p cs) (h' : Splits q cs) : p = q := by
  induction h generalizing q with
  | nil =>
    generalize hcs : ([] : List Char) = cs at h'
    cases h' with
    | nil => rfl
    | placeholder => simp [chars] at hcs
    | literal hne => exact absurd (List.append_eq_nil_iff.1 hcs.symm).1 hne
  | @placeholder home key rest cs hkey h ih =>
    generalize hcs : (Stretch.placeholder home key).chars ++ cs = source at h'
    cases h' with
    | nil => simp [chars] at hcs
    | placeholder hkey' h' =>
      obtain ⟨rfl, rfl, rfl⟩ := placeholder_inj hkey hkey' hcs
      rw [ih h']
    | literal hne hplain =>
      exact absurd ⟨home, key, cs, hkey, hcs.symm⟩ (hplain [] _ rfl hne)
  | @literal text rest cs hne hplain hrest h ih =>
    generalize hcs : text ++ cs = source at h'
    cases h' with
    | nil => exact absurd (List.append_eq_nil_iff.1 hcs).1 hne
    | placeholder hkey' =>
      exact absurd ⟨_, _, _, hkey', hcs⟩ (hplain [] _ rfl hne)
    | literal hne' hplain' hrest' h' =>
      -- neither of the two literals can be the longer one
      have hlength := Nat.le_antisymm (h'.length_le hrest' hplain hcs.symm)
        (h.length_le hrest hplain' hcs)
      obtain ⟨rfl, rfl⟩ := List.append_inj hcs hlength
      rw [ih h']

end Splits

end Stretch

/-! ## Cutting -/

namespace Template

open Stretch

/-- Literal text that was passed makes a stretch of its own, unless there is
none. -/
theorem splits_literal {written cs : List Char} {rest : List Stretch}
    (hplain : Plain written.reverse cs) (hrest : ∀ more, rest.head? ≠ some (.literal more))
    (h : Splits rest cs) :
    ∃ stretches, Splits stretches (written.reverse ++ cs) ∧
      literal written ++ rest.map piece = stretches.map piece := by
  by_cases hwritten : written = []
  · subst hwritten
    exact ⟨rest, h, rfl⟩
  · refine ⟨.literal written.reverse :: rest, .literal (by simpa using hwritten) hplain hrest h, ?_⟩
    simp [literal, hwritten, piece]

/-- **Cutting yields the pieces of the stretches**, one for each. -/
theorem exists_splits (written cs : List Char) (hplain : Plain written.reverse cs) :
    ∃ stretches, Splits stretches (written.reverse ++ cs) ∧
      cut written cs = stretches.map piece := by
  -- along the cut: the text passed so far stays plain until a placeholder starts
  fun_induction cut written cs with
  | case1 written => simpa using splits_literal hplain (by simp) .nil
  | case2 written cs home key after hread ih =>
    obtain ⟨rest, hrest, hcut⟩ := ih .nil
    obtain ⟨hkey, hchars⟩ := placeholder?_eq_some_iff.1 hread
    have hsplits : Splits _ ((placeholder home key).chars ++ after) := .placeholder hkey hrest
    rw [← hchars] at hsplits
    obtain ⟨stretches, hstretches, hpieces⟩ := splits_literal hplain (by simp) hsplits
    refine ⟨stretches, hstretches, ?_⟩
    rw [hcut, ← hpieces]
    rfl
  | case3 written cs hread ih =>
    have hstarts : ¬ Starts ('\x7b' :: cs) := fun h => by
      have := (starts_cons_iff.1 h).2
      simp [hread] at this
    simpa using ih (by simpa using hplain.concat hstarts)
  | case4 written c cs hc ih =>
    have hstarts : ¬ Starts (c :: cs) := fun h => hc (starts_cons_iff.1 h).1
    simpa using ih (by simpa using hplain.concat hstarts)

/-! ## Rendering -/

theorem textOf_piece (m : Machine) (x : Stretch) : m.textOf x.piece = x.shown m := by
  cases x with
  | literal text => rfl
  | placeholder home key => cases home <;> rfl

/-- What is rendered is what the pieces stand for, in order. -/
theorem render_eq (t : Template) (m : Machine) :
    t.render m = String.join (t.pieces.map m.textOf) := by
  rw [render, String.join, List.foldl_map]

/-- A template is a text by itself just if it has no placeholder. -/
theorem static?_eq_some_iff {stretches : List Stretch} {cs : List Char} (h : Splits stretches cs)
    (text : String) :
    static? ⟨stretches.map piece⟩ = some text ↔
      (∀ home key, Stretch.placeholder home key ∉ stretches) ∧ text = String.ofList cs := by
  cases h with
  | nil => simp [static?, eq_comm]
  | placeholder hkey h =>
    refine iff_of_false (by simp [static?, piece]) fun hnone => hnone.1 _ _ List.mem_cons_self
  | literal hne hplain hrest h =>
    cases h with
    | nil => simp [static?, piece, eq_comm]
    | placeholder hkey h =>
      refine iff_of_false (by simp [static?, piece]) fun hnone => ?_
      exact hnone.1 _ _ (List.mem_cons_of_mem _ List.mem_cons_self)
    | literal => exact absurd rfl (hrest _)

/-- **A source is split in one way, and its template says what each stretch
says**: the pieces are those of the stretches, which make up the source; what is
rendered is what is shown for them, one after the other; and the template is a
text by itself just if no stretch is a placeholder, and then that text is the
source and all that is ever rendered. -/
theorem splits_parse (source : String) :
    ∃ stretches, Splits stretches source.toList ∧
      (∀ others, Splits others source.toList → others = stretches) ∧
      (parse source).pieces = stretches.map piece ∧
      stretches.flatMap chars = source.toList ∧
      (∀ m, (parse source).render m = String.join (stretches.map (shown m))) ∧
      (∀ text, (parse source).static? = some text ↔
        (∀ home key, Stretch.placeholder home key ∉ stretches) ∧ text = source) ∧
      ∀ text, (parse source).static? = some text → ∀ m, (parse source).render m = text := by
  obtain ⟨stretches, hsplits, hpieces⟩ := exists_splits [] source.toList .nil
  rw [List.reverse_nil, List.nil_append] at hsplits
  have hparse : parse source = ⟨stretches.map piece⟩ := congrArg Template.mk hpieces
  have hrender : ∀ m, (parse source).render m = String.join (stretches.map (shown m)) := by
    intro m
    rw [render_eq, hparse, List.map_map]
    exact congrArg String.join (List.map_congr_left fun x _ => textOf_piece m x)
  have hstatic : ∀ text, (parse source).static? = some text ↔
      (∀ home key, Stretch.placeholder home key ∉ stretches) ∧ text = source := by
    intro text
    rw [hparse, static?_eq_some_iff hsplits, String.ofList_toList]
  refine ⟨stretches, hsplits, fun others h => h.unique hsplits, hpieces, hsplits.flatMap_chars,
    hrender, hstatic, fun _ htext m => render_of_static? htext m⟩

/-- A brace that opens no placeholder is literal, also just before one that does. -/
example : (parse "\x7blocal:\x7bself: a \x7d").pieces =
    [.literal "\x7blocal:", .placeholder .owner "a"] := by
  decide +kernel

end Template

end Cutscene
