import Cutscene.Json.Record
import Cutscene.Proofs.Json.Pretty
/-!
# Json — what readers make of what was written

A value is encoded, laid out and read again, and a reader decodes what is read
(`Json.reread`). For each kind of part this says when that is the part that was
encoded, and that otherwise there is nothing: a text always, a whole number if it
fits a word (`word64?_reread`), a list or a table if each of its items
(`list?_reread`, `table?_reread`).
-/

namespace Cutscene

namespace Json

variable {α : Type} {depth : Nat}

/-! ## Parts without parts -/

@[simp] theorem string?_reread (s : String) : string? (reread depth (.string s)) = some s := by
  simp [reread, string?]

/-- A number, read where it was written, is a number. -/
theorem value_isNumber (t : NumberText) :
    (∃ n, t.value = .int n) ∨ (∃ x, t.value = .float x) ∨ t.value = .unreadable := by
  simp only [NumberText.value]
  split <;> (repeat' split) <;> simp

theorem reread_ofNat_ne_null (n : Nat) : reread depth (.ofNat n) ≠ .null := by
  rw [ofNat, (layout_int 0 depth n).2]
  rcases value_isNumber (.ofInt n) with ⟨k, h⟩ | ⟨x, h⟩ | h <;> simp [h]

theorem below?_reread {bound : Nat} (hbound : bound ≤ UInt64.size) (n : Nat) :
    below? bound (reread depth (.ofNat n)) = Option.guard (fun n => decide (n < bound)) n := by
  rw [ofNat, (layout_int 0 depth n).2, Option.guard]
  by_cases hn : n ≤ maxWord
  · simp [NumberText.value_ofInt hn, below?]
  · have hne : ¬ n < bound := by
      simp only [maxWord] at hn
      omega
    simp only [hne, decide_false, Bool.false_eq_true, if_false]
    have hvalue := NumberText.value_ofInt_of_lt (Nat.lt_of_not_le hn)
    cases h : (NumberText.ofInt n).value with
    | int k => exact absurd h (hvalue k)
    | _ => rfl

/-- Is the number an unsigned 64-bit word? -/
def isWord (n : Nat) : Bool := decide (n < UInt64.size)

@[simp] theorem word64?_reread (n : Nat) :
    word64? (reread depth (.ofNat n)) = Option.guard isWord n :=
  below?_reread le_rfl n

@[simp] theorem word32?_reread (n : Nat) :
    word32? (reread depth (.ofNat n)) = Option.guard (fun n => decide (n < UInt32.size)) n :=
  below?_reread (by decide) n

theorem readable_reread_ofNat {n : Nat} (hn : isWord n) :
    (reread depth (.ofNat n)).readable := by
  rw [ofNat, (layout_int 0 depth n).2,
    NumberText.value_ofInt (Nat.le_sub_one_of_lt (of_decide_eq_true hn))]
  rfl

/-- Do the digits of the number, if it has any, read back as it? -/
def rereads (x : Float) : Bool :=
  !x.isFinite || decide ((readNumber (numbers.render x)).float? = some x)

theorem reread_ofFloat (x : Float) :
    reread depth (.ofFloat x) = if x.isFinite then readNumber (numbers.render x) else .null := by
  cases hx : x.isFinite <;> simp [ofFloat, reread, hx]

theorem float?_reread {x : Float} (h : rereads x) :
    float? (reread depth (.ofFloat x)) = Option.guard Float.isFinite x := by
  cases hx : x.isFinite with
  | true =>
    rw [reread_ofFloat, hx, if_pos rfl, Option.guard, if_pos hx]
    simpa [rereads, hx] using h
  | false => simp [reread_ofFloat, hx, float?, Option.guard]

theorem readable_reread_ofFloat {x : Float} (h : rereads x) :
    (reread depth (.ofFloat x)).readable := by
  have hfloat : float? (reread depth (.ofFloat x)) = _ := float?_reread h
  cases hx : x.isFinite with
  | true =>
    rw [Option.guard, if_pos hx] at hfloat
    cases hj : reread depth (.ofFloat x) <;> simp_all [float?, readable]
  | false => simp [reread_ofFloat, hx, readable]

/-- What comes of a part that is there if it is kept. -/
@[simp] theorem guard_bind {β : Type} (p : α → Bool) (a : α) (f : α → Option β) :
    (Option.guard p a).bind f = if p a then f a else none := by
  cases h : p a <;> simp [Option.guard, h]

/-! ## Lists and tables -/

theorem rereadItems_eq (items : List Json) :
    rereadItems depth items = items.map (reread depth) := by
  induction items with
  | nil => rfl
  | cons j items ih => rw [rereadItems, ih, List.map_cons]

theorem rereadFields_eq (fields : List (String × Json)) :
    rereadFields depth fields = fields.map fun e => (e.1, reread depth e.2) := by
  induction fields with
  | nil => rfl
  | cons e fields ih =>
    obtain ⟨name, j⟩ := e
    rw [rereadFields, ih, List.map_cons]

/-- Where nothing else than the item itself can come of an item, nothing else than
the list itself can come of a list. -/
theorem mapM_guard {f : α → Option α} {p : α → Bool} {xs : List α}
    (h : ∀ x ∈ xs, f x = Option.guard p x) : xs.mapM f = Option.guard (·.all p) xs := by
  induction xs with
  | nil => simp [Option.guard]
  | cons x xs ih =>
    obtain ⟨hx, hxs⟩ := List.forall_mem_cons.1 h
    rw [List.mapM_cons, hx, ih hxs]
    cases hp : p x <;> cases hps : xs.all p <;> simp [Option.guard, hp, hps]

theorem list?_reread {read : Json → Option α} {encode : α → Json} {p : α → Bool} {xs : List α}
    (h : ∀ x ∈ xs, read (reread depth (encode x)) = Option.guard p x) :
    list? read (reread (depth + 1) (ofList encode xs)) = Option.guard (·.all p) xs := by
  simp only [ofList, reread, Nat.add_one_ne_zero, if_false, Nat.add_sub_cancel, rereadItems_eq,
    list?, List.mapM_map]
  exact mapM_guard h

theorem table?_reread {read : Json → Option α} {encode : α → Json} {p : α → Bool}
    {t : Table String α} (h : ∀ a ∈ t.values, read (reread depth (encode a)) = Option.guard p a) :
    table? read (reread (depth + 1) (ofTable encode t)) = Option.guard (·.values.all p) t := by
  have hentries : (t.entries.mapM fun e => (read (reread depth (encode e.2))).map fun a =>
      (e.1, a)) = Option.guard (·.all (p ·.2)) t.entries :=
    mapM_guard fun e he => by
      rw [h e.2 (List.mem_map_of_mem he), Option.map_guard]
      rfl
  have hvalues : t.values.all p = t.entries.all (p ·.2) := by
    rw [Table.values, List.all_map]
    rfl
  simp only [ofTable, reread, Nat.add_one_ne_zero, if_false, Nat.add_sub_cancel, rereadFields_eq,
    table?, List.map_map, List.mapM_map, Function.comp_def] at hentries ⊢
  rw [hentries, Option.map_guard, Table.ofList_entries, Option.guard, hvalues]

/-! ## Records and unions -/

theorem mainName?_plain {names : List String} {name : String} (hname : name ∈ names) :
    mainName? (names.map Field.plain) name = some name := by
  have hfind : names.find? (· == name) = some name := by
    cases hf : names.find? (· == name) with
    | none => exact absurd (beq_self_eq_true name) (List.find?_eq_none.1 hf name hname)
    | some n => simpa using List.find?_some hf
  simp [mainName?, List.find?_map, Field.plain, Function.comp_def, hfind]

/-- A record that has each of its fields once, under its main name. -/
theorem plainRecord?_eq {names : List String} {fields : List (String × Json)}
    (hnames : fields.map (·.1) = names) (hnodup : names.Nodup) :
    plainRecord? names (.object fields) = some ⟨true, fields⟩ := by
  simp only [plainRecord?, record?]
  rw [List.filterMap_congr (g := some), List.filterMap_some, hnames, if_pos hnodup]
  intro e he
  simp only [mainName?_plain (hnames ▸ List.mem_map_of_mem he), Option.map_some]

@[simp] theorem plainRecord?_reread {names : List String} {fields : List (String × Json)}
    (hnames : fields.map (·.1) = names) (hnodup : names.Nodup) :
    plainRecord? names (reread (depth + 1) (.object fields)) =
      some ⟨true, rereadFields depth fields⟩ := by
  rw [reread, if_neg (Nat.add_one_ne_zero depth), Nat.add_sub_cancel, plainRecord?_eq _ hnodup]
  rw [rereadFields_eq, List.map_map, ← hnames]
  rfl

/-- The only field of an object, where it is the one asked for. -/
theorem required_only (name : String) (read : Json → Option α) (j : Json) :
    (plainRecord? [name] (.object [(name, j)])).bind (·.required name read) = read j := by
  have hrecord : plainRecord? [name] (.object [(name, j)]) = some ⟨true, [(name, j)]⟩ :=
    plainRecord?_eq rfl (by simp)
  rw [hrecord, Option.bind_some, Record.required, Record.get?, List.lookup_cons_self,
    Option.bind_some]

/-- An object without the field that is asked for. -/
theorem required_absent {name other : String} (h : other ≠ name) (read : Json → Option α)
    (j : Json) :
    (plainRecord? [name] (.object [(other, j)])).bind (·.required name read) = none := by
  simp [plainRecord?, record?, mainName?, Field.plain, Record.required, Record.get?, h.symm]

namespace Record

@[simp] theorem get?_reread (fields : List (String × Json)) (name : String) :
    (⟨true, rereadFields depth fields⟩ : Record).get? name =
      (fields.lookup name).map (reread depth) := by
  rw [get?, rereadFields_eq]
  induction fields with
  | nil => rfl
  | cons e fields ih =>
    rw [List.map_cons, List.lookup_cons, List.lookup_cons, ih]
    split <;> rfl

@[simp] theorem required_reread (fields : List (String × Json)) (name : String)
    (read : Json → Option α) :
    (⟨true, rereadFields depth fields⟩ : Record).required name read =
      (fields.lookup name).bind fun j => read (reread depth j) := by
  rw [required, get?_reread]
  cases fields.lookup name <;> rfl

@[simp] theorem orElse_reread (fields : List (String × Json)) (name : String)
    (read : Json → Option α) (a : α) :
    (⟨true, rereadFields depth fields⟩ : Record).orElse name read a =
      (fields.lookup name).elim (some a) fun j => read (reread depth j) := by
  rw [orElse, get?_reread]
  cases fields.lookup name <;> rfl

/-- A value, or nothing where there is `null`. -/
def orNull? (read : Json → Option α) : Json → Option (Option α)
  | .null => some none
  | j => (read j).map some

@[simp] theorem nullable_reread (fields : List (String × Json)) (name : String)
    (read : Json → Option α) :
    (⟨true, rereadFields depth fields⟩ : Record).nullable name read =
      (fields.lookup name).elim (some none) fun j => orNull? read (reread depth j) := by
  rw [nullable, get?_reread]
  cases fields.lookup name with
  | none => rfl
  | some j => cases hj : reread depth j <;> simp [hj, orNull?]

@[simp] theorem optional_reread (fields : List (String × Json)) (name : String)
    (read : Json → Option α) :
    (⟨true, rereadFields depth fields⟩ : Record).optional name read =
      (fields.lookup name).elim (some none) fun j => orNull? read (reread depth j) := by
  rw [← nullable_reread, optional, nullable]
  simp

/-- An optional part, whose own form is never `null`. -/
theorem orNull?_reread {read : Json → Option α} {encode : α → Json} {p : α → Bool}
    (hnull : ∀ a, reread depth (encode a) ≠ .null)
    (hread : ∀ a, read (reread depth (encode a)) = Option.guard p a) (o : Option α) :
    orNull? read (reread depth (ofOption encode o)) = Option.guard (·.all p) o := by
  cases o with
  | none => simp [ofOption, reread, orNull?, Option.guard]
  | some a =>
    have hread := hread a
    rw [ofOption]
    cases hj : reread depth (encode a) with
    | null => exact absurd hj (hnull a)
    | _ =>
      rw [hj] at hread
      simp [orNull?, hread, Option.guard]

end Record

/-- The tag in front tells the variant, and the rest is its fields. -/
@[simp] theorem variant?_tagged {tag name : String} {numbered : List String}
    {fields : List (String × Json)} (hfields : tag ∉ fields.map (·.1)) :
    variant? tag numbered (tagged tag name fields) = some (name, .object fields) := by
  have hne : ∀ e ∈ fields, e.1 ≠ tag := fun e he heq =>
    hfields (List.mem_map.2 ⟨e, he, heq⟩)
  have hothers : fields.filter (·.1 == tag) = [] :=
    List.filter_eq_nil_iff.2 fun e he => by simpa using hne e he
  have hself : fields.filter (·.1 != tag) = fields :=
    List.filter_eq_self.2 fun e he => by simpa using hne e he
  simp [tagged, variant?, tag?, hothers, hself]

@[simp] theorem variant?_reread {tag name : String} {fields : List (String × Json)}
    (hfields : tag ∉ fields.map (·.1)) :
    variant? tag [] (reread (depth + 1) (tagged tag name fields)) =
      some (name, reread (depth + 1) (.object fields)) := by
  have hreread : ∀ fields, reread (depth + 1) (.object fields) =
      .object (rereadFields depth fields) := fun fields => by simp [reread]
  have hnames : (rereadFields depth fields).map (·.1) = fields.map (·.1) := by
    rw [rereadFields_eq, List.map_map]
    rfl
  have hself : reread (depth + 1) (tagged tag name fields) =
      tagged tag name (rereadFields depth fields) := by
    simp [tagged, reread, rereadFields]
  rw [hself, hreread]
  exact variant?_tagged (hnames ▸ hfields)

@[simp] theorem isBare_reread (fields : List (String × Json)) :
    isBare (reread (depth + 1) (.object fields)) := by
  simp [reread, isBare]

/-- A tag can always be read. -/
@[simp] theorem readable_reread_tagged (tag name : String) (fields : List (String × Json)) :
    (reread (depth + 1) (tagged tag name fields)).readable =
      readableFields (rereadFields depth fields) := by
  simp [tagged, reread, rereadFields, readable, readableFields]

end Json

end Cutscene
