import Cutscene.Proofs.Decimal.Whole
import Cutscene.Proofs.Json.Codec
/-!
# Json — readers that undo writers

A reader undoes a writer on the values for which there is JSON (`Undoes`): what is
written of such a value is read back as it, and no other value is read from JSON
whose doubles are finite. The law of a type is put together from those of its parts:
lists, tables, optional parts, the fields of a record and the variants of a union.
A field may be read under another name, from an array, or from its default, so the
second half is about every way to write a value and not only about the writer's.
-/

namespace Cutscene

namespace Json

/-! ## Finite doubles -/

mutual

/-- Are all doubles in the value finite? -/
def allFinite : Json → Bool
  | .float x => x.isFinite
  | .array items => allFiniteItems items
  | .object fields => allFiniteFields fields
  | _ => true

/-- Are all doubles in the items finite? -/
def allFiniteItems : List Json → Bool
  | [] => true
  | j :: rest => j.allFinite && allFiniteItems rest

/-- Are all doubles in the fields finite? -/
def allFiniteFields : List (String × Json) → Bool
  | [] => true
  | (_, j) :: rest => j.allFinite && allFiniteFields rest

end

@[simp] theorem allFinite_array (items : List Json) :
    (array items).allFinite ↔ ∀ j ∈ items, j.allFinite := by
  rw [allFinite]
  induction items with
  | nil => simp [allFiniteItems]
  | cons j items ih => simp [allFiniteItems, ih]

@[simp] theorem allFinite_object (fields : List (String × Json)) :
    (object fields).allFinite ↔ ∀ e ∈ fields, e.2.allFinite := by
  rw [allFinite]
  induction fields with
  | nil => simp [allFiniteFields]
  | cons e fields ih => simp [allFiniteFields, ih]

@[simp] theorem readable_array (items : List Json) :
    (array items).readable ↔ ∀ j ∈ items, j.readable := by
  rw [readable]
  induction items with
  | nil => simp [readableItems]
  | cons j items ih => simp [readableItems, ih]

@[simp] theorem readable_object (fields : List (String × Json)) :
    (object fields).readable ↔ ∀ e ∈ fields, e.2.readable := by
  rw [readable]
  induction fields with
  | nil => simp [readableFields]
  | cons e fields ih => simp [readableFields, ih]

@[simp] theorem readable_ofFloat (x : Float) : (ofFloat x).readable := by
  rw [ofFloat]
  split <;> rfl

@[simp] theorem readable_ofNat (n : Nat) : (ofNat n).readable := rfl

@[simp] theorem readable_string (s : String) : (string s).readable := rfl

theorem readable_ofOption {α : Type} {write : α → Json} (h : ∀ a, (write a).readable)
    (o : Option α) : (ofOption write o).readable := by
  cases o with
  | none => rfl
  | some a => exact h a

@[simp] theorem readable_ofList_string (texts : List String) :
    (ofList string texts).readable := by
  rw [ofList, readable_array]
  intro j hj
  obtain ⟨s, -, rfl⟩ := List.mem_map.1 hj
  rfl

/-- A whole number, read as a double, is finite. -/
theorem isFinite_floatOfInt (n : Int) : (floatOfInt n).isFinite := by
  obtain ⟨k, hvalue⟩ := Decimal.exists_value?_toFloat (UInt64.ofNat n.natAbs)
  rw [floatOfInt]
  split
  · exact Decimal.isFinite_of_value? (Decimal.value?_neg hvalue)
  · exact Decimal.isFinite_of_value? hvalue

/-! ## The law -/

variable {α β : Type} {read : Json → Option α} {write : α → Json} {p : α → Bool}

/-- On the values that `p` picks out, `read` undoes `write`, and it reads no others. -/
structure Undoes (read : Json → Option α) (write : α → Json) (p : α → Bool) : Prop where
  /-- What is written is read back. -/
  read_write {a : α} (ha : p a) : read (write a) = some a
  /-- What is read could have been written. -/
  of_read {j : Json} {a : α} (hj : j.allFinite) (h : read j = some a) : p a

theorem undoes_bool : Undoes bool? .bool fun _ => true := ⟨fun _ => rfl, fun _ _ => rfl⟩

theorem undoes_string : Undoes string? .string fun _ => true := ⟨fun _ => rfl, fun _ _ => rfl⟩

theorem undoes_float : Undoes float? ofFloat Float.isFinite where
  read_write hx := by rw [ofFloat, if_pos hx, float?]
  of_read {j x} hj h := by
    cases j <;> simp only [float?, Option.some.injEq, reduceCtorEq] at h
    · exact h ▸ isFinite_floatOfInt _
    · exact h ▸ hj

theorem undoes_below (bound : Nat) : Undoes (below? bound) ofNat fun n => decide (n < bound) where
  read_write {n} hn := by
    have hn : n < bound := of_decide_eq_true hn
    simp [ofNat, below?, hn]
  of_read {j n} _ h := by
    cases j <;> simp only [below?, Option.ite_none_right_eq_some, Option.some.injEq,
      reduceCtorEq] at h
    obtain ⟨hk, rfl⟩ := h
    exact decide_eq_true (by omega)

theorem undoes_word64 : Undoes word64? ofNat isWord := undoes_below UInt64.size

theorem undoes_word32 : Undoes word32? ofNat fun n => decide (n < UInt32.size) :=
  undoes_below UInt32.size

theorem ofFloat_ne_null {x : Float} (hx : x.isFinite) : ofFloat x ≠ .null := by
  simp [ofFloat, hx]

/-- Names that are looked up as they are written. -/
theorem undoes_innerOneOf {names : List (String × α)} {name : α → String}
    (h : ∀ a, names.lookup (name a) = some a) :
    Undoes (innerOneOf? names) (fun a => .string (name a)) fun _ => true :=
  ⟨fun _ => h _, fun _ _ => rfl⟩

/-! ## Lists, tables and optional parts -/

theorem Undoes.list (h : Undoes read write p) :
    Undoes (list? read) (ofList write) (·.all p) where
  read_write {xs} hxs := by
    have hguard : ∀ x ∈ xs, (read ∘ write) x = Option.guard p x := fun x hx => by
      have hp : p x := List.all_eq_true.1 hxs x hx
      rw [Function.comp_apply, h.read_write hp, Option.guard, if_pos hp]
    rw [ofList, list?, List.mapM_map, mapM_guard hguard, Option.guard, if_pos hxs]
  of_read {j xs} hj hread := by
    cases j with
    | array items =>
      rw [allFinite_array] at hj
      refine List.all_eq_true.2 fun x hx => ?_
      obtain ⟨j, hj', hx⟩ := mem_of_mapM hread hx
      exact h.of_read (hj j hj') hx
    | _ => simp [list?] at hread

/-- What a table made of a list holds was in the list. -/
theorem mem_values_ofList {entries : List (String × α)} {a : α}
    (h : a ∈ (Table.ofList entries).values) : ∃ e ∈ entries, e.2 = a := by
  obtain ⟨e, he, rfl⟩ := List.mem_map.1 h
  exact ⟨e, Table.mem_of_get?_ofList (Table.mem_entries_iff.1 he), rfl⟩

theorem Undoes.table (h : Undoes read write p) :
    Undoes (table? read) (ofTable write) (·.values.all p) where
  read_write {t} ht := by
    have hguard : ∀ e ∈ t.entries, ((read (write e.2)).map fun a => (e.1, a)) =
        Option.guard (fun e => p e.2) e := fun e he => by
      have hp : p e.2 := List.all_eq_true.1 ht e.2 (List.mem_map_of_mem he)
      rw [h.read_write hp, Option.map_some, Option.guard, if_pos hp]
    have hall : t.entries.all (fun e => p e.2) := by
      rw [Table.values, List.all_map] at ht
      exact ht
    rw [ofTable, table?, List.mapM_map]
    simp only [Function.comp_def]
    rw [mapM_guard hguard, Option.guard, if_pos hall, Option.map_some, Table.ofList_entries]
  of_read {j t} hj hread := by
    cases j with
    | object fields =>
      rw [allFinite_object] at hj
      obtain ⟨entries, hentries, rfl⟩ := Option.map_eq_some_iff.1 hread
      refine List.all_eq_true.2 fun a ha => ?_
      obtain ⟨e, he, rfl⟩ := mem_values_ofList ha
      obtain ⟨field, hfield, hfound⟩ := mem_of_mapM hentries he
      obtain ⟨b, hb, rfl⟩ := Option.map_eq_some_iff.1 hfound
      exact h.of_read (hj field hfield) hb
    | _ => simp [table?] at hread

/-- A value that is read only where all of it is readable. -/
theorem Undoes.whole (h : Undoes read write p) (hwrite : ∀ a, (write a).readable) :
    Undoes (whole? read) write p where
  read_write {a} ha := by rw [whole?, if_pos (hwrite a), h.read_write ha]
  of_read {j a} hj hread := by
    rw [whole?, Option.ite_none_right_eq_some] at hread
    exact h.of_read hj hread.2

theorem Record.orNull?_of_ne {j : Json} (h : j ≠ .null) : orNull? read j = (read j).map some := by
  cases j with
  | null => exact absurd rfl h
  | _ => rfl

/-- An optional part, whose own form is never null. -/
theorem Undoes.orNull (h : Undoes read write p) (hnull : ∀ a, p a → write a ≠ .null) :
    Undoes (Record.orNull? read) (ofOption write) (·.all p) where
  read_write {o} ho := by
    cases o with
    | none => rfl
    | some a =>
      have ha : p a := ho
      rw [ofOption, Record.orNull?_of_ne (hnull a ha), h.read_write ha, Option.map_some]
  of_read {j o} hj hread := by
    cases o with
    | none => rfl
    | some a =>
      have ha : read j = some a := by
        cases j <;> simp_all [Record.orNull?]
      exact h.of_read hj ha

theorem undoes_optionalFloat :
    Undoes (Record.orNull? float?) (ofOption ofFloat) (·.all Float.isFinite) :=
  undoes_float.orNull fun _ => ofFloat_ne_null

theorem undoes_optionalString :
    Undoes (Record.orNull? string?) (ofOption .string) (·.all fun _ => true) :=
  undoes_string.orNull fun _ _ => nofun

theorem undoes_optionalWord64 : Undoes (Record.orNull? word64?) (ofOption ofNat) (·.all isWord) :=
  undoes_word64.orNull fun _ _ => nofun

theorem undoes_optionalWord32 : Undoes (Record.orNull? word32?) (ofOption ofNat)
    (·.all fun n => decide (n < UInt32.size)) :=
  undoes_word32.orNull fun _ _ => nofun

/-! ## Records -/

/-- Are all doubles in the fields that were given finite? -/
def Record.Finite (r : Record) : Prop := ∀ e ∈ r.entries, e.2.allFinite

theorem Record.finite_of_record? {shape : List Field} {j : Json} {r : Record} (hj : j.allFinite)
    (h : record? shape j = some r) : r.Finite := by
  cases j with
  | object fields =>
    rw [allFinite_object] at hj
    obtain ⟨-, hr⟩ := Option.ite_none_right_eq_some.1 h
    obtain rfl := Option.some.inj hr
    intro e he
    obtain ⟨field, hfield, he⟩ := List.mem_filterMap.1 he
    obtain ⟨name, -, rfl⟩ := Option.map_eq_some_iff.1 he
    exact hj field hfield
  | array items =>
    rw [allFinite_array] at hj
    obtain ⟨-, hr⟩ := Option.ite_none_right_eq_some.1 h
    obtain rfl := Option.some.inj hr
    exact fun e he => hj e.2 (List.of_mem_zip he).2
  | _ => simp [record?] at h

theorem Record.Finite.get? {r : Record} (hr : r.Finite) {name : String} {j : Json}
    (h : r.get? name = some j) : j.allFinite :=
  hr _ (mem_of_lookup h)

theorem Record.nullable_eq (r : Record) (name : String) (read : Json → Option α) :
    r.nullable name read = (r.get? name).elim (some none) (orNull? read) := by
  rw [nullable]
  cases r.get? name with
  | none => rfl
  | some j => cases j <;> rfl

theorem Record.optional_eq (r : Record) (name : String) (read : Json → Option α) :
    r.optional name read =
      (r.get? name).elim (if r.byName then some none else none) (orNull? read) := by
  rw [optional]
  cases r.get? name with
  | none => rfl
  | some j => cases j <;> rfl

section

variable {r : Record} {name : String} {a : α}

theorem Undoes.of_required (h : Undoes read write p) (hr : r.Finite)
    (hread : r.required name read = some a) : p a := by
  obtain ⟨j, hj, hread⟩ := Option.bind_eq_some_iff.1 hread
  exact h.of_read (hr.get? hj) hread

theorem Undoes.of_orElse (h : Undoes read write p) (hr : r.Finite) {d : α} (hd : p d)
    (hread : r.orElse name read d = some a) : p a := by
  rw [Record.orElse] at hread
  split at hread
  · exact Option.some.inj hread ▸ hd
  · exact h.of_read (hr.get? ‹_›) hread

/-- What was given for a part that may be absent and is there. -/
theorem Record.exists_of_nullable (h : r.nullable name read = some (some a)) :
    ∃ j, r.get? name = some j ∧ read j = some a := by
  rw [nullable] at h
  split at h
  · simp at h
  · simp at h
  · rename_i j _ hj
    exact ⟨j, hj, by simpa using h⟩

theorem Undoes.of_nullable (h : Undoes (Record.orNull? read) (ofOption write) (·.all p))
    (hr : r.Finite) {o : Option α} (hread : r.nullable name read = some o) : o.all p := by
  rw [Record.nullable_eq] at hread
  cases hj : r.get? name with
  | none =>
    obtain rfl : none = o := by simp_all
    rfl
  | some j =>
    rw [hj] at hread
    exact h.of_read (hr.get? hj) hread

theorem Undoes.of_optional (h : Undoes (Record.orNull? read) (ofOption write) (·.all p))
    (hr : r.Finite) {o : Option α} (hread : r.optional name read = some o) : o.all p := by
  rw [Record.optional_eq] at hread
  cases hj : r.get? name with
  | none =>
    obtain rfl : none = o := by simp_all
    rfl
  | some j =>
    rw [hj] at hread
    exact h.of_read (hr.get? hj) hread

end

/-! ## Records written by name

What a writer gives by name is looked up in the list of its fields. Where a word is among
the fields of a variant, `simp` is called with `-implicitDefEqProofs` downstream: the look-up
is then a rewrite and not an unfolding in the kernel, which would count up to the bound of
a word. -/

section

variable (fields : List (String × Json)) (name : String) (read : Json → Option α)

@[simp low] theorem Record.required_named :
    (⟨true, fields⟩ : Record).required name read = (fields.lookup name).bind read := rfl

theorem Record.orElse_named (a : α) :
    (⟨true, fields⟩ : Record).orElse name read a = (fields.lookup name).elim (some a) read := by
  rw [orElse, Record.get?]
  cases fields.lookup name <;> rfl

@[simp low] theorem Record.nullable_named :
    (⟨true, fields⟩ : Record).nullable name read =
      (fields.lookup name).elim (some none) (orNull? read) :=
  nullable_eq ..

theorem Record.optional_named :
    (⟨true, fields⟩ : Record).optional name read =
      (fields.lookup name).elim (some none) (orNull? read) :=
  optional_eq ..

end

section

variable {fields : List (String × Json)} {name : String} {a : α} {o : Option α}

theorem Undoes.required (h : Undoes read write p) (ha : p a)
    (hfield : fields.lookup name = some (write a)) :
    (⟨true, fields⟩ : Record).required name read = some a := by
  rw [Record.required_named, hfield, Option.bind_some, h.read_write ha]

theorem Undoes.orElse (h : Undoes read write p) (ha : p a)
    (hfield : fields.lookup name = some (write a)) (d : α) :
    (⟨true, fields⟩ : Record).orElse name read d = some a := by
  rw [Record.orElse_named, hfield, Option.elim_some, h.read_write ha]

theorem Undoes.nullable (h : Undoes (Record.orNull? read) (ofOption write) (·.all p))
    (ho : o.all p) (hfield : fields.lookup name = some (ofOption write o)) :
    (⟨true, fields⟩ : Record).nullable name read = some o := by
  rw [Record.nullable_named, hfield, Option.elim_some, h.read_write ho]

theorem Undoes.optional (h : Undoes (Record.orNull? read) (ofOption write) (·.all p))
    (ho : o.all p) (hfield : fields.lookup name = some (ofOption write o)) :
    (⟨true, fields⟩ : Record).optional name read = some o := by
  rw [Record.optional_named, hfield, Option.elim_some, h.read_write ho]

end

/-! ## Unions -/

theorem allFinite_of_variant? {tag name : String} {numbered : List String} {j content : Json}
    (hj : j.allFinite) (h : variant? tag numbered j = some (name, content)) :
    content.allFinite := by
  cases j with
  | object fields =>
    simp only [variant?] at h
    split at h
    · obtain ⟨_, -, hc⟩ := Option.map_eq_some_iff.1 h
      obtain ⟨-, rfl⟩ := Prod.mk.injEq .. ▸ hc
      rw [allFinite_object] at hj ⊢
      exact fun e he => hj e (List.mem_filter.1 he).1
    · simp at h
  | array items =>
    cases items with
    | nil => simp [variant?] at h
    | cons i rest =>
      obtain ⟨_, -, hc⟩ := Option.map_eq_some_iff.1 h
      obtain ⟨-, rfl⟩ := Prod.mk.injEq .. ▸ hc
      rw [allFinite_array] at hj ⊢
      exact fun j hmem => hj j (List.mem_cons_of_mem _ hmem)
  | _ => simp [variant?] at h

/-- The fields of a variant, where the whole union is finite. -/
theorem Record.finite_of_variant? {tag name : String} {numbered names : List String}
    {j content : Json} {r : Record} (hj : j.allFinite)
    (hvariant : variant? tag numbered j = some (name, content))
    (hr : plainRecord? names content = some r) : r.Finite :=
  finite_of_record? (allFinite_of_variant? hj hvariant) hr

/-- A union without tags of two forms, tried in turn, where nothing written in the second
is read as the first. -/
theorem Undoes.untagged {γ : Type} {read : Json → Option γ} {write : γ → Json} {p : γ → Bool}
    {readFirst : Json → Option α} {readSecond : Json → Option β} (first : α → γ) (second : β → γ)
    (hfirst : Undoes readFirst (fun a => write (first a)) (fun a => p (first a)))
    (hsecond : Undoes readSecond (fun b => write (second b)) (fun b => p (second b)))
    (hread : ∀ j, read j = ((readFirst j).map first).or ((readSecond j).map second))
    (hcases : ∀ c, (∃ a, c = first a) ∨ ∃ b, c = second b)
    (hapart : ∀ b, readFirst (write (second b)) = none) : Undoes read write p where
  read_write {c} hc := by
    rw [hread]
    rcases hcases c with ⟨a, rfl⟩ | ⟨b, rfl⟩
    · rw [hfirst.read_write hc, Option.map_some, Option.some_or]
    · rw [hapart, hsecond.read_write hc, Option.map_none, Option.none_or, Option.map_some]
  of_read {j c} hj h := by
    rw [hread, Option.or_eq_some_iff] at h
    rcases h with h | ⟨-, h⟩
    · obtain ⟨a, ha, rfl⟩ := Option.map_eq_some_iff.1 h
      exact hfirst.of_read hj ha
    · obtain ⟨b, hb, rfl⟩ := Option.map_eq_some_iff.1 h
      exact hsecond.of_read hj hb

end Json

end Cutscene
