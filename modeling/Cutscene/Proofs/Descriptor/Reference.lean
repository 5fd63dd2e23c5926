import Cutscene.Descriptor.Reference
import Cutscene.Proofs.Json.Undo
import Cutscene.Proofs.Scheduler.Legible
/-!
# Descriptors — values, variables and objects as JSON

There is JSON for a value if its numbers are finite and the numbers of its handles
are 64-bit words, and the same goes for the variables and objects that refer to each
other. `Value.undoes`, `VariableRef.undoes` and `ObjectDesc.undoes` say that decoding
undoes encoding on these. A described part is read in two ways, by itself and inside a
union, where a tag may be a number (`read? inner`); an encoder writes what both read.
-/

namespace Cutscene

open Json

theorem ObjectId.undoes : Undoes ObjectId.decode? ObjectId.encode (isWord ·.val) where
  read_write {id} hid := by
    rw [decode?, encode, undoes_word64.read_write hid, Option.map_some]
  of_read {j id} hj h := by
    obtain ⟨n, hn, rfl⟩ := Option.map_eq_some_iff.1 h
    exact undoes_word64.of_read hj hn

theorem EventId.undoes : Undoes EventId.decode? EventId.encode (isWord ·.val) where
  read_write {id} hid := by
    rw [decode?, encode, undoes_word64.read_write hid, Option.map_some]
  of_read {j id} hj h := by
    obtain ⟨n, hn, rfl⟩ := Option.map_eq_some_iff.1 h
    exact undoes_word64.of_read hj hn

/-! ## Values -/

namespace Value

mutual

/-- Is there JSON for the value? -/
def expressible : Value → Bool
  | .number x => x.isFinite
  | .list items => expressibleItems items
  | .object id => isWord id.val
  | .event id => isWord id.val
  | .bool _ | .string _ => true

/-- Is there JSON for the values? -/
def expressibleItems : List Value → Bool
  | [] => true
  | v :: rest => v.expressible && expressibleItems rest

end

mutual

theorem decode?_encode : (v : Value) → v.expressible → decode? v.encode = some v
  | .bool b, _ | .string s, _ => by simp [encode, decode?]
  | .number x, h => by
    have hx : x.isFinite := by simpa [expressible] using h
    simp [encode, ofFloat, hx, decode?]
  | .list items, h => by
    rw [expressible] at h
    rw [encode, decode?, decodeItems?_encodeItems items h, Option.map_some]
  | .object id, h => by
    rw [expressible] at h
    rw [encode, decode?, handle?_object, undoes_word64.read_write h, Option.map_some]
  | .event id, h => by
    rw [expressible] at h
    rw [encode, decode?, handle?_event, undoes_word64.read_write h, Option.map_some]

theorem decodeItems?_encodeItems : (vs : List Value) → expressibleItems vs →
    decodeItems? (encodeItems vs) = some vs
  | [], _ => rfl
  | v :: rest, h => by
    simp only [expressibleItems, Bool.and_eq_true] at h
    simp [encodeItems, decodeItems?, decode?_encode v h.1, decodeItems?_encodeItems rest h.2]

end

theorem expressible_of_handle? {j : Json} {v : Value} (hj : j.allFinite)
    (h : handle? j = some v) : v.expressible := by
  rw [handle?] at h
  split at h
  · rename_i id hid
    obtain rfl := Option.some.inj h
    obtain ⟨r, hr, hid⟩ := Option.bind_eq_some_iff.1 hid
    simpa [expressible] using undoes_word64.of_required (Record.finite_of_record? hj hr) hid
  · obtain ⟨id, hid, rfl⟩ := Option.map_eq_some_iff.1 h
    obtain ⟨r, hr, hid⟩ := Option.bind_eq_some_iff.1 hid
    simpa [expressible] using undoes_word64.of_required (Record.finite_of_record? hj hr) hid

mutual

theorem expressible_of_decode? : (j : Json) → ∀ {v : Value}, j.allFinite → decode? j = some v →
    v.expressible
  | .null, v, _, h | .unreadable, v, _, h => by simp [decode?] at h
  | .bool b, v, _, h | .string s, v, _, h => by
    simp only [decode?, Option.some.injEq] at h
    simp [← h, expressible]
  | .int n, v, _, h => by
    simp only [decode?, Option.some.injEq] at h
    simp [← h, expressible, isFinite_floatOfInt]
  | .float x, v, hj, h => by
    simp only [decode?, Option.some.injEq] at h
    rw [← h, expressible]
    exact hj
  | .array items, v, hj, h => by
    rw [decode?] at h
    obtain ⟨vs, hvs, rfl⟩ := Option.map_eq_some_iff.1 h
    rw [allFinite] at hj
    rw [expressible]
    exact expressibleItems_of_decodeItems? items hj hvs
  | .object fields, v, hj, h => by
    rw [decode?] at h
    exact expressible_of_handle? hj h

theorem expressibleItems_of_decodeItems? : (js : List Json) → ∀ {vs : List Value},
    allFiniteItems js → decodeItems? js = some vs → expressibleItems vs
  | [], vs, _, h => by
    simp only [decodeItems?, Option.some.injEq] at h
    simp [← h, expressibleItems]
  | j :: rest, vs, hj, h => by
    simp only [allFiniteItems, Bool.and_eq_true] at hj
    simp only [decodeItems?] at h
    split at h
    · rename_i v vs' hv hvs
      obtain rfl := Option.some.inj h
      simp [expressibleItems, expressible_of_decode? j hj.1 hv,
        expressibleItems_of_decodeItems? rest hj.2 hvs]
    · simp at h

end

theorem undoes : Undoes decode? encode expressible where
  read_write {v} hv := decode?_encode v hv
  of_read {j _} hj h := expressible_of_decode? j hj h

mutual

theorem readable_encode : (v : Value) → v.encode.readable
  | .bool b | .string s => by simp [encode, readable]
  | .number x => by simp [encode]
  | .list items => by
    rw [encode, readable]
    exact readableItems_encodeItems items
  | .object id | .event id => by simp [encode]

theorem readableItems_encodeItems : (vs : List Value) → readableItems (encodeItems vs)
  | [] => rfl
  | v :: rest => by
    simp [encodeItems, readableItems, readable_encode v, readableItems_encodeItems rest]

end

theorem undoesWhole : Undoes (whole? decode?) encode expressible := undoes.whole readable_encode

end Value

/-- Is there JSON for every value? -/
def Attributes.expressible (a : Attributes) : Bool := a.values.all Value.expressible

theorem Attributes.undoes : Undoes Attributes.decode? Attributes.encode Attributes.expressible :=
  Value.undoesWhole.table

/-! ## Variables and objects -/

mutual

/-- Is there JSON for the variable? -/
def VariableRef.expressible : VariableRef → Bool
  | .ofObject _ desc _ => desc.expressible
  | .ofContext _ | .ofWorld _ | .ofOwner _ => true

/-- Is there JSON for the object descriptor? -/
def ObjectDesc.expressible : ObjectDesc → Bool
  | .among _ _ owner => owner.expressible
  | .partyMember index => isWord index
  | .variable ref => ref.expressible
  | .nothing | .role _ | .latest | .anywhere _ _ => true

end

/-- The variable, read part by part. -/
theorem VariableRef.read?_eq (inner : Bool) (j : Json) :
    read? inner j = (j.variant? "type" (if inner then tags else [])).bind fun (tag, content) =>
      match Scope.names.lookup tag with
      | some scope =>
        (content.plainRecord? [scope.name, "key"]).bind fun r =>
          (r.required scope.name ObjectDesc.decodeInner?).bind fun object =>
            (r.required "key" string?).map fun key => .ofObject scope object key
      | none =>
        (content.plainRecord? ["key"]).bind fun r =>
          (r.required "key" string?).bind fun key =>
            if tag = "local" then some (.ofContext key)
            else if tag = "global" then some (.ofWorld key)
            else if tag = "self" then some (.ofOwner key)
            else none := by
  rw [read?]
  split
  · rename_i hv
    rw [hv]
    rfl
  · rename_i tag content hv
    simp only [hv, Option.bind_some]
    cases Scope.names.lookup tag with
    | none => rfl
    | some scope =>
      simp only
      split
      · rename_i hr
        rw [hr]
        rfl
      · rename_i r hr
        simp only [hr, Option.bind_some]
        cases hobject : r.get? scope.name with
        | none => simp [Record.required, hobject]
        | some v =>
          cases hkey : r.required "key" string? with
          | none => simp
          | some key =>
            simp [Record.required, hobject, ObjectDesc.decodeInner?, Option.map_eq_bind]

/-- The object descriptor, read part by part. -/
theorem ObjectDesc.read?_eq (inner : Bool) (j : Json) :
    read? inner j = (j.variant? "type" (if inner then tags else [])).bind fun (tag, content) =>
      match Trait.names.lookup tag with
      | some trait =>
        (content.record? trait.shape).bind fun r =>
          (r.required trait.field string?).bind fun text =>
            (r.nullable "owner" decodeInner?).map fun owner =>
              owner.elim (.anywhere trait text) (.among trait text)
      | none =>
        if tag = "variable" then
          (content.plainRecord? ["variable"]).bind fun r =>
            (r.required "variable" VariableRef.decodeInner?).map .variable
        else if tag = "party-member" then
          (content.plainRecord? ["index"]).bind fun r =>
            (r.required "index" word64?).map .partyMember
        else if content.isBare then
          if tag = "none" then some .nothing
          else if tag = "latest" then some .latest
          else (Role.names.lookup tag).map .role
        else none := by
  rw [read?]
  split
  · rename_i hv
    rw [hv]
    rfl
  · rename_i tag content hv
    simp only [hv, Option.bind_some]
    cases Trait.names.lookup tag with
    | some trait =>
      simp only
      split
      · rename_i hr
        rw [hr]
        rfl
      · rename_i r hr
        simp only [hr, Option.bind_some, Record.nullable_eq]
        cases r.required trait.field string? with
        | none => rfl
        | some text =>
          cases r.get? "owner" with
          | none => simp
          | some owner =>
            cases owner <;> simp [Record.orNull?, decodeInner?, Function.comp_def]
    | none =>
      simp only
      congr 1
      split
      · rename_i hr
        rw [hr]
        rfl
      · rename_i r hr
        rw [hr, Option.bind_some]
        cases href : r.get? "variable" <;> simp [Record.required, href, VariableRef.decodeInner?]

theorem Scope.lookup_name (s : Scope) : Scope.names.lookup s.name = some s := by
  cases s <;> rfl

theorem Trait.lookup_name (t : Trait) : Trait.names.lookup t.name = some t := by
  cases t <;> rfl

theorem Role.lookup_name (r : Role) : Role.names.lookup r.name = some r := by
  cases r <;> rfl

theorem Scope.name_ne (s : Scope) : "type" ≠ s.name ∧ "key" ≠ s.name := by
  cases s <;> decide

theorem Trait.field_ne (t : Trait) : "type" ≠ t.field ∧ "owner" ≠ t.field := by
  cases t <;> decide

/-- No role has the name of another descriptor. -/
theorem Role.name_ne (r : Role) : Trait.names.lookup r.name = none ∧ r.name ≠ "variable" ∧
    r.name ≠ "party-member" ∧ r.name ≠ "none" ∧ r.name ≠ "latest" := by
  cases r <;> decide

/-- A descriptor's fields under their main names. -/
theorem Trait.record?_shape (t : Trait) (text owner : Json) :
    record? t.shape (.object [(t.field, text), ("owner", owner)]) =
      some ⟨true, [(t.field, text), ("owner", owner)]⟩ := by
  cases t <;> rfl

theorem ObjectDesc.encode_ne_null (d : ObjectDesc) : d.encode ≠ .null := by
  cases d <;> simp [encode, tagged]

section

variable {inner : Bool}

theorem VariableRef.read?_keyed {ref : VariableRef} {key : String}
    (href : ref = .ofContext key ∨ ref = .ofWorld key ∨ ref = .ofOwner key) :
    read? inner ref.encode = some ref := by
  rcases href with rfl | rfl | rfl <;>
    simp [read?_eq, encode, plainRecord?_eq, Scope.names, List.lookup_cons, string?]

theorem VariableRef.read?_ofObject (scope : Scope) {desc : ObjectDesc} (key : String)
    (hdesc : ObjectDesc.decodeInner? desc.encode = some desc) :
    read? inner (ofObject scope desc key).encode = some (.ofObject scope desc key) := by
  obtain ⟨htype, hkey⟩ := scope.name_ne
  have hrecord : plainRecord? [scope.name, "key"]
      (.object [(scope.name, desc.encode), ("key", .string key)]) = some _ :=
    plainRecord?_eq rfl (by simpa using hkey.symm)
  rw [read?_eq, encode, variant?_tagged (by simpa using htype)]
  simp [Scope.lookup_name, hrecord, hdesc, List.lookup_cons, beq_false_of_ne hkey, string?]

theorem ObjectDesc.read?_bare {d : ObjectDesc}
    (hd : d = .nothing ∨ d = .latest ∨ ∃ role, d = .role role) :
    read? inner d.encode = some d := by
  rcases hd with rfl | rfl | ⟨role, rfl⟩
  · simp [read?_eq, encode, Trait.names, List.lookup_cons, isBare]
  · simp [read?_eq, encode, Trait.names, List.lookup_cons, isBare]
  · simp [read?_eq, encode, role.name_ne, Role.lookup_name, isBare]

theorem ObjectDesc.read?_anywhere (trait : Trait) (text : String) :
    read? inner (anywhere trait text).encode = some (.anywhere trait text) := by
  obtain ⟨htype, howner⟩ := trait.field_ne
  rw [read?_eq, encode, variant?_tagged (by simpa using htype)]
  simp [Trait.lookup_name, Trait.record?_shape, List.lookup_cons, beq_false_of_ne howner,
    string?, Record.orNull?]

theorem ObjectDesc.read?_among (trait : Trait) (text : String) {owner : ObjectDesc}
    (hread : decodeInner? owner.encode = some owner) :
    read? inner (among trait text owner).encode = some (.among trait text owner) := by
  obtain ⟨htype, howner⟩ := trait.field_ne
  rw [read?_eq, encode, variant?_tagged (by simpa using htype)]
  simp [Trait.lookup_name, Trait.record?_shape, List.lookup_cons, beq_false_of_ne howner,
    string?, Record.orNull?_of_ne owner.encode_ne_null, hread]

theorem ObjectDesc.read?_partyMember {index : Nat} (hindex : isWord index) :
    read? inner (partyMember index).encode = some (.partyMember index) := by
  simp -implicitDefEqProofs [read?_eq, encode, plainRecord?_eq, Trait.names, List.lookup_cons,
    undoes_word64.read_write hindex]

theorem ObjectDesc.read?_variable {ref : VariableRef}
    (href : VariableRef.decodeInner? ref.encode = some ref) :
    read? inner (ObjectDesc.variable ref).encode = some (.variable ref) := by
  simp [read?_eq, encode, plainRecord?_eq, Trait.names, List.lookup_cons, href]

end

mutual

theorem VariableRef.read?_encode : (ref : VariableRef) → ∀ {inner : Bool}, ref.expressible →
    VariableRef.read? inner ref.encode = some ref
  | .ofContext _, _, _ => VariableRef.read?_keyed (.inl rfl)
  | .ofWorld _, _, _ => VariableRef.read?_keyed (.inr (.inl rfl))
  | .ofOwner _, _, _ => VariableRef.read?_keyed (.inr (.inr rfl))
  | .ofObject scope desc key, _, h =>
    VariableRef.read?_ofObject scope key (ObjectDesc.read?_encode desc h)

theorem ObjectDesc.read?_encode : (d : ObjectDesc) → ∀ {inner : Bool}, d.expressible →
    ObjectDesc.read? inner d.encode = some d
  | .nothing, _, _ => ObjectDesc.read?_bare (.inl rfl)
  | .latest, _, _ => ObjectDesc.read?_bare (.inr (.inl rfl))
  | .role role, _, _ => ObjectDesc.read?_bare (.inr (.inr ⟨role, rfl⟩))
  | .anywhere trait text, _, _ => ObjectDesc.read?_anywhere trait text
  | .among trait text owner, _, h =>
    ObjectDesc.read?_among trait text (ObjectDesc.read?_encode owner h)
  | .partyMember _, _, h => ObjectDesc.read?_partyMember h
  | .variable ref, _, h => ObjectDesc.read?_variable (VariableRef.read?_encode ref h)

end

mutual

theorem VariableRef.expressible_of_read? {inner : Bool} (j : Json) {ref : VariableRef}
    (hj : j.allFinite) (h : VariableRef.read? inner j = some ref) : ref.expressible := by
  rw [VariableRef.read?_eq] at h
  obtain ⟨⟨tag, content⟩, hvariant, h⟩ := Option.bind_eq_some_iff.1 h
  have hcontent := allFinite_of_variant? hj hvariant
  cases hscope : Scope.names.lookup tag with
  | some scope =>
    simp only [hscope] at h
    obtain ⟨r, hr, h⟩ := Option.bind_eq_some_iff.1 h
    obtain ⟨desc, hdesc, h⟩ := Option.bind_eq_some_iff.1 h
    obtain ⟨key, -, rfl⟩ := Option.map_eq_some_iff.1 h
    obtain ⟨part, hpart, hdesc⟩ := Option.bind_eq_some_iff.1 hdesc
    have := sizeOf_get?_lt hr hpart
    have := sizeOf_variant?_le hvariant
    exact ObjectDesc.expressible_of_read? part
      ((Record.finite_of_record? hcontent hr).get? hpart) hdesc
  | none =>
    simp only [hscope] at h
    obtain ⟨r, -, h⟩ := Option.bind_eq_some_iff.1 h
    obtain ⟨key, -, h⟩ := Option.bind_eq_some_iff.1 h
    split_ifs at h <;> exact Option.some.inj h ▸ rfl
termination_by sizeOf j
decreasing_by omega

theorem ObjectDesc.expressible_of_read? {inner : Bool} (j : Json) {d : ObjectDesc}
    (hj : j.allFinite) (h : ObjectDesc.read? inner j = some d) : d.expressible := by
  rw [ObjectDesc.read?_eq] at h
  obtain ⟨⟨tag, content⟩, hvariant, h⟩ := Option.bind_eq_some_iff.1 h
  have hcontent := allFinite_of_variant? hj hvariant
  have hsize := sizeOf_variant?_le hvariant
  cases htrait : Trait.names.lookup tag with
  | some trait =>
    simp only [htrait] at h
    obtain ⟨r, hr, h⟩ := Option.bind_eq_some_iff.1 h
    obtain ⟨text, -, h⟩ := Option.bind_eq_some_iff.1 h
    obtain ⟨owner, howner, rfl⟩ := Option.map_eq_some_iff.1 h
    cases owner with
    | none => rfl
    | some owner =>
      obtain ⟨part, hpart, hread⟩ := Record.exists_of_nullable howner
      have := sizeOf_get?_lt hr hpart
      rw [Option.elim_some, ObjectDesc.expressible]
      exact ObjectDesc.expressible_of_read? part
        ((Record.finite_of_record? hcontent hr).get? hpart) hread
  | none =>
    simp only [htrait] at h
    split_ifs at h
    · obtain ⟨r, hr, h⟩ := Option.bind_eq_some_iff.1 h
      obtain ⟨ref, href, rfl⟩ := Option.map_eq_some_iff.1 h
      obtain ⟨part, hpart, href⟩ := Option.bind_eq_some_iff.1 href
      have := sizeOf_get?_lt hr hpart
      exact VariableRef.expressible_of_read? part
        ((Record.finite_of_record? hcontent hr).get? hpart) href
    · obtain ⟨r, hr, h⟩ := Option.bind_eq_some_iff.1 h
      obtain ⟨index, hindex, rfl⟩ := Option.map_eq_some_iff.1 h
      exact undoes_word64.of_required (Record.finite_of_record? hcontent hr) hindex
    · exact Option.some.inj h ▸ rfl
    · exact Option.some.inj h ▸ rfl
    · obtain ⟨role, -, rfl⟩ := Option.map_eq_some_iff.1 h
      rfl
termination_by sizeOf j
decreasing_by all_goals omega

end

theorem VariableRef.undoes (inner : Bool) : Undoes (read? inner) encode expressible where
  read_write {ref} h := read?_encode ref h
  of_read {j _} hj h := expressible_of_read? j hj h

theorem ObjectDesc.undoes (inner : Bool) : Undoes (read? inner) encode expressible where
  read_write {d} h := read?_encode d h
  of_read {j _} hj h := expressible_of_read? j hj h

end Cutscene
