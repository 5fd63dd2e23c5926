import Cutscene.Json.Basic
/-!
# Json — records and unions

How typed data is read from a value. A record is an object, whose unknown
fields are skipped and whose known fields stand at most once under any of
their names, or an array of the fields in order. A union is an object with a
tag among its fields, or an array with the tag in front. `sizeOf_get?_lt` and
`sizeOf_variant?_le` say that the parts are smaller than the whole, which is
what recursive readers end by.
-/

namespace Cutscene

namespace Json

/-! ## Plain values -/

/-- A boolean. -/
def bool? : Json → Option Bool
  | .bool b => some b
  | _ => none

/-- A text. -/
def string? : Json → Option String
  | .string s => some s
  | _ => none

/-- The double nearest to a whole number of at most 64 bits. -/
def floatOfInt (n : Int) : Float :=
  let magnitude := (UInt64.ofNat n.natAbs).toFloat
  if n < 0 then -magnitude else magnitude

/-- Any number, as a double. -/
def float? : Json → Option Float
  | .int n => some (floatOfInt n)
  | .float x => some x
  | _ => none

/-- A whole number below `bound`, written without point or exponent. -/
def below? (bound : Nat) : Json → Option Nat
  | .int n => if 0 ≤ n ∧ n < bound then some n.toNat else none
  | _ => none

/-- An unsigned 64-bit word. -/
def word64? : Json → Option Nat := below? UInt64.size

/-- An unsigned 32-bit word. -/
def word32? : Json → Option Nat := below? UInt32.size

/-- An array of which every item is read. -/
def list? {α : Type} (read : Json → Option α) : Json → Option (List α)
  | .array items => items.mapM read
  | _ => none

/-- An object of which every value is read; the last of a repeated name
counts. -/
def table? {α : Type} (read : Json → Option α) : Json → Option (Table String α)
  | .object fields =>
    (fields.mapM fun (field : String × Json) =>
      (read field.2).map fun a => (field.1, a)).map Table.ofList
  | _ => none

/-- A value read only if every part of it is readable. -/
def whole? {α : Type} (read : Json → Option α) (j : Json) : Option α :=
  if j.readable then read j else none

/-- The raw value itself. -/
def raw? (j : Json) : Option Json := whole? some j

/-- One of a list of names, as a text or as the only field of an object, which
is then `null`. -/
def oneOf? {α : Type} (names : List (String × α)) : Json → Option α
  | .string s => names.lookup s
  | .object [(s, .null)] => names.lookup s
  | _ => none

/-- One of a list of names inside a union, where the only field may also be an
object without fields. -/
def innerOneOf? {α : Type} (names : List (String × α)) : Json → Option α
  | .object [(s, .object [])] => names.lookup s
  | j => oneOf? names j

/-! ## Records -/

/-- The names of one field, the main one first. -/
structure Field where
  name : String
  others : List String

/-- A field with one name. -/
def Field.plain (name : String) : Field := ⟨name, []⟩

/-- The fields of a record under their main names, and whether they were
given by name. -/
structure Record where
  byName : Bool
  entries : List (String × Json)

/-- The main name of the field that a name belongs to. -/
def mainName? (shape : List Field) (name : String) : Option String :=
  (shape.find? fun f => f.name == name || f.others.contains name).map (·.name)

/-- The fields of a record of a shape. -/
def record? (shape : List Field) : Json → Option Record
  | .object fields =>
    let known := fields.filterMap fun (name, j) => (mainName? shape name).map fun n => (n, j)
    if (known.map (·.1)).Nodup then some ⟨true, known⟩ else none
  | .array items =>
    if items.length ≤ shape.length then some ⟨false, (shape.map (·.name)).zip items⟩ else none
  | _ => none

/-- The fields of a record without other names. -/
def plainRecord? (names : List String) (j : Json) : Option Record :=
  record? (names.map Field.plain) j

namespace Record

/-- The value given for a field. -/
def get? (r : Record) (name : String) : Option Json := r.entries.lookup name

/-- A field that must be given. -/
def required {α : Type} (r : Record) (name : String) (read : Json → Option α) : Option α :=
  (r.get? name).bind read

/-- A field that is `default` unless it is given. -/
def orElse {α : Type} (r : Record) (name : String) (read : Json → Option α) (default : α) :
    Option α :=
  match r.get? name with
  | none => some default
  | some j => read j

/-- A field that may be absent or `null`. -/
def nullable {α : Type} (r : Record) (name : String) (read : Json → Option α) :
    Option (Option α) :=
  match r.get? name with
  | none => some none
  | some .null => some none
  | some j => (read j).map some

/-- A field that may be `null`, and absent where fields are given by name. -/
def optional {α : Type} (r : Record) (name : String) (read : Json → Option α) :
    Option (Option α) :=
  match r.get? name with
  | none => if r.byName then some none else none
  | some .null => some none
  | some j => (read j).map some

end Record

/-! ## Unions -/

/-- The name of a variant from its tag. A number counts in `numbered`. -/
def tag? (numbered : List String) : Json → Option String
  | .string name => some name
  | .int n => if 0 ≤ n then numbered[n.toNat]? else none
  | _ => none

/-- The name of a union's variant, and what is left of the value without it.
Inside another union the tag may be the variant's number, from zero, among
the names in `numbered`. -/
def variant? (tag : String) (numbered : List String) : Json → Option (String × Json)
  | .object fields =>
    match fields.filter (·.1 == tag) with
    | [(_, j)] => (tag? numbered j).map fun name => (name, .object (fields.filter (·.1 != tag)))
    | _ => none
  | .array (j :: rest) => (tag? numbered j).map fun name => (name, .array rest)
  | _ => none

/-- What a variant without fields leaves over: any fields by name, none in
an array. -/
def isBare : Json → Bool
  | .object _ => true
  | .array items => items.isEmpty
  | _ => false

/-- An object with the tag in front. -/
def tagged (tag name : String) (fields : List (String × Json)) : Json :=
  .object ((tag, .string name) :: fields)

/-! ## The parts are smaller -/

theorem mem_of_lookup {α β : Type} [BEq α] [LawfulBEq α] {a : α} {b : β} {l : List (α × β)}
    (h : l.lookup a = some b) : (a, b) ∈ l := by
  induction l with
  | nil => simp at h
  | cons e l ih =>
    obtain ⟨a', b'⟩ := e
    rw [List.lookup_cons] at h
    split at h
    · rename_i hab
      obtain rfl := eq_of_beq hab
      simp_all
    · exact List.mem_cons_of_mem _ (ih h)

theorem mem_of_mapM {α β : Type} {f : α → Option β} {l : List α} {l' : List β}
    (h : l.mapM f = some l') {b : β} (hb : b ∈ l') : ∃ a ∈ l, f a = some b := by
  induction l generalizing l' with
  | nil =>
    obtain rfl : l' = [] := by simpa using h.symm
    simp at hb
  | cons a l ih =>
    simp only [List.mapM_cons, bind, Option.bind_eq_some_iff, pure, Option.some.injEq] at h
    obtain ⟨x, hx, xs, hxs, rfl⟩ := h
    rcases List.mem_cons.1 hb with rfl | hb
    · exact ⟨a, List.mem_cons_self, hx⟩
    · obtain ⟨y, hy, hyb⟩ := ih hxs hb
      exact ⟨y, List.mem_cons_of_mem _ hy, hyb⟩

theorem sizeOf_lt_of_mem_fields {name : String} {j : Json} {fields : List (String × Json)}
    (h : (name, j) ∈ fields) : sizeOf j < sizeOf (Json.object fields) := by
  have := List.sizeOf_lt_of_mem h
  simp only [Prod.mk.sizeOf_spec] at this
  simp only [Json.object.sizeOf_spec]
  omega

theorem sizeOf_lt_of_mem_items {j : Json} {items : List Json} (h : j ∈ items) :
    sizeOf j < sizeOf (Json.array items) := by
  have := List.sizeOf_lt_of_mem h
  simp only [Json.array.sizeOf_spec]
  omega

theorem sizeOf_filter_le (p : String × Json → Bool) (fields : List (String × Json)) :
    sizeOf (fields.filter p) ≤ sizeOf fields := by
  induction fields with
  | nil => simp
  | cons e l ih =>
    by_cases h : p e
    · simp only [List.filter_cons_of_pos h, List.cons.sizeOf_spec]; omega
    · simp only [List.filter_cons_of_neg h, List.cons.sizeOf_spec]; omega

/-- A field of a record is smaller than the record. -/
theorem sizeOf_get?_lt {shape : List Field} {j v : Json} {r : Record} {name : String}
    (hr : record? shape j = some r) (hv : r.get? name = some v) : sizeOf v < sizeOf j := by
  have hmem := mem_of_lookup hv
  cases j with
  | object fields =>
    simp only [record?] at hr
    split at hr
    · obtain rfl := Option.some.inj hr
      obtain ⟨⟨n, w⟩, hn, hw⟩ := List.mem_filterMap.1 hmem
      obtain ⟨m, _, hm⟩ := Option.map_eq_some_iff.1 hw
      obtain ⟨_, rfl⟩ := Prod.mk.injEq .. ▸ hm
      exact sizeOf_lt_of_mem_fields hn
    · simp at hr
  | array items =>
    simp only [record?] at hr
    split at hr
    · obtain rfl := Option.some.inj hr
      exact sizeOf_lt_of_mem_items (List.of_mem_zip hmem).2
    · simp at hr
  | _ => simp [record?] at hr

/-- What is left of a union is no larger than the union. -/
theorem sizeOf_variant?_le {tag name : String} {numbered : List String} {j content : Json}
    (h : variant? tag numbered j = some (name, content)) : sizeOf content ≤ sizeOf j := by
  cases j with
  | object fields =>
    simp only [variant?] at h
    split at h
    · obtain ⟨_, _, hc⟩ := Option.map_eq_some_iff.1 h
      obtain ⟨_, rfl⟩ := Prod.mk.injEq .. ▸ hc
      have := sizeOf_filter_le (·.1 != tag) fields
      simp only [Json.object.sizeOf_spec]
      omega
    · simp at h
  | array items =>
    cases items with
    | nil => simp [variant?] at h
    | cons e l =>
      obtain ⟨_, _, hc⟩ := Option.map_eq_some_iff.1 h
      obtain ⟨_, rfl⟩ := Prod.mk.injEq .. ▸ hc
      simp only [Json.array.sizeOf_spec, List.cons.sizeOf_spec]
      omega
  | _ => simp [variant?] at h

end Json

end Cutscene
