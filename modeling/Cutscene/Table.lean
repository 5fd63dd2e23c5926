/-!
# Tables

A finite map kept as a list of entries in strictly increasing key order, so
that a table is determined by its entries and two tables with the same
entries are equal. The laws tie every operation to the look-up:
`get?_insert_self`, `get?_insert_of_ne`, `get?_erase_self`,
`get?_erase_of_ne`, `get?_filter`, `get?_ofList`; `ext_get?` says that the
look-up determines the table, and `ofList_entries` reads a table back from its
own entries.
-/

namespace Cutscene

/-- Keys with a strict order that is decided, transitive and total. -/
class Key (κ : Type) where
  before : κ → κ → Bool
  before_irrefl : ∀ a, before a a = false
  before_trans : ∀ a b c, before a b = true → before b c = true → before a c = true
  before_total : ∀ a b, before a b = false → before b a = false → a = b

instance : Key String where
  before a b := decide (a < b)
  before_irrefl a := decide_eq_false (String.lt_irrefl a)
  before_trans a b c := by
    simp only [decide_eq_true_eq]
    exact String.lt_trans
  before_total a b := by
    simp only [decide_eq_false_iff_not]
    intro hab hba
    exact String.le_antisymm hba hab

instance : Key Nat where
  before a b := decide (a < b)
  before_irrefl a := by simp
  before_trans a b c := by simp only [decide_eq_true_eq]; exact Nat.lt_trans
  before_total a b := by simp only [decide_eq_false_iff_not]; omega

namespace Entries

variable {κ α : Type} [Key κ]

/-- Puts an entry in its place, replacing the one under the same key. -/
def insert (k : κ) (v : α) : List (κ × α) → List (κ × α)
  | [] => [(k, v)]
  | (k', v') :: rest =>
    if Key.before k k' then (k, v) :: (k', v') :: rest
    else if Key.before k' k then (k', v') :: insert k v rest
    else (k, v) :: rest

/-- The entries with their keys in strictly increasing order; of two under
one key the last. -/
def ofList (entries : List (κ × α)) : List (κ × α) :=
  entries.foldl (fun sorted (k, v) => insert k v sorted) []

/-- Strictly increasing keys. -/
def Sorted (entries : List (κ × α)) : Prop :=
  entries.Pairwise fun a b => Key.before a.1 b.1 = true

theorem mem_keys_insert {k a : κ} {v : α} {l : List (κ × α)}
    (h : a ∈ (insert k v l).map (·.1)) : a = k ∨ a ∈ l.map (·.1) := by
  induction l with
  | nil => simpa [insert] using h
  | cons e l ih =>
    simp only [insert] at h
    split at h
    · simpa using h
    · split at h
      · simp only [List.map_cons, List.mem_cons] at h ⊢
        rcases h with h | h
        · exact .inr (.inl h)
        · rcases ih h with h | h
          · exact .inl h
          · exact .inr (.inr h)
      · simp only [List.map_cons, List.mem_cons] at h ⊢
        rcases h with h | h
        · exact .inl h
        · exact .inr (.inr h)

theorem sorted_insert (k : κ) (v : α) {l : List (κ × α)} (h : Sorted l) :
    Sorted (insert k v l) := by
  induction l with
  | nil => simp [insert, Sorted]
  | cons e l ih =>
    have hl : Sorted l := (List.pairwise_cons.1 h).2
    have he := (List.pairwise_cons.1 h).1
    simp only [insert]
    split
    · rename_i hk
      refine List.pairwise_cons.2 ⟨fun a ha => ?_, h⟩
      rcases List.mem_cons.1 ha with rfl | ha
      · exact hk
      · exact Key.before_trans _ _ _ hk (he a ha)
    · rename_i hk
      split
      · rename_i hk'
        refine List.pairwise_cons.2 ⟨fun a ha => ?_, ih hl⟩
        rcases mem_keys_insert (List.mem_map_of_mem (f := (·.1)) ha) with hak | hmem
        · rw [hak]; exact hk'
        · obtain ⟨b, hb, hba⟩ := List.mem_map.1 hmem
          rw [← hba]; exact he b hb
      · rename_i hk'
        have hke : k = e.1 := Key.before_total _ _ (by simpa using hk) (by simpa using hk')
        refine List.pairwise_cons.2 ⟨fun a ha => ?_, hl⟩
        rw [hke]
        exact he a ha

theorem sorted_ofList (entries : List (κ × α)) : Sorted (ofList entries) := by
  suffices h : ∀ (acc : List (κ × α)), Sorted acc →
      Sorted (entries.foldl (fun sorted (k, v) => insert k v sorted) acc) from
    h [] List.Pairwise.nil
  induction entries with
  | nil => exact fun _ h => h
  | cons e l ih => exact fun acc h => ih _ (sorted_insert e.1 e.2 h)

/-- Beyond the last key, an insertion appends. -/
theorem insert_eq_append {k : κ} {v : α} {l : List (κ × α)}
    (h : ∀ e ∈ l, Key.before e.1 k = true) : insert k v l = l ++ [(k, v)] := by
  induction l with
  | nil => rfl
  | cons e l ih =>
    have he := h e List.mem_cons_self
    have hne : Key.before k e.1 = false := by
      rcases hb : Key.before k e.1 with _ | _
      · rfl
      · have := Key.before_trans _ _ _ he hb
        rw [Key.before_irrefl] at this
        exact absurd this (by simp)
    simp [insert, hne, he, ih fun a ha => h a (List.mem_cons_of_mem _ ha)]

/-- Sorted entries are read back as they are. -/
theorem ofList_of_sorted {l : List (κ × α)} (h : Sorted l) : ofList l = l := by
  suffices hs : ∀ (acc : List (κ × α)), Sorted (acc ++ l) →
      l.foldl (fun sorted (k, v) => insert k v sorted) acc = acc ++ l from hs [] h
  intro acc hacc
  induction l generalizing acc with
  | nil => simp
  | cons e l ih =>
    have happ : insert e.1 e.2 acc = acc ++ [e] :=
      insert_eq_append fun a ha => (List.pairwise_append.1 hacc).2.2 a ha e List.mem_cons_self
    have hl : Sorted l := (List.pairwise_cons.1 h).2
    simp only [List.foldl_cons, happ]
    rw [ih hl (acc ++ [e]) (by simpa using hacc)]
    simp

variable [DecidableEq κ]

theorem lookup_insert_self (k : κ) (v : α) (l : List (κ × α)) :
    (insert k v l).lookup k = some v := by
  induction l with
  | nil => simp [insert]
  | cons e l ih =>
    simp only [insert]
    split
    · simp
    · split
      · rename_i hk
        have hne : (k == e.1) = false := by
          rw [beq_eq_false_iff_ne]
          rintro rfl
          rw [Key.before_irrefl] at hk
          exact absurd hk (by simp)
        rw [List.lookup_cons, hne]
        exact ih
      · simp

theorem lookup_insert_of_ne {k a : κ} {v : α} {l : List (κ × α)} (h : a ≠ k) :
    (insert k v l).lookup a = l.lookup a := by
  have hne : (a == k) = false := by simpa using h
  induction l with
  | nil => simp [insert, List.lookup_cons, hne]
  | cons e l ih =>
    obtain ⟨ek, ev⟩ := e
    simp only [insert]
    split
    · simp [List.lookup_cons, hne]
    · rename_i hk
      split
      · simp only [List.lookup_cons, ih]
      · rename_i hk'
        obtain rfl : k = ek := Key.before_total _ _ (by simpa using hk) (by simpa using hk')
        simp only [List.lookup_cons, hne]

omit [Key κ] in
theorem lookup_filter_ne_self (k : κ) (l : List (κ × α)) :
    (l.filter fun e => e.1 != k).lookup k = none := by
  induction l with
  | nil => rfl
  | cons e l ih =>
    obtain ⟨ek, ev⟩ := e
    by_cases he : ek = k
    · rw [List.filter_cons_of_neg (by simpa using he)]
      exact ih
    · have hne : (k == ek) = false := by simpa using fun h => he h.symm
      rw [List.filter_cons_of_pos (by simpa using he)]
      simp only [List.lookup_cons, hne]
      exact ih

omit [Key κ] in
theorem lookup_filter_ne_of_ne {k a : κ} {l : List (κ × α)} (h : a ≠ k) :
    (l.filter fun e => e.1 != k).lookup a = l.lookup a := by
  induction l with
  | nil => rfl
  | cons e l ih =>
    obtain ⟨ek, ev⟩ := e
    by_cases he : ek = k
    · have hne : (a == ek) = false := by simpa [he] using h
      rw [List.filter_cons_of_neg (by simpa using he)]
      simp only [List.lookup_cons, hne]
      exact ih
    · rw [List.filter_cons_of_pos (by simpa using he)]
      simp only [List.lookup_cons, ih]

/-- Before the first key there is nothing. -/
theorem lookup_of_before {k : κ} {l : List (κ × α)}
    (h : ∀ e ∈ l, Key.before k e.1 = true) : l.lookup k = none := by
  induction l with
  | nil => rfl
  | cons e l ih =>
    obtain ⟨ek, ev⟩ := e
    have hne : (k == ek) = false := by
      rw [beq_eq_false_iff_ne]
      rintro rfl
      have hk := h (k, ev) List.mem_cons_self
      rw [Key.before_irrefl] at hk
      exact absurd hk (by simp)
    rw [List.lookup_cons, hne]
    exact ih fun a ha => h a (List.mem_cons_of_mem _ ha)

theorem lookup_filter {l : List (κ × α)} (hs : Sorted l) (p : κ → α → Bool) (k : κ) :
    (l.filter fun e => p e.1 e.2).lookup k = (l.lookup k).filter (p k) := by
  induction l with
  | nil => rfl
  | cons e l ih =>
    obtain ⟨ek, ev⟩ := e
    obtain ⟨he, hl⟩ := List.pairwise_cons.1 hs
    by_cases hk : k = ek
    · subst hk
      -- no later entry stands under the key
      have hlater : (l.filter fun e => p e.1 e.2).lookup k = none :=
        lookup_of_before fun a ha => he a (List.mem_filter.1 ha).1
      by_cases hp : p k ev
      · rw [List.filter_cons_of_pos (by simpa using hp)]
        simp [Option.filter, hp]
      · rw [List.filter_cons_of_neg (by simpa using hp), hlater]
        simp [Option.filter, hp]
    · have hne : (k == ek) = false := by simpa using hk
      by_cases hp : p ek ev
      · rw [List.filter_cons_of_pos (by simpa using hp)]
        simp only [List.lookup_cons, hne, ih hl]
      · rw [List.filter_cons_of_neg (by simpa using hp)]
        simp only [List.lookup_cons, hne, ih hl]

/-- Of the entries under one key the last is found. -/
theorem lookup_ofList (k : κ) (entries : List (κ × α)) :
    (ofList entries).lookup k = (entries.filter (·.1 = k)).getLast?.map (·.2) := by
  -- the induction is on the list, with what has been inserted so far
  suffices hs : ∀ acc : List (κ × α),
      (entries.foldl (fun sorted (k, v) => insert k v sorted) acc).lookup k =
        ((entries.filter (·.1 = k)).getLast?.map (·.2)).or (acc.lookup k) by
    rw [ofList, hs []]
    simp
  induction entries with
  | nil => exact fun _ => rfl
  | cons e entries ih =>
    obtain ⟨ek, ev⟩ := e
    intro acc
    rw [List.foldl_cons, ih]
    by_cases hk : ek = k
    · subst hk
      rw [lookup_insert_self, List.filter_cons_of_pos (by simp), List.getLast?_cons]
      cases (entries.filter (·.1 = ek)).getLast? <;> rfl
    · rw [lookup_insert_of_ne (Ne.symm hk), List.filter_cons_of_neg (by simpa using hk)]

/-- Below its first key, a sorted list has nothing. -/
theorem lookup_cons_of_before {k : κ} {e : κ × α} {l : List (κ × α)} (hs : Sorted (e :: l))
    (h : Key.before k e.1 = true) : (e :: l).lookup k = none :=
  lookup_of_before fun a ha => by
    rcases List.mem_cons.1 ha with rfl | ha
    · exact h
    · exact Key.before_trans _ _ _ h ((List.pairwise_cons.1 hs).1 a ha)

/-- Sorted entries are determined by what is found in them. -/
theorem eq_of_lookup_eq {l l' : List (κ × α)} (hl : Sorted l) (hl' : Sorted l')
    (h : ∀ k, l.lookup k = l'.lookup k) : l = l' := by
  induction l generalizing l' with
  | nil =>
    cases l' with
    | nil => rfl
    | cons e l' => obtain ⟨k, v⟩ := e; simpa using h k
  | cons e l ih =>
    obtain ⟨k, v⟩ := e
    cases l' with
    | nil => simpa using h k
    | cons e' l' =>
      obtain ⟨k', v'⟩ := e'
      obtain rfl : k = k' := by
        apply Key.before_total
        · rcases hb : Key.before k k' with _ | _
          · rfl
          · simpa [lookup_cons_of_before hl' hb] using h k
        · rcases hb : Key.before k' k with _ | _
          · rfl
          · simpa [lookup_cons_of_before hl hb] using h k'
      obtain rfl : v = v' := by simpa using h k
      have htail : l = l' := by
        apply ih (List.pairwise_cons.1 hl).2 (List.pairwise_cons.1 hl').2
        intro a
        by_cases ha : a = k
        · subst ha
          rw [lookup_of_before (List.pairwise_cons.1 hl).1,
            lookup_of_before (List.pairwise_cons.1 hl').1]
        · have hne : (a == k) = false := by simpa using ha
          simpa only [List.lookup_cons, hne] using h a
      rw [htail]

omit [Key κ] in
theorem lookup_map {β : Type} (f : α → β) (k : κ) (entries : List (κ × α)) :
    (entries.map fun e => (e.1, f e.2)).lookup k = (entries.lookup k).map f := by
  induction entries with
  | nil => rfl
  | cons e entries ih =>
    obtain ⟨k', v⟩ := e
    rw [List.map_cons, List.lookup_cons, List.lookup_cons, ih]
    cases k == k' <;> rfl

end Entries

/-- A finite map with its entries in strictly increasing key order. -/
structure Table (κ α : Type) [Key κ] where
  entries : List (κ × α)
  sorted : Entries.Sorted entries

namespace Table

variable {κ α : Type} [DecidableEq κ] [Key κ]

omit [DecidableEq κ] in
theorem ext_entries {s t : Table κ α} (h : s.entries = t.entries) : s = t := by
  cases s; cases t; cases h; rfl

instance [DecidableEq α] : DecidableEq (Table κ α) := fun s t =>
  if h : s.entries = t.entries then isTrue (ext_entries h)
  else isFalse fun hst => h (hst ▸ rfl)

/-- The table without entries. -/
def empty : Table κ α := ⟨[], List.Pairwise.nil⟩

instance : Inhabited (Table κ α) := ⟨empty⟩

/-- The value under a key. -/
def get? (t : Table κ α) (k : κ) : Option α := t.entries.lookup k

/-- Is there a value under the key? -/
def contains (t : Table κ α) (k : κ) : Bool := (t.get? k).isSome

/-- Sets the value under a key. -/
def insert (t : Table κ α) (k : κ) (v : α) : Table κ α :=
  ⟨Entries.insert k v t.entries, Entries.sorted_insert k v t.sorted⟩

/-- Sets the value under a key that has none. -/
def insertNew (t : Table κ α) (k : κ) (v : α) : Table κ α :=
  if t.contains k then t else t.insert k v

/-- Drops the value under a key. -/
def erase (t : Table κ α) (k : κ) : Table κ α :=
  ⟨t.entries.filter fun e => e.1 != k, t.sorted.filter _⟩

/-- The entries that satisfy a test. -/
def filter (t : Table κ α) (p : κ → α → Bool) : Table κ α :=
  ⟨t.entries.filter fun e => p e.1 e.2, t.sorted.filter _⟩

/-- The entries of a list; of two under one key the last. -/
def ofList (entries : List (κ × α)) : Table κ α :=
  ⟨Entries.ofList entries, Entries.sorted_ofList entries⟩

/-- The keys, in order. -/
def keys (t : Table κ α) : List κ := t.entries.map (·.1)

/-- The values, in the order of their keys. -/
def values (t : Table κ α) : List α := t.entries.map (·.2)

/-- How many entries there are. -/
def size (t : Table κ α) : Nat := t.entries.length

/-- `s` with the entries of `t` for keys that `s` lacks. -/
def fill (s t : Table κ α) : Table κ α :=
  t.entries.foldl (fun s (k, v) => s.insertNew k v) s

@[simp] theorem get?_empty (k : κ) : (empty : Table κ α).get? k = none := rfl

@[simp] theorem get?_insert_self (t : Table κ α) (k : κ) (v : α) :
    (t.insert k v).get? k = some v :=
  Entries.lookup_insert_self k v t.entries

theorem get?_insert_of_ne (t : Table κ α) {k a : κ} (v : α) (h : a ≠ k) :
    (t.insert k v).get? a = t.get? a :=
  Entries.lookup_insert_of_ne h

@[simp] theorem get?_erase_self (t : Table κ α) (k : κ) : (t.erase k).get? k = none :=
  Entries.lookup_filter_ne_self k t.entries

theorem get?_erase_of_ne (t : Table κ α) {k a : κ} (h : a ≠ k) :
    (t.erase k).get? a = t.get? a :=
  Entries.lookup_filter_ne_of_ne h

theorem get?_filter (t : Table κ α) (p : κ → α → Bool) (k : κ) :
    (t.filter p).get? k = (t.get? k).filter (p k) :=
  Entries.lookup_filter t.sorted p k

theorem get?_ofList (entries : List (κ × α)) (k : κ) :
    (ofList entries).get? k = (entries.filter (·.1 = k)).getLast?.map (·.2) :=
  Entries.lookup_ofList k entries

/-- Tables in which the same is found are equal. -/
theorem ext_get? {s t : Table κ α} (h : ∀ k, s.get? k = t.get? k) : s = t :=
  ext_entries (Entries.eq_of_lookup_eq s.sorted t.sorted h)

/-- Tables in which the same is found, as far as it is looked at, have the same
values, in order. -/
theorem map_values_eq {β : Type} {s t : Table κ α} (f : α → β)
    (h : ∀ k, (s.get? k).map f = (t.get? k).map f) : s.values.map f = t.values.map f := by
  have hsorted : ∀ t : Table κ α, Entries.Sorted (t.entries.map fun e => (e.1, f e.2)) :=
    fun t => List.pairwise_map.2 t.sorted
  have hentries := Entries.eq_of_lookup_eq (hsorted s) (hsorted t) fun k => by
    rw [Entries.lookup_map, Entries.lookup_map]
    exact h k
  have hvalues := congrArg (List.map (·.2)) hentries
  rw [List.map_map, List.map_map] at hvalues
  rw [values, values, List.map_map, List.map_map]
  exact hvalues

/-- The values' weights together. -/
def weigh (t : Table κ α) (weight : α → Nat) : Nat :=
  t.entries.foldr (fun e total => weight e.2 + total) 0

/-- Dropping a value that there is takes its weight off. -/
theorem weigh_erase {t : Table κ α} {k : κ} {v : α} (weight : α → Nat) (h : t.get? k = some v) :
    (t.erase k).weigh weight + weight v ≤ t.weigh weight := by
  let total (l : List (κ × α)) : Nat := l.foldr (fun e total => weight e.2 + total) 0
  suffices hs : ∀ l : List (κ × α), total (l.filter fun e => e.1 != k) ≤ total l ∧
      (l.lookup k = some v → total (l.filter fun e => e.1 != k) + weight v ≤ total l) from
    (hs _).2 h
  intro l
  induction l with
  | nil => simp [total]
  | cons e l ih =>
    obtain ⟨ek, ev⟩ := e
    have htotal : total ((ek, ev) :: l) = weight ev + total l := rfl
    by_cases he : ek = k
    · rw [List.filter_cons_of_neg (by simpa using he), htotal]
      simp only [List.lookup_cons, he, beq_self_eq_true, Option.some.injEq]
      exact ⟨by omega, by rintro rfl; omega⟩
    · have hne : (k == ek) = false := by simpa using fun h => he h.symm
      have hkept : total ((ek, ev) :: l.filter fun e => e.1 != k) =
          weight ev + total (l.filter fun e => e.1 != k) := rfl
      rw [List.filter_cons_of_pos (by simpa using he), htotal, hkept]
      simp only [List.lookup_cons, hne]
      exact ⟨by omega, fun hl => by have := ih.2 hl; omega⟩

omit [DecidableEq κ] in
/-- A table is read back from its own entries. -/
@[simp] theorem ofList_entries (t : Table κ α) : ofList t.entries = t :=
  ext_entries (Entries.ofList_of_sorted t.sorted)

/-- An entry is what is found under its key. -/
theorem mem_entries_iff {t : Table κ α} {k : κ} {v : α} :
    (k, v) ∈ t.entries ↔ t.get? k = some v := by
  refine ⟨fun h => ?_, fun h => ?_⟩
  · -- the entries before it have other keys, since keys come in order
    obtain ⟨before, after, hentries⟩ := List.append_of_mem h
    have hsorted := t.sorted
    rw [hentries, Entries.Sorted, List.pairwise_append] at hsorted
    refine List.lookup_eq_some_iff.2 ⟨before, after, hentries, fun e he => ?_⟩
    have hbefore := hsorted.2.2 e he _ List.mem_cons_self
    rw [bne_iff_ne]
    rintro rfl
    rw [Key.before_irrefl] at hbefore
    exact Bool.false_ne_true hbefore
  · obtain ⟨before, after, hentries, -⟩ := List.lookup_eq_some_iff.1 h
    simp [hentries]

/-- What is found in the table of a list stands in the list. -/
theorem mem_of_get?_ofList {k : κ} {v : α} {entries : List (κ × α)}
    (h : (ofList entries).get? k = some v) : (k, v) ∈ entries := by
  rw [get?_ofList] at h
  obtain ⟨x, hx, rfl⟩ := Option.map_eq_some_iff.1 h
  obtain ⟨hmem, hkey⟩ := List.mem_filter.1 (List.mem_of_getLast? hx)
  rwa [← of_decide_eq_true hkey]

end Table

end Cutscene
