import Cutscene.Proofs.Scene.Removal
/-!
# Scenes — links

An object names its parent (`Store.parent?`) and lists its children
(`Store.childIds`). The two are links of one sort, read from either end, and
every operation on the store keeps the ends together (`Store.Linked`), as long
as the numbers have not come round (`Store.OneRound`): a new object that takes
the place of an old one has none of its links.

Each operation is told by what it does to the two ends: `Store.Detached`,
`Store.Attached` and `Store.Pruned`. Removal takes with an object all that it
lists, and nothing that it does not (`Store.gone_of_child`,
`Store.child_of_gone`), which is why no link is left with one end. Creation
aside, an operation keeps the kinds of the objects and of the latest those
that there are (`Store.Keeps`).
-/

namespace Cutscene

namespace Store

/-- The parent that an object names. -/
def parent? (s : Store) (id : ObjectId) : Option ObjectId := (s.get? id).bind (·.parent)

/-- The kind of an object. -/
def kind? (s : Store) (id : ObjectId) : Option ObjectKind := (s.get? id).map (·.kind)

/-- The children that an object lists. -/
def childIds (s : Store) (id : ObjectId) : List ObjectId :=
  ((s.get? id).map (·.children)).getD []

/-- Every link has its two ends, the party is made of objects that there are,
each once, and the latest objects are there. -/
structure Linked (s : Store) : Prop where
  keyed : s.Keyed
  mem_childIds_iff : ∀ {p x : ObjectId}, x ∈ s.childIds p ↔ s.parent? x = some p
  nodup_childIds : ∀ p, (s.childIds p).Nodup
  handedOut : ∀ {x : ObjectId}, s.contains x → s.HandedOut x
  party_live : ∀ x ∈ s.party, s.contains x
  party_nodup : s.party.Nodup
  latest_live : ∀ {kind : ObjectKind} {x : ObjectId}, s.latest.get? kind = some x → s.contains x

section

variable {s s' : Store} {p x k : ObjectId}

theorem contains_iff : s.contains k ↔ ∃ o, s.get? k = some o := by
  rw [contains, Table.contains, Option.isSome_iff_exists]
  rfl

theorem contains_eq_kind? (s : Store) (k : ObjectId) : s.contains k = (s.kind? k).isSome := by
  rw [kind?, Option.isSome_map]
  rfl

theorem contains_eq_of_kind? (h : s'.kind? k = s.kind? k) : s'.contains k = s.contains k := by
  rw [contains_eq_kind?, h, contains_eq_kind?]

theorem contains_of_parent? (h : s.parent? x = some p) : s.contains x := by
  obtain ⟨o, ho, -⟩ := Option.bind_eq_some_iff.1 h
  exact contains_iff.2 ⟨o, ho⟩

theorem contains_of_mem_childIds (h : x ∈ s.childIds p) : s.contains p := by
  cases ho : s.get? p with
  | none => simp [childIds, ho] at h
  | some o => exact contains_iff.2 ⟨o, ho⟩

namespace Linked

theorem child_live (h : s.Linked) (hx : x ∈ s.childIds p) : s.contains x :=
  contains_of_parent? (h.mem_childIds_iff.1 hx)

theorem parent_live (h : s.Linked) (hp : s.parent? x = some p) : s.contains p :=
  contains_of_mem_childIds (h.mem_childIds_iff.2 hp)

end Linked

theorem linked_empty : empty.Linked where
  keyed := keyed_empty
  mem_childIds_iff := by intro p x; exact iff_of_false (by simp [childIds, get?, empty]) nofun
  nodup_childIds _ := List.nodup_nil
  handedOut := by intro x h; simp [contains, Table.contains, empty] at h
  party_live := by intro x h; simp [empty] at h
  party_nodup := List.nodup_nil
  latest_live := by intro kind x h; simp [empty] at h

/-! ## Creating -/

theorem contains_create (s : Store) (kind : ObjectKind) (dataId : String) :
    (s.create kind dataId).2.contains k ↔ k = s.nextId ∨ s.contains k := by
  rw [contains_iff, contains_iff, get?_create]
  split
  · rename_i hk
    exact iff_of_true ⟨_, rfl⟩ (.inl hk)
  · rename_i hk
    exact ⟨.inr, fun h => h.resolve_left hk⟩

theorem latest_create (s : Store) (kind : ObjectKind) (dataId : String) (kind' : ObjectKind) :
    (s.create kind dataId).2.latest.get? kind' =
      if kind' = kind then some s.nextId else s.latest.get? kind' := by
  show (s.latest.insert kind s.nextId).get? kind' = _
  split
  · rename_i hk
    rw [hk, Table.get?_insert_self]
  · rename_i hk
    exact Table.get?_insert_of_ne _ _ hk

namespace Linked

variable {kind : ObjectKind} {dataId : String}

/-- A number that was not handed out leads to nothing. -/
theorem get?_new (h : s.Linked) (hround : (s.create kind dataId).2.OneRound) :
    s.get? s.nextId = none := by
  cases ho : s.get? s.nextId with
  | none => rfl
  | some o => exact absurd (h.handedOut (contains_iff.2 ⟨o, ho⟩)) hround.not_handedOut

theorem parent?_create (h : s.Linked) (hround : (s.create kind dataId).2.OneRound) :
    (s.create kind dataId).2.parent? k = s.parent? k := by
  rw [parent?, parent?, get?_create]
  split
  · rename_i hk
    rw [hk, h.get?_new hround]
    rfl
  · rfl

theorem childIds_create (h : s.Linked) (hround : (s.create kind dataId).2.OneRound) :
    (s.create kind dataId).2.childIds k = s.childIds k := by
  rw [childIds, childIds, get?_create]
  split
  · rename_i hk
    rw [hk, h.get?_new hround]
    rfl
  · rfl

protected theorem create (h : s.Linked) (hround : (s.create kind dataId).2.OneRound) :
    (s.create kind dataId).2.Linked where
  keyed := (loses_create h.keyed kind dataId).keyed
  mem_childIds_iff := by
    intro p x
    rw [h.childIds_create hround, h.parent?_create hround]
    exact h.mem_childIds_iff
  nodup_childIds p := by
    rw [h.childIds_create hround]
    exact h.nodup_childIds p
  handedOut hx :=
    handedOut_create.2 (((contains_create s kind dataId).1 hx).imp_right h.handedOut)
  party_live x hx := (contains_create s kind dataId).2 (.inr (h.party_live x hx))
  party_nodup := h.party_nodup
  latest_live := by
    intro kind' x hx
    rw [contains_create]
    rw [latest_create] at hx
    split at hx
    · exact .inl (Option.some.inj hx).symm
    · exact .inr (h.latest_live hx)

end Linked

/-! ## Attaching -/

/-- A change that keeps what is asked of an object. -/
theorem map_get?_modify {α : Type} (s : Store) (x k : ObjectId) (f : GameObject → α)
    {change : GameObject → GameObject} (hf : ∀ o, f (change o) = f o) :
    ((s.modify x change).get? k).map f = (s.get? k).map f := by
  rw [get?_modify]
  split
  · rename_i hk
    rw [hk, Option.map_map]
    exact congrArg (Option.map · _) (funext hf)
  · rfl

section

variable (change : GameObject → GameObject)

theorem kind?_modify (hkind : ∀ o, (change o).kind = o.kind) :
    (s.modify x change).kind? k = s.kind? k :=
  map_get?_modify s x k (·.kind) hkind

theorem parent?_modify (hparent : ∀ o, (change o).parent = o.parent) :
    (s.modify x change).parent? k = s.parent? k := by
  have hbind := congrArg (Option.bind · id) (map_get?_modify s x k (·.parent) hparent)
  simp only [Option.bind_map] at hbind
  exact hbind

theorem childIds_modify_of (hchildren : ∀ o, (change o).children = o.children) :
    (s.modify x change).childIds k = s.childIds k := by
  rw [childIds, childIds, map_get?_modify s x k (·.children) hchildren]

end

theorem party_modify (s : Store) (x : ObjectId) (change : GameObject → GameObject) :
    (s.modify x change).party = s.party := by
  unfold modify
  split <;> rfl

theorem latest_modify (s : Store) (x : ObjectId) (change : GameObject → GameObject) :
    (s.modify x change).latest = s.latest := by
  unfold modify
  split <;> rfl

theorem childIds_modify (change : List ObjectId → List ObjectId) :
    (s.modify p fun o => { o with children := change o.children }).childIds k =
      if k = p ∧ s.contains p then change (s.childIds p) else s.childIds k := by
  rw [childIds, get?_modify]
  by_cases hk : k = p
  · subst hk
    cases ho : s.get? k with
    | none =>
      have hc : ¬ s.contains k := fun hc => by
        obtain ⟨o, ho'⟩ := contains_iff.1 hc
        simp [ho] at ho'
      simp [hc, childIds, ho]
    | some o =>
      have hc : s.contains k := contains_iff.2 ⟨o, ho⟩
      simp [hc, childIds, ho]
  · simp [hk, childIds]

/-- What an object that leaves its parent changes. -/
structure Detached (s s' : Store) (x : ObjectId) : Prop where
  keyed : s'.Keyed
  kind?_eq : ∀ k, s'.kind? k = s.kind? k
  parent?_eq : ∀ k, s'.parent? k = s.parent? k
  childIds_eq : ∀ k, s'.childIds k = (s.childIds k).filter (· != x)
  party_eq : s'.party = s.party
  latest_eq : s'.latest = s.latest

theorem Detached.contains_eq (h : s.Detached s' x) (k : ObjectId) :
    s'.contains k = s.contains k :=
  contains_eq_of_kind? (h.kind?_eq k)

/-- **An object that is detached is listed nowhere**, and nothing else
changes. -/
theorem Linked.detached (h : s.Linked) (x : ObjectId) : s.Detached (s.detach x) x := by
  have hother : ∀ {k}, s.parent? x ≠ some k → (s.childIds k).filter (· != x) = s.childIds k := by
    intro k hk
    rw [List.filter_eq_self]
    rintro y hy
    rw [bne_iff_ne]
    rintro rfl
    exact hk (h.mem_childIds_iff.1 hy)
  cases hp : s.parent? x with
  | none =>
    have hdetach : s.detach x = s := by
      rw [detach, show (s.get? x).bind (·.parent) = none from hp]
    rw [hdetach]
    exact ⟨h.keyed, fun _ => rfl, fun _ => rfl,
      fun k => (hother (by rw [hp]; simp)).symm, rfl, rfl⟩
  | some p =>
    have hdetach : s.detach x =
        s.modify p fun o => { o with children := o.children.filter (· != x) } := by
      rw [detach, show (s.get? x).bind (·.parent) = some p from hp]
    have hloses := loses_detach h.keyed x
    rw [hdetach] at hloses ⊢
    refine ⟨hloses.keyed, fun _ => kind?_modify _ fun _ => rfl,
      fun _ => parent?_modify _ fun _ => rfl,
      fun k => ?_, party_modify _ _ _, latest_modify _ _ _⟩
    rw [childIds_modify fun l => l.filter (· != x)]
    split
    · rename_i hk
      rw [hk.1]
    · rename_i hk
      refine (hother fun hk' => hk ⟨?_, h.parent_live hp⟩).symm
      rw [hp] at hk'
      exact (Option.some.inj hk').symm

/-- What an attached object changes. -/
structure Attached (s s' : Store) (p x : ObjectId) : Prop where
  keyed : s'.Keyed
  kind?_eq : ∀ k, s'.kind? k = s.kind? k
  parent?_eq : ∀ k, s'.parent? k = if k = x then some p else s.parent? k
  childIds_eq : ∀ k, s'.childIds k =
    (s.childIds k).filter (· != x) ++ if k = p then [x] else []
  party_eq : s'.party = s.party
  latest_eq : s'.latest = s.latest

theorem Attached.contains_eq (h : s.Attached s' p x) (k : ObjectId) :
    s'.contains k = s.contains k :=
  contains_eq_of_kind? (h.kind?_eq k)

/-- **An object that is attached is listed by its new parent alone**, which it
names, and nothing else changes. -/
theorem Linked.attached (h : s.Linked) (hattach : s.attach? p x = some s') :
    s.Attached s' p x := by
  have hkeyed := (loses_attach h.keyed hattach).keyed
  unfold attach? at hattach
  split at hattach
  · simp at hattach
  rename_i hrefused
  simp only [not_or, Bool.not_eq_true', Bool.not_eq_false] at hrefused
  obtain ⟨-, hp, hx⟩ := hrefused
  obtain rfl := Option.some.inj hattach
  have hdetached := h.detached x
  -- the child names its new parent, and the parent lists it last
  generalize s.detach x = s₁ at hdetached hkeyed ⊢
  have hx₁ : s₁.contains x := by rw [hdetached.contains_eq]; exact hx
  have hp₁ : s₁.contains p := by rw [hdetached.contains_eq]; exact hp
  have hkind : ∀ k, (s₁.modify x fun o => { o with parent := some p }).kind? k = s₁.kind? k :=
    fun _ => kind?_modify _ fun _ => rfl
  have hchildIds : ∀ k, (s₁.modify x fun o => { o with parent := some p }).childIds k =
      s₁.childIds k := fun _ => childIds_modify_of _ fun _ => rfl
  refine ⟨hkeyed, fun k => ?_, fun k => ?_, fun k => ?_, ?_, ?_⟩
  · rw [kind?_modify (fun o => { o with children := o.children ++ [x] }) fun _ => rfl, hkind,
      hdetached.kind?_eq]
  · rw [parent?_modify (fun o => { o with children := o.children ++ [x] }) fun _ => rfl, parent?,
      get?_modify]
    split
    · obtain ⟨o, ho⟩ := contains_iff.1 hx₁
      simp [ho]
    · exact hdetached.parent?_eq k
  · have hp₂ : (s₁.modify x fun o => { o with parent := some p }).contains p := by
      rw [contains_eq_kind?, hkind, ← contains_eq_kind?]
      exact hp₁
    rw [childIds_modify fun l => l ++ [x], hchildIds, hchildIds]
    by_cases hk : k = p
    · simp [hk, hp₂, hdetached.childIds_eq]
    · simp [hk, hdetached.childIds_eq]
  · rw [party_modify, party_modify, hdetached.party_eq]
  · rw [latest_modify, latest_modify, hdetached.latest_eq]

theorem Linked.attach (h : s.Linked) (hattach : s.attach? p x = some s') : s'.Linked := by
  have hattached := h.attached hattach
  refine ⟨hattached.keyed, fun {k y} => ?_, fun k => ?_, fun {y} hy => ?_, fun y hy => ?_, ?_,
    fun {kind y} hy => ?_⟩
  · rw [hattached.childIds_eq, hattached.parent?_eq, List.mem_append, List.mem_filter,
      h.mem_childIds_iff]
    by_cases hy : y = x
    · subst hy
      by_cases hk : k = p
      · simp [hk]
      · simp [hk, Ne.symm hk]
    · by_cases hk : k = p <;> simp [hy, hk]
  · rw [hattached.childIds_eq, List.nodup_append]
    refine ⟨(h.nodup_childIds k).filter _, by split <;> simp, fun y hy z hz => ?_⟩
    have hne := (List.mem_filter.1 hy).2
    split at hz
    · obtain rfl := List.mem_singleton.1 hz
      simpa using hne
    · simp at hz
  · rw [hattached.contains_eq] at hy
    exact (h.handedOut hy).mono (Nat.le_of_eq (created_attach hattach).symm)
  · rw [hattached.party_eq] at hy
    rw [hattached.contains_eq]
    exact h.party_live y hy
  · rw [hattached.party_eq]
    exact h.party_nodup
  · rw [hattached.latest_eq] at hy
    rw [hattached.contains_eq]
    exact h.latest_live hy

theorem Linked.joinParty (h : s.Linked) (actor : ObjectId) : (s.joinParty actor).Linked := by
  unfold Store.joinParty
  split
  case isFalse => exact h
  rename_i hjoins
  obtain ⟨hactor, hnew⟩ := hjoins
  refine ⟨h.keyed, h.mem_childIds_iff, h.nodup_childIds, h.handedOut, fun y hy => ?_, ?_,
    h.latest_live⟩
  · rcases List.mem_append.1 hy with hy | hy
    · exact h.party_live y hy
    · rw [List.mem_singleton.1 hy]
      exact hactor
  · refine List.nodup_append.2 ⟨h.party_nodup, by simp, fun y hy z hz => ?_⟩
    rw [List.mem_singleton.1 hz]
    rintro rfl
    simp [hy] at hnew

/-! ## Removing -/

/-- What lies on the stack is taken out. -/
theorem gone_of_mem_stack {objects : Table ObjectId GameObject} {stack : List ObjectId}
    (hk : k ∈ stack) : (takeOut objects stack).1.get? k = none := by
  induction objects, stack using takeOut.induct with
  | case1 objects => simp at hk
  | case2 objects id stack hget ih =>
    rw [takeOut_none hget]
    rcases List.mem_cons.1 hk with rfl | hk
    · cases hleft : (takeOut objects stack).1.get? k with
      | none => rfl
      | some o => rw [get?_of_takeOut hleft] at hget; simp at hget
    · exact ih hk
  | case3 objects id stack o hget left taken htaken ih =>
    rw [takeOut_some hget]
    rcases List.mem_cons.1 hk with rfl | hk
    · cases hleft : (takeOut (objects.erase k) (o.children.reverse ++ stack)).1.get? k with
      | none => rfl
      | some o' =>
        have herased := get?_of_takeOut hleft
        rw [Table.get?_erase_self] at herased
        simp at herased
    · exact ih (List.mem_append_right _ hk)

/-- **With an object everything that it lists is taken out.** -/
theorem gone_of_child {objects : Table ObjectId GameObject} {stack : List ObjectId}
    {o : GameObject} (hk : objects.get? k = some o)
    (hgone : (takeOut objects stack).1.get? k = none) (hx : x ∈ o.children) :
    (takeOut objects stack).1.get? x = none := by
  induction objects, stack using takeOut.induct with
  | case1 objects =>
    rw [takeOut, hk] at hgone
    simp at hgone
  | case2 objects id stack hget ih =>
    rw [takeOut_none hget] at hgone ⊢
    exact ih hk hgone
  | case3 objects id stack o' hget left taken htaken ih =>
    rw [takeOut_some hget] at hgone ⊢
    by_cases hid : k = id
    · subst hid
      obtain rfl := Option.some.inj (hk.symm.trans hget)
      exact gone_of_mem_stack (List.mem_append_left _ (List.mem_reverse.2 hx))
    · refine ih ?_ hgone
      rwa [Table.get?_erase_of_ne _ hid]

/-- **Nothing else is taken out** than what lies on the stack and what
objects taken out list. -/
theorem child_of_gone {objects : Table ObjectId GameObject} {stack : List ObjectId}
    (hx : (objects.get? x).isSome) (hgone : (takeOut objects stack).1.get? x = none) :
    x ∈ stack ∨ ∃ k o, objects.get? k = some o ∧ (takeOut objects stack).1.get? k = none ∧
      x ∈ o.children := by
  induction objects, stack using takeOut.induct with
  | case1 objects =>
    rw [takeOut] at hgone
    rw [hgone] at hx
    simp at hx
  | case2 objects id stack hget ih =>
    rw [takeOut_none hget] at hgone ⊢
    exact (ih hx hgone).imp_left (List.mem_cons_of_mem _)
  | case3 objects id stack o hget left taken htaken ih =>
    have hid : (takeOut objects (id :: stack)).1.get? id = none :=
      gone_of_mem_stack List.mem_cons_self
    rw [takeOut_some hget] at hgone hid ⊢
    by_cases hne : x = id
    · exact .inl (hne ▸ List.mem_cons_self)
    rw [← Table.get?_erase_of_ne _ hne] at hx
    rcases ih hx hgone with hmem | ⟨k, o', ho', hk, hchild⟩
    · rcases List.mem_append.1 hmem with hmem | hmem
      · exact .inr ⟨id, o, hget, hid, List.mem_reverse.1 hmem⟩
      · exact .inl (List.mem_cons_of_mem _ hmem)
    · refine .inr ⟨k, o', ?_, hk, hchild⟩
      by_cases hkid : k = id
      · rw [hkid, Table.get?_erase_self] at ho'
        simp at ho'
      · rwa [Table.get?_erase_of_ne _ hkid] at ho'

/-- What was taken was there and is not left. -/
theorem gone_of_mem_taken {objects : Table ObjectId GameObject} {stack : List ObjectId}
    {o : GameObject} (ho : o ∈ (takeOut objects stack).2) :
    ∃ k, objects.get? k = some o ∧ (takeOut objects stack).1.get? k = none := by
  induction objects, stack using takeOut.induct with
  | case1 objects => simp [takeOut] at ho
  | case2 objects id stack hget ih =>
    rw [takeOut_none hget] at ho ⊢
    exact ih ho
  | case3 objects id stack o' hget left taken htaken ih =>
    have hid : (takeOut objects (id :: stack)).1.get? id = none :=
      gone_of_mem_stack List.mem_cons_self
    rw [takeOut_some hget] at ho hid ⊢
    rcases List.mem_cons.1 ho with rfl | ho
    · exact ⟨id, hget, hid⟩
    · obtain ⟨k, hk, hgone⟩ := ih ho
      refine ⟨k, ?_, hgone⟩
      by_cases hkid : k = id
      · rw [hkid, Table.get?_erase_self] at hk
        simp at hk
      · rwa [Table.get?_erase_of_ne _ hkid] at hk

/-- In a store under its own numbers, an object was taken when it is not
left. -/
theorem any_taken {objects : Table ObjectId GameObject} {stack : List ObjectId}
    (hkeyed : ∀ k o, objects.get? k = some o → o.id = k) (hk : objects.contains k) :
    (takeOut objects stack).2.any (·.id == k) = !(takeOut objects stack).1.contains k := by
  obtain ⟨o, ho⟩ := Option.isSome_iff_exists.1 hk
  rw [Table.contains]
  cases hleft : (takeOut objects stack).1.get? k with
  | none =>
    have htaken : (takeOut objects stack).2.any (·.id == k) = true :=
      List.any_eq_true.2 ⟨o, mem_taken hleft ho, by simpa using hkeyed k o ho⟩
    rw [htaken]
    rfl
  | some o' =>
    have htaken : (takeOut objects stack).2.any (·.id == k) = false := by
      rw [List.any_eq_false]
      intro o'' ho'' hid
      obtain ⟨k', hk', hgone⟩ := gone_of_mem_taken ho''
      rw [← hkeyed k' o'' hk', eq_of_beq hid, hleft] at hgone
      simp at hgone
    rw [htaken]
    rfl

theorem not_contains_iff : ¬ s.contains k ↔ s.get? k = none := by
  rw [contains, Table.contains, Option.not_isSome_iff_eq_none]
  rfl

theorem objects_remove (hx : s.contains x) :
    (s.remove x).2.objects = (takeOut (s.detach x).objects [x]).1 := by
  rw [remove, if_pos hx]

theorem get?_remove (hx : s.contains x) (hk : (s.remove x).2.contains k) :
    (s.remove x).2.get? k = (s.detach x).get? k := by
  obtain ⟨o, ho⟩ := contains_iff.1 hk
  rw [ho]
  rw [get?, objects_remove hx] at ho
  exact (get?_of_takeOut ho).symm

/-- A removal takes with an object what names it as its parent. -/
theorem Linked.removed_below (h : s.Linked) (hx : s.contains x) (hp : s.parent? k = some p)
    (hk : k ≠ x) (hgone : ¬ (s.remove x).2.contains p) : ¬ (s.remove x).2.contains k := by
  have hlisted : k ∈ (s.detach x).childIds p := by
    rw [(h.detached x).childIds_eq, List.mem_filter]
    exact ⟨h.mem_childIds_iff.2 hp, by simpa using hk⟩
  rw [not_contains_iff, get?, objects_remove hx] at hgone ⊢
  cases ho : (s.detach x).get? p with
  | none => simp [childIds, ho] at hlisted
  | some o =>
    rw [childIds, ho] at hlisted
    exact gone_of_child ho hgone hlisted

/-- A removal takes only the object itself and what is below an object that
it takes. -/
theorem Linked.above_removed (h : s.Linked) (hx : s.contains x) (hk : s.contains k) (hne : k ≠ x)
    (hgone : ¬ (s.remove x).2.contains k) :
    ∃ p, s.parent? k = some p ∧ ¬ (s.remove x).2.contains p := by
  have hdetached := h.detached x
  rw [← hdetached.contains_eq] at hk
  rw [not_contains_iff, get?, objects_remove hx] at hgone
  rcases child_of_gone hk hgone with hmem | ⟨p, o, ho, hp, hmem⟩
  · exact absurd (List.mem_singleton.1 hmem) hne
  · have hlisted : k ∈ (s.detach x).childIds p := by
      rw [childIds, show (s.detach x).get? p = some o from ho]
      exact hmem
    rw [hdetached.childIds_eq] at hlisted
    refine ⟨p, h.mem_childIds_iff.1 (List.mem_filter.1 hlisted).1, ?_⟩
    rwa [not_contains_iff, get?, objects_remove hx]

/-- What the removal of an object changes. -/
structure Pruned (s s' : Store) (x : ObjectId) : Prop where
  keyed : s'.Keyed
  kind?_eq : ∀ {k}, s'.contains k → s'.kind? k = s.kind? k
  not_contains : ¬ s'.contains x
  /-- Whatever is below the object goes with it, and nothing else. -/
  contains_iff : ∀ {k p}, s.parent? k = some p → k ≠ x → (s'.contains k ↔ s'.contains p)
  contains_of_root : ∀ {k}, s.contains k → s.parent? k = none → k ≠ x → s'.contains k
  parent?_eq : ∀ {k}, s'.contains k → s'.parent? k = s.parent? k
  childIds_eq : ∀ {k}, s'.contains k → s'.childIds k = (s.childIds k).filter (· != x)
  party_eq : s'.party = s.party.filter s'.contains
  latest_eq : ∀ kind, s'.latest.get? kind = (s.latest.get? kind).filter s'.contains

theorem Pruned.contains_of (h : s.Pruned s' x) (hk : s'.contains k) : s.contains k :=
  (contains_eq_of_kind? (h.kind?_eq hk)).symm.trans hk

/-- **An object is removed with everything below it**, and what is left keeps
its links. -/
theorem Linked.pruned (h : s.Linked) (hx : s.contains x) : s.Pruned (s.remove x).2 x := by
  have hdetached := h.detached x
  have hlive : ∀ {k}, s.contains k →
      (!(takeOut (s.detach x).objects [x]).2.any (·.id == k)) = (s.remove x).2.contains k := by
    intro k hk
    rw [← hdetached.contains_eq] at hk
    rw [any_taken hdetached.keyed hk, Bool.not_not, contains, objects_remove hx]
  refine ⟨(loses_remove h.keyed x).keyed, fun {k} hk => ?_, ?_,
    fun {k p} hp hne => ⟨fun hk => ?_, fun hp' => ?_⟩, fun {k} hk hp hne => ?_,
    fun {k} hk => ?_, fun {k} hk => ?_, ?_, fun kind => ?_⟩
  · rw [kind?, get?_remove hx hk]
    exact hdetached.kind?_eq k
  · rw [not_contains_iff, get?, objects_remove hx]
    exact gone_of_mem_stack (List.mem_singleton_self x)
  · exact Decidable.byContradiction fun hp' => h.removed_below hx hp hne hp' hk
  · refine Decidable.byContradiction fun hk => ?_
    obtain ⟨p', hp'', hgone⟩ := h.above_removed hx (contains_of_parent? hp) hne hk
    obtain rfl := Option.some.inj (hp.symm.trans hp'')
    exact hgone hp'
  · refine Decidable.byContradiction fun hk' => ?_
    obtain ⟨p, hp', -⟩ := h.above_removed hx hk hne hk'
    rw [hp] at hp'
    simp at hp'
  · rw [parent?, get?_remove hx hk]
    exact hdetached.parent?_eq k
  · rw [childIds, get?_remove hx hk]
    exact hdetached.childIds_eq k
  · have hparty : (s.remove x).2.party =
        s.party.filter fun y => !(takeOut (s.detach x).objects [x]).2.any (·.id == y) := by
      rw [remove, if_pos hx]
    rw [hparty]
    exact List.filter_congr fun y hy => hlive (h.party_live y hy)
  · have hlatest : (s.remove x).2.latest =
        s.latest.filter fun _ y => !(takeOut (s.detach x).objects [x]).2.any (·.id == y) := by
      rw [remove, if_pos hx]
    rw [hlatest, Table.get?_filter]
    cases hy : s.latest.get? kind with
    | none => rfl
    | some y => simp only [Option.filter, hlive (h.latest_live hy)]

theorem Linked.remove (h : s.Linked) (x : ObjectId) : (s.remove x).2.Linked := by
  by_cases hx : s.contains x
  case neg =>
    rw [Store.remove, if_neg hx]
    exact h
  have hpruned := h.pruned hx
  have hcreated := created_remove s x
  generalize (s.remove x).2 = s' at hpruned hcreated
  have hlisted : ∀ {p k}, s'.contains p → (k ∈ s'.childIds p ↔ s.parent? k = some p ∧ k ≠ x) := by
    intro p k hp
    rw [hpruned.childIds_eq hp, List.mem_filter, h.mem_childIds_iff, bne_iff_ne]
  refine ⟨hpruned.keyed, fun {p k} => ⟨fun hk => ?_, fun hp => ?_⟩, fun p => ?_,
    fun {k} hk => ?_, fun k hk => ?_, ?_, fun {kind k} hk => ?_⟩
  · have hp := contains_of_mem_childIds hk
    obtain ⟨hparent, hne⟩ := (hlisted hp).1 hk
    rw [hpruned.parent?_eq ((hpruned.contains_iff hparent hne).2 hp)]
    exact hparent
  · have hk := contains_of_parent? hp
    rw [hpruned.parent?_eq hk] at hp
    have hne : k ≠ x := by
      rintro rfl
      exact hpruned.not_contains hk
    exact (hlisted ((hpruned.contains_iff hp hne).1 hk)).2 ⟨hp, hne⟩
  · by_cases hp : s'.contains p
    · rw [hpruned.childIds_eq hp]
      exact (h.nodup_childIds p).filter _
    · cases ho : s'.get? p with
      | none => simp [childIds, ho]
      | some o => exact absurd (contains_iff.2 ⟨o, ho⟩) hp
  · exact (h.handedOut (hpruned.contains_of hk)).mono (Nat.le_of_eq hcreated.symm)
  · rw [hpruned.party_eq] at hk
    exact (List.mem_filter.1 hk).2
  · rw [hpruned.party_eq]
    exact h.party_nodup.filter _
  · rw [hpruned.latest_eq] at hk
    exact (Option.filter_eq_some_iff.1 hk).2

/-! ## What creates nothing -/

/-- From the first store to the second, links stay consistent, no object
changes its kind, and of the latest objects those are left that there are. -/
structure Keeps (s s' : Store) : Prop where
  linked : s'.Linked
  kind?_eq : ∀ {k}, s'.contains k → s'.kind? k = s.kind? k
  latest_eq : ∀ kind, s'.latest.get? kind = (s.latest.get? kind).filter s'.contains

namespace Linked

theorem latest_filter (h : s.Linked) (kind : ObjectKind) :
    s.latest.get? kind = (s.latest.get? kind).filter s.contains := by
  cases hx : s.latest.get? kind with
  | none => rfl
  | some x => simp [Option.filter, h.latest_live hx]

theorem keeps_refl (h : s.Linked) : s.Keeps s := ⟨h, fun _ => rfl, h.latest_filter⟩

theorem keeps_attach (h : s.Linked) (hattach : s.attach? p x = some s') : s.Keeps s' := by
  have hattached := h.attached hattach
  refine ⟨h.attach hattach, fun {k} _ => hattached.kind?_eq k,
    fun kind => ?_⟩
  rw [hattached.latest_eq, funext hattached.contains_eq]
  exact h.latest_filter kind

theorem keeps_joinParty (h : s.Linked) (actor : ObjectId) : s.Keeps (s.joinParty actor) := by
  have hlinked := h.joinParty actor
  unfold Store.joinParty at hlinked ⊢
  split
  · rename_i hjoins
    rw [if_pos hjoins] at hlinked
    exact ⟨hlinked, fun _ => rfl, h.latest_filter⟩
  · exact h.keeps_refl

theorem keeps_remove (h : s.Linked) (x : ObjectId) : s.Keeps (s.remove x).2 := by
  by_cases hx : s.contains x
  · have hpruned := h.pruned hx
    exact ⟨h.remove x, hpruned.kind?_eq, hpruned.latest_eq⟩
  · rw [Store.remove, if_neg hx]
    exact h.keeps_refl

/-- A child that is created is attached: it is none of the objects that there
were, its parent not excepted. -/
theorem attach?_of_createChild? (h : s.Linked) {kind : ObjectKind} {dataId : String}
    (hchild : s.createChild? p kind dataId = some (x, s'))
    (hround : (s.create kind dataId).2.OneRound) :
    x = s.nextId ∧ (s.create kind dataId).2.attach? p x = some s' := by
  obtain ⟨hp, rfl, rfl⟩ := of_createChild? hchild
  have hne : p ≠ s.nextId := by
    rintro rfl
    exact hround.not_handedOut (h.handedOut hp)
  have hnew : (s.create kind dataId).2.contains s.nextId :=
    (contains_create s kind dataId).2 (.inl rfl)
  have hold : (s.create kind dataId).2.contains p := (contains_create s kind dataId).2 (.inr hp)
  have hattach : ∃ s'', (s.create kind dataId).2.attach? p s.nextId = some s'' := by
    simp [attach?, hne, hnew, hold]
  obtain ⟨s'', hs''⟩ := hattach
  rw [hs'']
  exact ⟨rfl, rfl⟩

end Linked

end

end Store

end Cutscene
