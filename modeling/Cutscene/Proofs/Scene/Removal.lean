import Cutscene.Scene.Store
/-!
# Scenes — what is removed

A number that was handed out (`Store.HandedOut`) is that of a removed object
when there is none under it (`Store.Removed`). Every operation on a store keeps
objects under their own numbers (`Store.Keyed`), and none but `Store.remove`
removes any; that one removes the objects that it reports and no others
(`Store.Loses`). None of this asks whether the numbers have come round. While
they have not (`Store.OneRound`), the next number is always a new one
(`Store.OneRound.not_handedOut`).
-/

namespace Cutscene

/-- Until they come round, the numbers of different objects are different. -/
theorem ObjectId.ofCount_inj {n n' : Nat} (hn : n < UInt64.size) (hn' : n' < UInt64.size)
    (h : ObjectId.ofCount (n + 1) = .ofCount (n' + 1)) : n = n' := by
  have hmod : (n + 1) % UInt64.size = (n' + 1) % UInt64.size := congrArg ObjectId.val h
  rw [show UInt64.size = 18446744073709551616 from rfl] at *
  omega

namespace Store

/-- The number was handed out to an object that was created. -/
def HandedOut (s : Store) (id : ObjectId) : Prop := ∃ n < s.created, id = .ofCount (n + 1)

instance (s : Store) (id : ObjectId) : Decidable (s.HandedOut id) :=
  inferInstanceAs (Decidable (∃ n < s.created, id = .ofCount (n + 1)))

/-- An object with the number was created, and there is none. -/
def Removed (s : Store) (id : ObjectId) : Prop := s.HandedOut id ∧ s.get? id = none

instance (s : Store) (id : ObjectId) : Decidable (s.Removed id) :=
  decidable_of_iff (s.HandedOut id ∧ (s.get? id).isNone)
    (by rw [Removed, Option.isNone_iff_eq_none])

/-- The numbers have not come round: every object that was created had one of
its own. -/
def OneRound (s : Store) : Prop := s.created ≤ UInt64.size

instance (s : Store) : Decidable s.OneRound :=
  inferInstanceAs (Decidable (s.created ≤ UInt64.size))

/-- Every object stands under its own number. -/
def Keyed (s : Store) : Prop := ∀ id o, s.get? id = some o → o.id = id

/-- From the first store to the second, objects keep their numbers and none
but the listed are removed. -/
structure Loses (s s' : Store) (ids : List ObjectId) : Prop where
  keyed : s'.Keyed
  gone : ∀ {id : ObjectId}, s'.Removed id → s.Removed id ∨ id ∈ ids

theorem keyed_empty : Keyed empty := fun _ _ h => by simp [get?, empty] at h

theorem not_removed_empty (id : ObjectId) : ¬ empty.Removed id := by
  rintro ⟨⟨n, hn, -⟩, -⟩
  exact absurd hn (Nat.not_lt_zero n)

/-- What has been handed out stays so. -/
theorem HandedOut.mono {s s' : Store} {id : ObjectId} (h : s.HandedOut id)
    (hle : s.created ≤ s'.created) : s'.HandedOut id := by
  obtain ⟨n, hn, hid⟩ := h
  exact ⟨n, Nat.lt_of_lt_of_le hn hle, hid⟩

namespace OneRound

variable {s s' : Store}

theorem of_le (h : s'.OneRound) (hle : s.created ≤ s'.created) : s.OneRound :=
  Nat.le_trans hle h

/-- **The next number is a new one**, as long as there is one left. -/
theorem not_handedOut {kind : ObjectKind} {dataId : String}
    (h : (s.create kind dataId).2.OneRound) : ¬ s.HandedOut s.nextId := by
  rintro ⟨n, hn, hid⟩
  have hroom : s.created < UInt64.size := h
  have heq := ObjectId.ofCount_inj hroom (Nat.lt_trans hn hroom) hid
  exact absurd hn (Nat.not_lt.2 (Nat.le_of_eq heq))

end OneRound

namespace Loses

variable {s s' s'' : Store} {ids ids' : List ObjectId}

theorem refl (hs : s.Keyed) : s.Loses s [] := ⟨hs, .inl⟩

theorem trans (h : s.Loses s' ids) (h' : s'.Loses s'' ids') : s.Loses s'' (ids' ++ ids) := by
  refine ⟨h'.keyed, fun hid => ?_⟩
  rcases h'.gone hid with hid | hid
  · exact (h.gone hid).imp_right (List.mem_append_right _)
  · exact .inr (List.mem_append_left _ hid)

/-- Removals aside, a store is its objects and how many were created. -/
theorem of_eq (h : s.Loses s' ids) (hobjects : s''.objects = s'.objects)
    (hcreated : s''.created = s'.created) : s.Loses s'' ids := by
  have hget : ∀ id, s''.get? id = s'.get? id := fun id => by rw [get?, get?, hobjects]
  refine ⟨fun k o hk => h.keyed k o ((hget _).symm.trans hk), fun hid => h.gone ?_⟩
  rwa [Removed, HandedOut, hget, hcreated] at hid

end Loses

section

variable {s : Store} {id : ObjectId} {change : GameObject → GameObject}

theorem get?_modify (s : Store) (id k : ObjectId) (change : GameObject → GameObject) :
    (s.modify id change).get? k = if k = id then (s.get? id).map change else s.get? k := by
  cases ho : s.get? id with
  | none =>
    rw [show s.modify id change = s by simp [modify, ho]]
    split
    · rename_i hk
      rw [hk, ho]
      rfl
    · rfl
  | some o =>
    have hobjects : (s.modify id change).objects = s.objects.insert id (change o) := by
      simp [modify, ho]
    rw [get?, hobjects]
    split
    · rename_i hk
      rw [hk, Table.get?_insert_self]
      rfl
    · rename_i hk
      rw [Table.get?_insert_of_ne _ _ hk]
      rfl

theorem created_modify (s : Store) (id : ObjectId) (change : GameObject → GameObject) :
    (s.modify id change).created = s.created := by
  unfold modify
  split <;> rfl

/-- Changing an object removes none. -/
theorem loses_modify (hs : s.Keyed) (hid : ∀ o, (change o).id = o.id) :
    s.Loses (s.modify id change) [] := by
  constructor
  · intro k o ho
    rw [get?_modify] at ho
    split at ho
    · rename_i hk
      obtain ⟨o', ho', rfl⟩ := Option.map_eq_some_iff.1 ho
      rw [hid, hs _ _ ho', hk]
    · exact hs _ _ ho
  · intro k ⟨hout, hget⟩
    rw [get?_modify] at hget
    refine .inl ⟨hout.mono (Nat.le_of_eq (created_modify s id change)), ?_⟩
    split at hget
    · rename_i hk
      rw [hk]
      simpa using hget
    · exact hget

theorem get?_create (s : Store) (kind : ObjectKind) (dataId : String) (k : ObjectId) :
    (s.create kind dataId).2.get? k =
      if k = s.nextId then some ⟨s.nextId, kind, dataId, none, none, .empty, none, []⟩
      else s.get? k := by
  show (s.objects.insert s.nextId _).get? k = _
  split
  · rename_i hk
    rw [hk, Table.get?_insert_self]
  · rename_i hk
    rw [Table.get?_insert_of_ne _ _ hk]
    rfl

theorem created_create (s : Store) (kind : ObjectKind) (dataId : String) :
    (s.create kind dataId).2.created = s.created + 1 := rfl

/-- A creation hands out one number more. -/
theorem handedOut_create {k : ObjectId} {kind : ObjectKind} {dataId : String} :
    (s.create kind dataId).2.HandedOut k ↔ k = s.nextId ∨ s.HandedOut k := by
  constructor
  · rintro ⟨n, hn, rfl⟩
    rcases Nat.lt_succ_iff_lt_or_eq.1 (created_create s kind dataId ▸ hn) with hn | rfl
    · exact .inr ⟨n, hn, rfl⟩
    · exact .inl rfl
  · rintro (rfl | hout)
    · exact ⟨s.created, Nat.lt_succ_self _, rfl⟩
    · exact hout.mono (Nat.le_succ _)

theorem loses_create (hs : s.Keyed) (kind : ObjectKind) (dataId : String) :
    s.Loses (s.create kind dataId).2 [] := by
  constructor
  · intro k o ho
    rw [get?_create] at ho
    split at ho
    · rename_i hk
      obtain rfl := Option.some.inj ho
      exact hk.symm
    · exact hs _ _ ho
  · intro k ⟨hout, hnone⟩
    rw [get?_create] at hnone
    split at hnone
    · simp at hnone
    -- a number that was handed out before, so the object was removed before
    · rename_i hk
      exact .inl ⟨(handedOut_create.1 hout).resolve_left hk, hnone⟩

theorem loses_detach (hs : s.Keyed) (child : ObjectId) : s.Loses (s.detach child) [] := by
  unfold detach
  split
  · exact loses_modify hs fun _ => rfl
  · exact .refl hs

theorem created_detach (s : Store) (child : ObjectId) : (s.detach child).created = s.created := by
  unfold detach
  split
  · exact created_modify _ _ _
  · rfl

theorem created_attach {s' : Store} {parent child : ObjectId}
    (h : s.attach? parent child = some s') : s'.created = s.created := by
  unfold attach? at h
  split at h
  · simp at h
  obtain rfl := Option.some.inj h
  rw [created_modify, created_modify, created_detach]

theorem loses_attach {s' : Store} (hs : s.Keyed) {parent child : ObjectId}
    (h : s.attach? parent child = some s') : s.Loses s' [] := by
  unfold attach? at h
  split at h
  · simp at h
  obtain rfl := Option.some.inj h
  -- the child leaves its old parent, names the new one, and is listed there
  have hdetach := loses_detach hs child
  have hchild : (s.detach child).Loses
      ((s.detach child).modify child fun o => { o with parent := some parent }) [] :=
    loses_modify hdetach.keyed fun _ => rfl
  have hparent : ∀ {s : Store}, s.Keyed →
      s.Loses (s.modify parent fun o => { o with children := o.children ++ [child] }) [] :=
    fun hs => loses_modify hs fun _ => rfl
  exact (hdetach.trans hchild).trans (hparent hchild.keyed)

/-- A child is created like any other object, and then attached unless it has
taken its parent's place. -/
theorem of_createChild? {s' : Store} {parent : ObjectId} {kind : ObjectKind} {dataId : String}
    (h : s.createChild? parent kind dataId = some (id, s')) :
    s.contains parent ∧ id = s.nextId ∧
      s' = ((s.create kind dataId).2.attach? parent s.nextId).getD (s.create kind dataId).2 := by
  unfold createChild? at h
  split at h
  case isFalse => simp at h
  rename_i hparent
  obtain ⟨hid, hs'⟩ := Prod.mk.inj (Option.some.inj h)
  exact ⟨hparent, hid.symm, hs'.symm⟩

theorem created_createChild {s' : Store} {parent : ObjectId} {kind : ObjectKind}
    {dataId : String} (h : s.createChild? parent kind dataId = some (id, s')) :
    s'.created = s.created + 1 := by
  obtain ⟨-, -, rfl⟩ := of_createChild? h
  cases hattach : (s.create kind dataId).2.attach? parent s.nextId with
  | none => rfl
  | some s'' => exact created_attach hattach

theorem loses_createChild {s' : Store} (hs : s.Keyed) {parent : ObjectId} {kind : ObjectKind}
    {dataId : String} (h : s.createChild? parent kind dataId = some (id, s')) :
    s.Loses s' [] := by
  obtain ⟨-, -, rfl⟩ := of_createChild? h
  have hcreate := loses_create hs kind dataId
  cases hattach : (s.create kind dataId).2.attach? parent s.nextId with
  | none => exact hcreate
  | some s'' => exact hcreate.trans (loses_attach hcreate.keyed hattach)

theorem created_joinParty (s : Store) (actor : ObjectId) :
    (s.joinParty actor).created = s.created := by
  unfold joinParty
  split <;> rfl

theorem loses_joinParty (hs : s.Keyed) (actor : ObjectId) : s.Loses (s.joinParty actor) [] := by
  unfold joinParty
  split
  · exact (Loses.refl hs).of_eq rfl rfl
  · exact .refl hs

end

/-! ## Removal -/

section

variable {objects : Table ObjectId GameObject} {stack : List ObjectId} {k : ObjectId}

theorem takeOut_none {id : ObjectId} (h : objects.get? id = none) :
    takeOut objects (id :: stack) = takeOut objects stack := by
  rw [takeOut]
  split
  · rfl
  · rename_i hsome
    rw [h] at hsome
    simp at hsome

theorem takeOut_some {id : ObjectId} {o : GameObject} (h : objects.get? id = some o) :
    takeOut objects (id :: stack) =
      ((takeOut (objects.erase id) (o.children.reverse ++ stack)).1,
        o :: (takeOut (objects.erase id) (o.children.reverse ++ stack)).2) := by
  rw [takeOut]
  split
  · rename_i hnone
    rw [h] at hnone
    simp at hnone
  · rename_i o' hsome
    obtain rfl := Option.some.inj (h.symm.trans hsome)
    rfl

theorem get?_of_takeOut {o : GameObject} (h : (takeOut objects stack).1.get? k = some o) :
    objects.get? k = some o := by
  induction objects, stack using takeOut.induct with
  | case1 objects => rwa [takeOut] at h
  | case2 objects id stack hget ih =>
    rw [takeOut_none hget] at h
    exact ih h
  | case3 objects id stack o' hget left taken htaken ih =>
    rw [takeOut_some hget] at h
    have herased := ih h
    by_cases hk : k = id
    · rw [hk, Table.get?_erase_self] at herased
      simp at herased
    · rwa [Table.get?_erase_of_ne _ hk] at herased

/-- What was there and is not left was taken. -/
theorem mem_taken (h : (takeOut objects stack).1.get? k = none) {o : GameObject}
    (ho : objects.get? k = some o) : o ∈ (takeOut objects stack).2 := by
  induction objects, stack using takeOut.induct with
  | case1 objects =>
    rw [takeOut, ho] at h
    simp at h
  | case2 objects id stack hget ih =>
    rw [takeOut_none hget] at h ⊢
    exact ih h ho
  | case3 objects id stack o' hget left taken htaken ih =>
    rw [takeOut_some hget] at h ⊢
    by_cases hk : k = id
    · rw [hk, hget] at ho
      obtain rfl := Option.some.inj ho
      exact List.mem_cons_self
    · refine List.mem_cons_of_mem _ (ih h ?_)
      rwa [Table.get?_erase_of_ne _ hk]

end

theorem created_remove (s : Store) (id : ObjectId) : (s.remove id).2.created = s.created := by
  unfold remove
  split <;> rfl

/-- **A removal removes what it reports and nothing else.** -/
theorem loses_remove {s : Store} (hs : s.Keyed) (id : ObjectId) :
    s.Loses (s.remove id).2 ((s.remove id).1.map (·.id)) := by
  by_cases hid : s.contains id
  case neg =>
    rw [remove, if_neg hid]
    exact .refl hs
  have hdetach := loses_detach hs id
  have hcreated : (s.remove id).2.created = (s.detach id).created :=
    (created_remove s id).trans (created_detach s id).symm
  have hobjects : (s.remove id).2.objects = (takeOut (s.detach id).objects [id]).1 := by
    rw [remove, if_pos hid]
  have hremoved : (s.remove id).1 = (takeOut (s.detach id).objects [id]).2 := by
    rw [remove, if_pos hid]
  refine ⟨fun k o ho => hdetach.keyed k o ?_, fun {k} ⟨hout, hnone⟩ => ?_⟩
  · rw [get?, hobjects] at ho
    exact get?_of_takeOut ho
  · rw [get?, hobjects] at hnone
    rw [hremoved]
    cases ho : (s.detach id).get? k with
    | none =>
      have hgone : (s.detach id).Removed k := ⟨hout.mono (Nat.le_of_eq hcreated), ho⟩
      exact .inl ((hdetach.gone hgone).resolve_right (by simp))
    | some o => exact .inr (List.mem_map.2 ⟨o, mem_taken hnone ho, hdetach.keyed _ _ ho⟩)

end Store

end Cutscene
