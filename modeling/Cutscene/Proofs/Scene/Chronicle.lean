import Mathlib.Data.List.Induction
import Mathlib.Data.List.Nodup
import Cutscene.Proofs.Scene.Links
/-!
# Scenes — histories

A chronicle is a store with everything that was ever created in it. Every deed
hands out numbers in order (`Chronicle.Numbered`). Until they come round,
creating, attaching, joining and removing keep the two in agreement
(`Chronicle.Kept`): the objects that there are were created, each once and
under a number of its own, and the latest object of a kind is the last that was
created, while it is there. With the links of the store, that is what holds in
every history of no more creations than there are numbers
(`Chronicle.consistent_ofDeeds`), and not in the next one
(`Chronicle.not_consistent_replicate`).
-/

namespace Cutscene

/-- What can be done with the objects of a scene. -/
inductive Deed where
  | create (kind : ObjectKind) (dataId : String)
  | createChild (parent : ObjectId) (kind : ObjectKind) (dataId : String)
  | attach (parent child : ObjectId)
  | joinParty (actor : ObjectId)
  | remove (id : ObjectId)

/-- A store with everything that was ever created in it, in order. -/
structure Chronicle where
  store : Store
  created : List (ObjectId × ObjectKind)

namespace Chronicle

/-- The chronicle after a deed. A deed that is refused changes nothing. -/
def after (c : Chronicle) : Deed → Chronicle
  | .create kind dataId =>
    let (id, store) := c.store.create kind dataId
    ⟨store, c.created ++ [(id, kind)]⟩
  | .createChild parent kind dataId =>
    match c.store.createChild? parent kind dataId with
    | some (id, store) => ⟨store, c.created ++ [(id, kind)]⟩
    | none => c
  | .attach parent child => { c with store := (c.store.attach? parent child).getD c.store }
  | .joinParty actor => { c with store := c.store.joinParty actor }
  | .remove id => { c with store := (c.store.remove id).2 }

/-- The chronicle of a scene that starts without objects. -/
def ofDeeds (deeds : List Deed) : Chronicle := deeds.foldl after ⟨.empty, []⟩

/-- The object of a kind that was created last, gone or not. -/
def lastOf? (c : Chronicle) (kind : ObjectKind) : Option ObjectId :=
  (c.created.filter (·.2 = kind)).getLast?.map (·.1)

/-- Objects have the numbers that were handed out, in order. -/
structure Numbered (c : Chronicle) : Prop where
  keyed : c.store.Keyed
  numbers : c.created.map (·.1) = (List.range c.store.created).map fun n => .ofCount (n + 1)

/-- The store agrees with what was created. -/
structure Kept (c : Chronicle) : Prop where
  linked : c.store.Linked
  mem_created : ∀ {x kind}, c.store.kind? x = some kind → (x, kind) ∈ c.created
  latest_eq : ∀ kind, c.store.latest.get? kind = (c.lastOf? kind).filter c.store.contains

section

variable {c : Chronicle} {store : Store} {kind : ObjectKind} {dataId : String}

/-! ## Numbers -/

theorem numbered_empty : Numbered ⟨.empty, []⟩ := ⟨Store.keyed_empty, rfl⟩

/-- A step that creates nothing keeps the numbers. -/
theorem Numbered.loses (h : c.Numbered) {ids : List ObjectId} (hs : c.store.Loses store ids)
    (hcreated : store.created = c.store.created) : Numbered { c with store } :=
  ⟨hs.keyed, by rw [h.numbers, hcreated]⟩

/-- A step that creates an object hands out the next number. -/
theorem Numbered.creates (h : c.Numbered) (hs : c.store.Loses store [])
    (hcreated : store.created = c.store.created + 1) (kind : ObjectKind) :
    Numbered ⟨store, c.created ++ [(c.store.nextId, kind)]⟩ := by
  refine ⟨hs.keyed, ?_⟩
  rw [hcreated, List.range_succ, List.map_append, List.map_append, h.numbers]
  rfl

theorem Numbered.after (h : c.Numbered) (deed : Deed) : (c.after deed).Numbered := by
  cases deed with
  | create kind dataId => exact h.creates (Store.loses_create h.keyed kind dataId) rfl kind
  | createChild parent kind dataId =>
    rw [Chronicle.after]
    split
    · rename_i id store hchild
      obtain ⟨-, rfl, -⟩ := Store.of_createChild? hchild
      exact h.creates (Store.loses_createChild h.keyed hchild) (Store.created_createChild hchild)
        kind
    · exact h
  | attach parent child =>
    rw [Chronicle.after]
    cases hattach : c.store.attach? parent child with
    | none => exact h
    | some store =>
      exact h.loses (Store.loses_attach h.keyed hattach) (Store.created_attach hattach)
  | joinParty actor =>
    exact h.loses (Store.loses_joinParty h.keyed actor) (Store.created_joinParty _ actor)
  | remove id => exact h.loses (Store.loses_remove h.keyed id) (Store.created_remove _ id)

theorem ofDeeds_concat (deeds : List Deed) (deed : Deed) :
    ofDeeds (deeds ++ [deed]) = (ofDeeds deeds).after deed := by
  rw [ofDeeds, List.foldl_append]
  rfl

/-- **Every history hands out the numbers in order**, again and again. -/
theorem numbered_ofDeeds (deeds : List Deed) : (ofDeeds deeds).Numbered := by
  induction deeds using List.reverseRecOn with
  | nil => exact numbered_empty
  | append_singleton deeds deed ih =>
    rw [ofDeeds_concat]
    exact ih.after deed

theorem Numbered.length_created (h : c.Numbered) : c.created.length = c.store.created := by
  have hlength := congrArg List.length h.numbers
  rwa [List.length_map, List.length_map, List.length_range] at hlength

/-- As long as they have not come round, no number is handed out twice. -/
theorem Numbered.nodup_created (h : c.Numbered) (hround : c.store.OneRound) :
    (c.created.map (·.1)).Nodup := by
  rw [h.numbers]
  refine List.nodup_range.map_on fun n hn n' hn' heq => ?_
  exact ObjectId.ofCount_inj (Nat.lt_of_lt_of_le (List.mem_range.1 hn) hround)
    (Nat.lt_of_lt_of_le (List.mem_range.1 hn') hround) heq

theorem Numbered.handedOut (h : c.Numbered) {e : ObjectId × ObjectKind} (he : e ∈ c.created) :
    c.store.HandedOut e.1 := by
  have hmem := List.mem_map_of_mem (f := (·.1)) he
  rw [h.numbers] at hmem
  obtain ⟨n, hn, hid⟩ := List.mem_map.1 hmem
  exact ⟨n, List.mem_range.1 hn, hid.symm⟩

/-- A deed takes no creation back. -/
theorem created_le_after (c : Chronicle) (deed : Deed) :
    c.store.created ≤ (c.after deed).store.created := by
  cases deed with
  | create kind dataId => exact Nat.le_succ _
  | createChild parent kind dataId =>
    rw [Chronicle.after]
    split
    · rename_i id store hchild
      exact (Store.created_createChild hchild).symm ▸ Nat.le_succ _
    · exact Nat.le_refl _
  | attach parent child =>
    rw [Chronicle.after]
    cases hattach : c.store.attach? parent child with
    | none => exact Nat.le_refl _
    | some store => exact Nat.le_of_eq (Store.created_attach hattach).symm
  | joinParty actor => exact Nat.le_of_eq (Store.created_joinParty _ actor).symm
  | remove id => exact Nat.le_of_eq (Store.created_remove _ id).symm

/-! ## Agreement -/

theorem lastOf?_append (c : Chronicle) (store : Store) (x : ObjectId) (kind kind' : ObjectKind) :
    lastOf? ⟨store, c.created ++ [(x, kind)]⟩ kind' =
      if kind' = kind then some x else c.lastOf? kind' := by
  rw [lastOf?, List.filter_append]
  by_cases hkind : kind = kind'
  · simp [hkind]
  · simp [hkind, Ne.symm hkind, lastOf?]

theorem mem_of_lastOf? {kind : ObjectKind} {x : ObjectId} (h : c.lastOf? kind = some x) :
    (x, kind) ∈ c.created := by
  obtain ⟨⟨y, kind'⟩, hlast, rfl⟩ := Option.map_eq_some_iff.1 h
  obtain ⟨hmem, hkind⟩ := List.mem_filter.1 (List.mem_of_getLast? hlast)
  obtain rfl : kind' = kind := by simpa using hkind
  exact hmem

theorem kept_empty : Kept ⟨.empty, []⟩ where
  linked := Store.linked_empty
  mem_created := by
    intro x kind h
    simp [Store.kind?, Store.get?, Store.empty] at h
  latest_eq _ := rfl

/-- A step that creates nothing keeps the agreement. -/
theorem Kept.keeps (h : c.Kept) (hs : c.store.Keeps store) : Kept { c with store } where
  linked := hs.linked
  mem_created := by
    intro x kind hx
    have hlive : store.contains x := by rw [Store.contains_eq_kind?, hx]; rfl
    exact h.mem_created ((hs.kind?_eq hlive).symm.trans hx)
  latest_eq kind := by
    -- an object that there is after the step there was before
    have hold : ∀ {x}, store.contains x → c.store.contains x := by
      intro x hx
      rw [Store.contains_eq_kind?, ← hs.kind?_eq hx, ← Store.contains_eq_kind?]
      exact hx
    rw [hs.latest_eq, h.latest_eq, Option.filter_filter]
    refine congrArg (Option.filter · _) (funext fun x => ?_)
    cases hx : store.contains x with
    | false => simp
    | true => simp [hold hx]

theorem Kept.create (h : c.Kept) (hnumbered : c.Numbered)
    (hround : (c.store.create kind dataId).2.OneRound) :
    (c.after (.create kind dataId)).Kept where
  linked := h.linked.create hround
  mem_created := by
    intro x kind' hx
    have hx : (c.store.create kind dataId).2.kind? x = some kind' := hx
    rw [Store.kind?, Store.get?_create] at hx
    split at hx
    · rename_i hnew
      obtain rfl : kind = kind' := Option.some.inj hx
      rw [hnew]
      exact List.mem_append_right _ (List.mem_singleton_self _)
    · exact List.mem_append_left _ (h.mem_created hx)
  latest_eq kind' := by
    show (c.store.create kind dataId).2.latest.get? kind' =
      Option.filter (c.store.create kind dataId).2.contains
        (lastOf? ⟨_, c.created ++ [(c.store.nextId, kind)]⟩ kind')
    rw [Store.latest_create, lastOf?_append]
    split
    · have hnew : (c.store.create kind dataId).2.contains c.store.nextId :=
        (Store.contains_create _ _ _).2 (.inl rfl)
      simp only [Option.filter, hnew]
      rfl
    · rw [h.latest_eq]
      cases hx : c.lastOf? kind' with
      | none => rfl
      | some x =>
        -- an older object, which is there as it was
        have hne : x ≠ c.store.nextId := by
          rintro rfl
          exact hround.not_handedOut (hnumbered.handedOut (mem_of_lastOf? hx))
        have hsame : (c.store.create kind dataId).2.contains x = c.store.contains x :=
          Bool.eq_iff_iff.2 ((Store.contains_create _ _ _).trans (or_iff_right hne))
        simp only [Option.filter, hsame]

/-- **Every deed keeps the agreement**, as long as the numbers have not come
round. -/
theorem Kept.after (h : c.Kept) (hnumbered : c.Numbered) (deed : Deed)
    (hround : (c.after deed).store.OneRound) : (c.after deed).Kept := by
  cases deed with
  | create kind dataId => exact h.create hnumbered hround
  | createChild parent kind dataId =>
    rw [Chronicle.after] at hround ⊢
    split at hround
    · rename_i id store hchild
      have hcreated : (c.store.create kind dataId).2.OneRound :=
        Store.OneRound.of_le hround (Nat.le_of_eq (Store.created_createChild hchild).symm)
      obtain ⟨rfl, hattach⟩ := h.linked.attach?_of_createChild? hchild hcreated
      have hcreate := h.create hnumbered hcreated
      exact hcreate.keeps (hcreate.linked.keeps_attach hattach)
    · exact h
  | attach parent child =>
    rw [Chronicle.after]
    cases hattach : c.store.attach? parent child with
    | none => exact h
    | some store => exact h.keeps (h.linked.keeps_attach hattach)
  | joinParty actor => exact h.keeps (h.linked.keeps_joinParty actor)
  | remove id => exact h.keeps (h.linked.keeps_remove id)

/-- **Every history keeps the agreement** until the numbers come round:
induction over the deeds, each of which keeps it. -/
theorem kept_ofDeeds (deeds : List Deed) (hround : (ofDeeds deeds).store.OneRound) :
    (ofDeeds deeds).Kept := by
  induction deeds using List.reverseRecOn with
  | nil => exact kept_empty
  | append_singleton deeds deed ih =>
    rw [ofDeeds_concat] at hround ⊢
    have hbefore := ih (hround.of_le (created_le_after _ deed))
    exact hbefore.after (numbered_ofDeeds deeds) deed hround

/-- The links of the store are consistent, with each other and with what was
created. -/
structure Consistent (c : Chronicle) : Prop where
  /-- No number is handed out twice. -/
  nodup_created : (c.created.map (·.1)).Nodup
  mem_childIds_iff : ∀ p x, x ∈ c.store.childIds p ↔ c.store.parent? x = some p
  nodup_childIds : ∀ p, (c.store.childIds p).Nodup
  parent_live : ∀ {x p}, c.store.parent? x = some p → c.store.contains p
  child_live : ∀ {x p}, x ∈ c.store.childIds p → c.store.contains x
  party_live : ∀ x ∈ c.store.party, c.store.contains x
  party_nodup : c.store.party.Nodup
  latest_live : ∀ {kind x}, c.store.latest.get? kind = some x → c.store.contains x
  /-- The latest object of a kind is the last that was created, while it is
  there. -/
  latest_eq : ∀ kind, c.store.latest.get? kind = (c.lastOf? kind).filter c.store.contains
  latest_kind : ∀ {kind x}, c.store.latest.get? kind = some x → c.store.kind? x = some kind

/-- An object was created once, of one kind. -/
theorem Numbered.kind_unique (h : c.Numbered) (hround : c.store.OneRound) {x : ObjectId}
    {kind kind' : ObjectKind} (hx : (x, kind) ∈ c.created) (hx' : (x, kind') ∈ c.created) :
    kind = kind' :=
  (Prod.mk.inj (List.inj_on_of_nodup_map (h.nodup_created hround) hx hx' rfl)).2

theorem Kept.consistent (h : c.Kept) (hnumbered : c.Numbered) (hround : c.store.OneRound) :
    c.Consistent where
  nodup_created := hnumbered.nodup_created hround
  mem_childIds_iff _ _ := h.linked.mem_childIds_iff
  nodup_childIds := h.linked.nodup_childIds
  parent_live := h.linked.parent_live
  child_live := h.linked.child_live
  party_live := h.linked.party_live
  party_nodup := h.linked.party_nodup
  latest_live := h.linked.latest_live
  latest_eq := h.latest_eq
  latest_kind := by
    intro kind x hx
    obtain ⟨kind', hkind⟩ := Option.isSome_iff_exists.1
      ((Store.contains_eq_kind? c.store x).symm.trans (h.linked.latest_live hx))
    rw [h.latest_eq] at hx
    have hcreated := mem_of_lastOf? (Option.filter_eq_some_iff.1 hx).1
    rw [hkind, hnumbered.kind_unique hround hcreated (h.mem_created hkind)]

/-- **In every history the links of the store are consistent**, as long as no
more objects were created than there are numbers. -/
theorem consistent_ofDeeds (deeds : List Deed)
    (hround : (ofDeeds deeds).created.length ≤ UInt64.size) : (ofDeeds deeds).Consistent := by
  have hnumbered := numbered_ofDeeds deeds
  rw [hnumbered.length_created] at hround
  exact (kept_ofDeeds deeds hround).consistent hnumbered hround

/-- A box with a lid is given to an actor of the party, and lost. -/
def loss : List Deed :=
  [.create .item "box", .createChild ⟨1⟩ .item "lid", .create .actor "ann", .attach ⟨3⟩ ⟨1⟩,
    .joinParty ⟨3⟩, .remove ⟨1⟩]

theorem consistent_loss :
    (ofDeeds loss).created.length ≤ UInt64.size ∧ (ofDeeds loss).Consistent :=
  ⟨by decide +kernel, consistent_ofDeeds loss (by decide +kernel)⟩

theorem created_replicate (kind : ObjectKind) (dataId : String) (n : Nat) :
    (ofDeeds (List.replicate n (.create kind dataId))).store.created = n := by
  induction n with
  | zero => rfl
  | succ n ih =>
    rw [List.replicate_succ', ofDeeds_concat]
    exact congrArg (· + 1) ih

/-- With one object more than there are numbers, the first and the last have
the same. -/
theorem not_consistent_replicate :
    ¬ (ofDeeds (List.replicate (UInt64.size + 1) (.create .item "box"))).Consistent := by
  intro h
  have hnumbered := numbered_ofDeeds (List.replicate (UInt64.size + 1) (.create .item "box"))
  have hnodup := h.nodup_created
  rw [hnumbered.numbers, created_replicate] at hnodup
  have heq := List.inj_on_of_nodup_map hnodup (List.mem_range.2 (Nat.succ_pos _))
    (List.mem_range.2 (Nat.lt_succ_self _)) (by decide : ObjectId.ofCount 1 = .ofCount _)
  exact absurd heq (by decide)

end

end Chronicle

end Cutscene
