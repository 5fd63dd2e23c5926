import Cutscene.Proofs.Scene.Ancestry
import Cutscene.Proofs.Scene.Sound
/-!
# Scenes — subtrees

The subtree of an object is what its children links lead to, itself included
(`Store.Reaches`). A removal takes exactly the subtree, each object of it once
and the object itself first, and of what is left only the former parent is
another than before: it has lost the object from its list (`Store.Cuts`).

Destroying an object in the world drops the variables of what is removed as
well. They are kept by instance key, which tells objects apart whatever stands
in their data, so no other object's variables go with them
(`Chronicle.cuts_ofDeeds`).
-/

namespace Cutscene

open Relation

/-- The object with another one taken off its list. -/
def GameObject.without (o : GameObject) (x : ObjectId) : GameObject :=
  { o with children := o.children.filter (· != x) }

namespace Store

/-- The first object lists the second one as a child. -/
def Lists (s : Store) (p x : ObjectId) : Prop := x ∈ s.childIds p

/-- Children links, none or more, lead from the first object to the second. -/
def Reaches (s : Store) (x k : ObjectId) : Prop := ReflTransGen s.Lists x k

/-- What the removal of an object takes out of a store, and what it leaves. -/
structure Cuts (s : Store) (x : ObjectId) (removed : List GameObject) (s' : Store) : Prop where
  /-- Nothing is taken twice. -/
  nodup : (removed.map (·.id)).Nodup
  /-- What is taken is what there is of the subtree of the object. -/
  mem_iff : ∀ k, k ∈ removed.map (·.id) ↔ s.contains k ∧ s.Reaches x k
  head : s.contains x → (removed.map (·.id)).head? = some x
  /-- An object is taken as it was, the former parent without the object. -/
  taken : ∀ o ∈ removed, ∃ old, s.get? o.id = some old ∧
    o = if s.parent? x = some o.id then old.without x else old
  get?_eq : ∀ k, s'.get? k = if k ∈ removed.map (·.id) then none else
    (s.get? k).map fun o => if s.parent? x = some k then o.without x else o
  party_eq : s'.party = s.party.filter (· ∉ removed.map (·.id))
  latest_eq : ∀ kind, s'.latest.get? kind =
    (s.latest.get? kind).filter (· ∉ removed.map (·.id))
  created_eq : s'.created = s.created

section

variable {s s' : Store} {x k : ObjectId} {removed : List GameObject}

theorem get?_detach (s : Store) (x k : ObjectId) : (s.detach x).get? k =
    (s.get? k).map fun o => if s.parent? x = some k then o.without x else o := by
  cases hp : s.parent? x with
  | none =>
    have hdetach : s.detach x = s := by
      rw [detach, show (s.get? x).bind (·.parent) = none from hp]
    simp [hdetach]
  | some p =>
    have hdetach : s.detach x = s.modify p (·.without x) := by
      rw [detach, show (s.get? x).bind (·.parent) = some p from hp]
      rfl
    rw [hdetach, get?_modify]
    by_cases hk : k = p
    · simp [hk]
    · simp [hk, Ne.symm hk]

/-- In a table under its own numbers nothing is taken twice: what is taken
later was not erased before. -/
theorem nodup_taken {objects : Table ObjectId GameObject} {stack : List ObjectId}
    (hkeyed : ∀ k o, objects.get? k = some o → o.id = k) :
    ((takeOut objects stack).2.map (·.id)).Nodup := by
  induction objects, stack using takeOut.induct with
  | case1 objects => simp [takeOut]
  | case2 objects id stack hget ih =>
    rw [takeOut_none hget]
    exact ih hkeyed
  | case3 objects id stack o hget left taken htaken ih =>
    have herased : ∀ k o', (objects.erase id).get? k = some o' → k ≠ id ∧ o'.id = k := by
      intro k o' ho'
      by_cases hk : k = id
      · rw [hk, Table.get?_erase_self] at ho'
        simp at ho'
      · rw [Table.get?_erase_of_ne _ hk] at ho'
        exact ⟨hk, hkeyed k o' ho'⟩
    rw [takeOut_some hget, List.map_cons, List.nodup_cons]
    refine ⟨fun hmem => ?_, ih fun k o' ho' => (herased k o' ho').2⟩
    obtain ⟨o', ho', hid⟩ := List.mem_map.1 hmem
    obtain ⟨k, hk, -⟩ := gone_of_mem_taken ho'
    obtain ⟨hne, hk'⟩ := herased k o' hk
    rw [hkeyed id o hget, hk'] at hid
    exact hne hid

theorem removed_eq (hx : s.contains x) :
    (s.remove x).1 = (takeOut (s.detach x).objects [x]).2 := by
  rw [remove, if_pos hx]

/-- What is reported as removed was there and is not left. -/
theorem Keyed.mem_removed (h : s.Keyed) (hx : s.contains x) {o : GameObject} :
    o ∈ (s.remove x).1 ↔
      (s.detach x).get? o.id = some o ∧ ¬ (s.remove x).2.contains o.id := by
  have hkeyed := (loses_detach h x).keyed
  have hgone : ¬ (s.remove x).2.contains o.id ↔
      (takeOut (s.detach x).objects [x]).1.get? o.id = none := by
    rw [not_contains_iff, get?, objects_remove hx]
  rw [removed_eq hx, hgone]
  constructor
  · intro ho
    obtain ⟨k, hk, hgone⟩ := gone_of_mem_taken ho
    obtain rfl := hkeyed k o hk
    exact ⟨hk, hgone⟩
  · rintro ⟨ho, hgone⟩
    exact mem_taken hgone ho

/-- The numbers reported are those of what was there and is not left. -/
theorem Keyed.mem_removed_ids (h : s.Keyed) (hx : s.contains x) :
    k ∈ (s.remove x).1.map (·.id) ↔ s.contains k ∧ ¬ (s.remove x).2.contains k := by
  rw [List.mem_map]
  constructor
  · rintro ⟨o, ho, rfl⟩
    obtain ⟨hthere, hgone⟩ := (h.mem_removed hx).1 ho
    rw [← contains_detach s x]
    exact ⟨contains_iff.2 ⟨o, hthere⟩, hgone⟩
  · rintro ⟨hthere, hgone⟩
    rw [← contains_detach s x] at hthere
    obtain ⟨o, ho⟩ := contains_iff.1 hthere
    obtain rfl := (loses_detach h x).keyed k o ho
    exact ⟨o, (h.mem_removed hx).2 ⟨ho, hgone⟩, rfl⟩

/-- What is there after a removal is there as when the object was detached. -/
theorem Keyed.get?_removed (h : s.Keyed) (hx : s.contains x) (k : ObjectId) :
    (s.remove x).2.get? k =
      if k ∈ (s.remove x).1.map (·.id) then none else (s.detach x).get? k := by
  by_cases hk : (s.remove x).2.contains k
  · have hmem : k ∉ (s.remove x).1.map (·.id) := fun hmem =>
      ((h.mem_removed_ids hx).1 hmem).2 hk
    rw [if_neg hmem, get?_remove hx hk]
  · rw [not_contains_iff.1 hk]
    split
    · rfl
    -- what is not left and was not taken was not there
    · rename_i hmem
      cases ho : (s.detach x).get? k with
      | none => rfl
      | some o =>
        have hthere : s.contains k := by
          rw [← contains_detach s x]
          exact contains_iff.2 ⟨o, ho⟩
        exact absurd ((h.mem_removed_ids hx).2 ⟨hthere, hk⟩) hmem

/-- What an object lists when another one is detached, it listed before. -/
theorem lists_of_detach {p y : ObjectId} (h : (s.detach x).Lists p y) : s.Lists p y := by
  rw [Lists, childIds, get?_detach] at h
  rw [Lists, childIds]
  cases ho : s.get? p with
  | none => simp [ho] at h
  | some o =>
    simp only [ho, Option.map_some, Option.getD_some] at h ⊢
    split at h
    · exact (List.mem_filter.1 h).1
    · exact h

/-- The children that an object taken out listed are not left, the object
itself among them. -/
theorem not_contains_of_lists {p y : ObjectId} (hx : s.contains x)
    (hp : ¬ (s.remove x).2.contains p) (hy : s.Lists p y) : ¬ (s.remove x).2.contains y := by
  have hself : ¬ (s.remove x).2.contains x := by
    rw [not_contains_iff, get?, objects_remove hx]
    exact gone_of_mem_stack (List.mem_singleton_self x)
  by_cases hne : y = x
  · exact hne ▸ hself
  rw [not_contains_iff, get?, objects_remove hx] at hp ⊢
  obtain ⟨o, ho⟩ := contains_iff.1 (contains_of_mem_childIds hy)
  have hdetached : (s.detach x).objects.get? p =
      some (if s.parent? x = some p then o.without x else o) := by
    rw [show (s.detach x).objects.get? p = (s.detach x).get? p from rfl, get?_detach, ho]
    rfl
  have hchild : y ∈ o.children := by rwa [Lists, childIds, ho] at hy
  refine gone_of_child hdetached hp ?_
  split
  · exact List.mem_filter.2 ⟨hchild, bne_iff_ne.2 hne⟩
  · exact hchild

/-- **What a removal takes is what there is of the subtree.** -/
theorem contains_remove_iff_reaches (hx : s.contains x) (hk : s.contains k) :
    ¬ (s.remove x).2.contains k ↔ s.Reaches x k := by
  constructor
  · intro hgone
    rw [not_contains_iff, get?, objects_remove hx] at hgone
    rw [← contains_detach s x] at hk
    obtain ⟨x', hx', hpath⟩ := reaches_of_gone hk hgone
    obtain rfl := List.mem_singleton.1 hx'
    refine reflTransGen_swap.1 (ReflTransGen.mono ?_ _ _ hpath)
    rintro c p ⟨o, ho, hc⟩
    refine lists_of_detach (x := x') ?_
    rw [Lists, childIds, show (s.detach x').get? p = some o from ho]
    exact hc
  · intro hreaches
    induction hreaches with
    | refl =>
      rw [not_contains_iff, get?, objects_remove hx]
      exact gone_of_mem_stack (List.mem_singleton_self x)
    | tail _ hlist ih =>
      exact not_contains_of_lists hx (ih (contains_of_mem_childIds hlist)) hlist

/-- An object that is not there is removed from nowhere. -/
theorem cuts_refused (hx : ¬ s.contains x) : s.Cuts x (s.remove x).1 (s.remove x).2 := by
  have hremove : s.remove x = ([], s) := by rw [remove, if_neg hx]
  have hparent : s.parent? x = none := by rw [parent?, not_contains_iff.1 hx]; rfl
  rw [hremove]
  refine ⟨List.nodup_nil, fun k => iff_of_false (by simp) fun hcut => ?_,
    fun h => absurd h hx, fun o ho => ?_, fun k => ?_, ?_, fun kind => ?_, rfl⟩
  -- what is not there lists nothing
  · obtain ⟨hk, hreaches⟩ := hcut
    rcases ReflTransGen.cases_head hreaches with rfl | ⟨y, hlist, -⟩
    · exact hx hk
    · exact hx (contains_of_mem_childIds hlist)
  · simp at ho
  · simp [hparent]
  · simp
  · cases s.latest.get? kind <;> rfl

/-- **A removal takes the subtree of the object**, and nothing else. -/
theorem Keyed.cuts (h : s.Keyed) (x : ObjectId) : s.Cuts x (s.remove x).1 (s.remove x).2 := by
  by_cases hx : s.contains x
  case neg => exact cuts_refused hx
  have hkeyed := (loses_detach h x).keyed
  have hgone : ∀ k, (!(takeOut (s.detach x).objects [x]).2.any (·.id == k)) =
      decide (k ∉ (s.remove x).1.map (·.id)) := by
    intro k
    rw [removed_eq hx, Bool.eq_iff_iff]
    simp only [Bool.not_eq_true', List.any_eq_false, beq_iff_eq, decide_eq_true_eq, List.mem_map,
      not_exists, not_and]
  refine ⟨?_, fun k => ?_, fun _ => ?_, fun o ho => ?_, fun k => ?_, ?_, fun kind => ?_,
    created_remove s x⟩
  · rw [removed_eq hx]
    exact nodup_taken hkeyed
  · rw [h.mem_removed_ids hx]
    exact and_congr_right fun hk => contains_remove_iff_reaches hx hk
  · obtain ⟨o, ho⟩ := contains_iff.1 ((contains_detach s x x).trans hx)
    have hid := hkeyed x o ho
    rw [removed_eq hx, takeOut_some ho]
    exact congrArg some hid
  · obtain ⟨hthere, -⟩ := (h.mem_removed hx).1 ho
    rw [get?_detach, Option.map_eq_some_iff] at hthere
    obtain ⟨old, hold, heq⟩ := hthere
    exact ⟨old, hold, heq.symm⟩
  · rw [h.get?_removed hx, get?_detach]
  · have hparty : (s.remove x).2.party =
        s.party.filter fun y => !(takeOut (s.detach x).objects [x]).2.any (·.id == y) := by
      rw [remove, if_pos hx]
    rw [hparty]
    exact congrArg (s.party.filter ·) (funext hgone)
  · have hlatest : (s.remove x).2.latest =
        s.latest.filter fun _ y => !(takeOut (s.detach x).objects [x]).2.any (·.id == y) := by
      rw [remove, if_pos hx]
    rw [hlatest, Table.get?_filter]
    exact congrArg (Option.filter · _) (funext hgone)

/-- Nothing of what is removed is left in the store, the party or among the
latest objects. -/
theorem Cuts.gone (h : s.Cuts x removed s') {o : GameObject} (ho : o ∈ removed) :
    ¬ s'.contains o.id ∧ o.id ∉ s'.party ∧ ∀ kind, s'.latest.get? kind ≠ some o.id := by
  have hmem : o.id ∈ removed.map (·.id) := List.mem_map_of_mem ho
  refine ⟨?_, ?_, fun kind hlatest => ?_⟩
  · rw [not_contains_iff, h.get?_eq, if_pos hmem]
  · rw [h.party_eq, List.mem_filter]
    simp only [decide_eq_true_eq]
    exact fun hleft => hleft.2 hmem
  · rw [h.latest_eq, Option.filter_eq_some_iff] at hlatest
    exact of_decide_eq_true hlatest.2 hmem

/-- What is not left was taken, with the instance key that it had. -/
theorem Cuts.exists_taken (h : s.Cuts x removed s') {o : GameObject} (ho : s.get? k = some o)
    (hgone : ¬ s'.contains k) : ∃ taken ∈ removed, taken.instanceKey = o.instanceKey := by
  have hmem : k ∈ removed.map (·.id) := by
    refine Classical.byContradiction fun hnot => hgone ?_
    rw [contains_eq_kind?, kind?, h.get?_eq, if_neg hnot, ho]
    rfl
  obtain ⟨taken, htaken, rfl⟩ := List.mem_map.1 hmem
  obtain ⟨old, hold, heq⟩ := h.taken taken htaken
  obtain rfl := Option.some.inj (ho.symm.trans hold)
  refine ⟨taken, htaken, ?_⟩
  rw [heq]
  split <;> rfl

end

end Store

/-! ## The variables of what is removed -/

namespace World

theorem get?_eraseAll (removed : List GameObject) (vars : Table String Attributes) (key : String) :
    (removed.foldl (fun vars o => vars.erase o.instanceKey) vars).get? key =
      if ∃ o ∈ removed, o.instanceKey = key then none else vars.get? key := by
  induction removed generalizing vars with
  | nil => simp
  | cons o removed ih =>
    rw [List.foldl_cons, ih]
    by_cases hkey : key = o.instanceKey
    · simp [hkey]
    · rw [Table.get?_erase_of_ne _ hkey]
      simp [Ne.symm hkey]

theorem selfVars_destroyObject (w : World) (x : ObjectId) (key : String) :
    (w.destroyObject x).2.selfVars.get? key =
      if ∃ o ∈ (w.objects.remove x).1, o.instanceKey = key then none else w.selfVars.get? key :=
  get?_eraseAll _ _ _

end World

namespace Chronicle

/-- **In every history a removal takes exactly the subtree of the object**:
each object of it once and the object first, none of it is left anywhere, and
all else stays as it was but for the list of the former parent. Destroying the
object in a world drops the variables of what is removed, and no others. -/
theorem cuts_ofDeeds (deeds : List Deed) (x : ObjectId) :
    let s := (ofDeeds deeds).store
    s.Cuts x (s.remove x).1 (s.remove x).2 ∧
    (¬ s.contains x → s.remove x = ([], s)) ∧
    (∀ o ∈ (s.remove x).1, ¬ (s.remove x).2.contains o.id ∧ o.id ∉ (s.remove x).2.party ∧
      ∀ kind, (s.remove x).2.latest.get? kind ≠ some o.id) ∧
    ∀ w : World, w.objects = s →
      (w.destroyObject x).1 = (s.remove x).1.map (·.id) ∧
      (w.destroyObject x).2.objects = (s.remove x).2 ∧
      (∀ o ∈ (s.remove x).1, (w.destroyObject x).2.selfVars.get? o.instanceKey = none) ∧
      (∀ key, (∀ o ∈ (s.remove x).1, o.instanceKey ≠ key) →
        (w.destroyObject x).2.selfVars.get? key = w.selfVars.get? key) ∧
      ∀ o : GameObject, o.id ∉ (s.remove x).1.map (·.id) →
        (w.destroyObject x).2.selfVars.get? o.instanceKey = w.selfVars.get? o.instanceKey := by
  intro s
  have hcuts : s.Cuts x (s.remove x).1 (s.remove x).2 := (numbered_ofDeeds deeds).keyed.cuts x
  refine ⟨hcuts, fun hx => by rw [Store.remove, if_neg hx], fun o ho => hcuts.gone ho, ?_⟩
  rintro w hw
  have hvars := w.selfVars_destroyObject x
  rw [hw] at hvars
  have hothers : ∀ key, (∀ o ∈ (s.remove x).1, o.instanceKey ≠ key) →
      (w.destroyObject x).2.selfVars.get? key = w.selfVars.get? key := by
    intro key hkey
    rw [hvars, if_neg]
    rintro ⟨o, ho, heq⟩
    exact hkey o ho heq
  refine ⟨?_, ?_, fun o ho => ?_, hothers, fun o hid => hothers _ fun o' ho' heq => hid ?_⟩
  · rw [World.destroyObject, hw]
  · rw [World.destroyObject, hw]
  · rw [hvars, if_pos ⟨o, ho, rfl⟩]
  · rw [← (GameObject.instanceKey_inj heq).2]
    exact List.mem_map_of_mem ho'

end Chronicle

end Cutscene
