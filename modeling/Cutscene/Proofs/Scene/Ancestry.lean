import Mathlib.Logic.Relation
import Cutscene.Proofs.Scene.Chronicle
/-!
# Scenes — ancestry

What is above an object is what its parent links lead to (`Store.Above`). A
scene is a forest while no object is above itself (`Store.IsForest`).

Creating and removing keep a forest: a new object has nothing below it, and
what is left after a removal keeps the parents that it had. Attaching keeps one
exactly when the new parent is not below the object (`Attached.isForest_iff`).
`Store.attach?` refuses the object itself as a parent, and no longer ring than
that, so while numbers are new a history stays a forest up to its first such
attachment (`Chronicle.isForest_ofDeeds`) and no further
(`Chronicle.not_isForest_ring`).
In a ring an object is removed with its own ancestors: a removal takes exactly
what the object is above (`Linked.contains_remove_iff`).
-/

namespace Cutscene

open Relation

namespace Store

/-- The object is a child of the other one, by the parent that it names. -/
def ChildOf (s : Store) (x p : ObjectId) : Prop := s.parent? x = some p

/-- Parent links, one or more, lead up from the second object to the first. -/
def Above (s : Store) (p x : ObjectId) : Prop := TransGen s.ChildOf x p

/-- No object is its own ancestor. -/
def IsForest (s : Store) : Prop := ∀ x, ¬ s.Above x x

section

variable {s s' : Store} {p x y z k : ObjectId}

theorem not_above_of_root (hx : s.parent? x = none) : ¬ s.Above p x := by
  intro h
  obtain ⟨q, hq, -⟩ := TransGen.head'_iff.1 h
  rw [ChildOf, hx] at hq
  simp at hq

/-- A store with fewer links is still a forest. -/
theorem IsForest.of_links (h : s.IsForest)
    (hlinks : ∀ {x p}, s'.parent? x = some p → s.parent? x = some p) : s'.IsForest :=
  fun x hx => h x (TransGen.mono (fun _ _ => hlinks) _ _ hx)

theorem isForest_empty : empty.IsForest := fun _ => not_above_of_root rfl

/-- A new object names no parent, whatever there was under its number. -/
theorem IsForest.create (h : s.IsForest) (kind : ObjectKind) (dataId : String) :
    (s.create kind dataId).2.IsForest := by
  refine h.of_links fun {x p} hp => ?_
  rw [parent?, get?_create] at hp
  split at hp
  · simp at hp
  · exact hp

theorem IsForest.joinParty (h : s.IsForest) (actor : ObjectId) : (s.joinParty actor).IsForest := by
  unfold Store.joinParty
  split
  · exact h.of_links fun hp => hp
  · exact h

theorem IsForest.remove (h : s.IsForest) (hs : s.Linked) (x : ObjectId) :
    (s.remove x).2.IsForest := by
  by_cases hx : s.contains x
  · exact h.of_links fun hp => ((hs.pruned hx).parent?_eq (contains_of_parent? hp)).symm.trans hp
  · rw [Store.remove, if_neg hx]
    exact h

/-! ## Attaching

The links of the object itself change and no others, so a path of the new
links is a path of the old ones up to the object, and one from the new parent
on. -/

namespace Attached

theorem childOf_self (h : s.Attached s' p x) : s'.ChildOf x p := by
  rw [ChildOf, h.parent?_eq, if_pos rfl]

theorem childOf_iff (h : s.Attached s' p x) (hy : y ≠ x) : s'.ChildOf y z ↔ s.ChildOf y z := by
  rw [ChildOf, h.parent?_eq, if_neg hy, ChildOf]

/-- What was below the object still is, or it is the object: the path is cut
where it first comes to the object. -/
theorem reaches_of_above (h : s.Attached s' p x) (hy : s.Above x y) :
    ReflTransGen s'.ChildOf y x := by
  induction hy using TransGen.head_induction_on with
  | @single y hlink =>
    by_cases hne : y = x
    · rw [hne]
    · exact .single ((h.childOf_iff hne).2 hlink)
  | @head y z hlink _ ih =>
    by_cases hne : y = x
    · rw [hne]
    · exact .head ((h.childOf_iff hne).2 hlink) ih

/-- Every path of the new links is one of the old links, or passes from the
object to its new parent. -/
theorem reaches_of_above' (h : s.Attached s' p x) (hz : s'.Above z y) :
    s.Above z y ∨ ReflTransGen s.ChildOf y x ∧ ReflTransGen s.ChildOf p z := by
  induction hz with
  | @single z hlink =>
    by_cases hne : y = x
    · subst hne
      obtain rfl : p = z := Option.some.inj (h.childOf_self.symm.trans hlink)
      exact .inr ⟨.refl, .refl⟩
    · exact .inl (.single ((h.childOf_iff hne).1 hlink))
  | @tail w z _ hlink ih =>
    by_cases hne : w = x
    · subst hne
      obtain rfl : p = z := Option.some.inj (h.childOf_self.symm.trans hlink)
      exact .inr ⟨ih.elim TransGen.to_reflTransGen (·.1), .refl⟩
    · have hold := (h.childOf_iff hne).1 hlink
      exact ih.imp (·.tail hold) fun ⟨hy, hw⟩ => ⟨hy, hw.tail hold⟩

/-- **An attachment closes a ring exactly when the new parent is below the
object.** -/
theorem isForest_iff (h : s.Attached s' p x) (hne : p ≠ x) (hs : s.IsForest) :
    s'.IsForest ↔ ¬ s.Above x p := by
  refine ⟨fun hs' habove => ?_, fun hnot y hy => ?_⟩
  · exact hs' x (TransGen.head' h.childOf_self (h.reaches_of_above habove))
  · rcases h.reaches_of_above' hy with hold | ⟨hyx, hpy⟩
    · exact hs y hold
    · rcases reflTransGen_iff_eq_or_transGen.1 (hpy.trans hyx) with heq | habove
      · exact hne heq.symm
      · exact hnot habove

end Attached

theorem ne_of_attach? (h : s.attach? p x = some s') : p ≠ x := by
  rintro rfl
  simp [attach?] at h

/-- An attachment that is refused closes no ring. -/
theorem Linked.not_above_of_attach? (hs : s.Linked) (hforest : s.IsForest)
    (h : s.attach? p x = none) : ¬ s.Above x p := by
  intro habove
  have hne : p ≠ x := by
    rintro rfl
    exact hforest p habove
  obtain ⟨q, hq, -⟩ := TransGen.head'_iff.1 habove
  obtain ⟨q', -, hq'⟩ := TransGen.tail'_iff.1 habove
  have hp : s.contains p := contains_of_parent? hq
  have hx : s.contains x := hs.parent_live hq'
  simp [attach?, hne, hp, hx] at h

/-- A child that is created has nothing below it, unless it took the place of
an object that had. -/
theorem IsForest.createChild {kind : ObjectKind} {dataId : String} (h : s.IsForest)
    (hs : s.Linked) (hchild : s.createChild? p kind dataId = some (x, s'))
    (hround : (s.create kind dataId).2.OneRound) : s'.IsForest := by
  obtain ⟨rfl, hattach⟩ := hs.attach?_of_createChild? hchild hround
  have hattached := (hs.create hround).attached hattach
  refine (hattached.isForest_iff (ne_of_attach? hattach) (h.create kind dataId)).2
    fun habove => ?_
  -- what names the new object as its parent would have named it before
  obtain ⟨q, -, hq⟩ := TransGen.tail'_iff.1 habove
  rw [ChildOf, hs.parent?_create hround] at hq
  obtain ⟨o, ho⟩ := contains_iff.1 (hs.parent_live hq)
  rw [hs.get?_new hround] at ho
  simp at ho

/-! ## Removing -/

/-- What is taken out is listed, link by link, below what lies on the
stack. -/
theorem reaches_of_gone {objects : Table ObjectId GameObject} {stack : List ObjectId}
    (hk : (objects.get? k).isSome) (hgone : (takeOut objects stack).1.get? k = none) :
    ∃ x ∈ stack,
      ReflTransGen (fun c p => ∃ o, objects.get? p = some o ∧ c ∈ o.children) k x := by
  induction objects, stack using takeOut.induct with
  | case1 objects =>
    rw [takeOut] at hgone
    rw [hgone] at hk
    simp at hk
  | case2 objects id stack hget ih =>
    rw [takeOut_none hget] at hgone
    obtain ⟨x, hx, hpath⟩ := ih hk hgone
    exact ⟨x, List.mem_cons_of_mem _ hx, hpath⟩
  | case3 objects id stack o hget left taken htaken ih =>
    rw [takeOut_some hget] at hgone
    by_cases hid : k = id
    · exact ⟨id, List.mem_cons_self, hid ▸ .refl⟩
    rw [← Table.get?_erase_of_ne _ hid] at hk
    obtain ⟨x, hx, hpath⟩ := ih hk hgone
    -- what is listed without the object taken is listed with it
    have hlisted : ∀ c p, (∃ o, (objects.erase id).get? p = some o ∧ c ∈ o.children) →
        ∃ o, objects.get? p = some o ∧ c ∈ o.children := by
      rintro c p ⟨o', ho', hc⟩
      refine ⟨o', ?_, hc⟩
      by_cases hp : p = id
      · rw [hp, Table.get?_erase_self] at ho'
        simp at ho'
      · rwa [Table.get?_erase_of_ne _ hp] at ho'
    have hpath := ReflTransGen.mono hlisted _ _ hpath
    rcases List.mem_append.1 hx with hx | hx
    · exact ⟨id, List.mem_cons_self, hpath.tail ⟨o, hget, List.mem_reverse.1 hx⟩⟩
    · exact ⟨x, List.mem_cons_of_mem _ hx, hpath⟩

/-- What an object is above goes with it. -/
theorem Pruned.not_contains_of_above (h : s.Pruned s' x) (hk : s.Above x k) :
    ¬ s'.contains k := by
  induction hk using TransGen.head_induction_on with
  | @single k hlink =>
    by_cases hne : k = x
    · exact hne ▸ h.not_contains
    · exact fun hk => h.not_contains ((h.contains_iff hlink hne).1 hk)
  | @head k p hlink _ ih =>
    by_cases hne : k = x
    · exact hne ▸ h.not_contains
    · exact fun hk => ih ((h.contains_iff hlink hne).1 hk)

/-- **A removal takes the object and what it is above**, and nothing else. -/
theorem Linked.contains_remove_iff (h : s.Linked) (hx : s.contains x) (hk : s.contains k) :
    (s.remove x).2.contains k ↔ k ≠ x ∧ ¬ s.Above x k := by
  have hpruned := h.pruned hx
  refine ⟨fun hleft => ⟨?_, fun habove => hpruned.not_contains_of_above habove hleft⟩,
    fun ⟨hne, hnot⟩ => Decidable.byContradiction fun hgone => ?_⟩
  · rintro rfl
    exact hpruned.not_contains hleft
  · have hdetached := h.detached x
    rw [not_contains_iff, get?, objects_remove hx] at hgone
    rw [← hdetached.contains_eq] at hk
    obtain ⟨x', hx', hpath⟩ := reaches_of_gone hk hgone
    obtain rfl := List.mem_singleton.1 hx'
    -- a child that is listed names its parent
    have hlink : ∀ c p, (∃ o, (s.detach x').objects.get? p = some o ∧ c ∈ o.children) →
        s.ChildOf c p := by
      rintro c p ⟨o, ho, hc⟩
      have hlisted : c ∈ (s.detach x').childIds p := by
        rw [childIds, show (s.detach x').get? p = some o from ho]
        exact hc
      rw [hdetached.childIds_eq] at hlisted
      exact h.mem_childIds_iff.1 (List.mem_filter.1 hlisted).1
    rcases reflTransGen_iff_eq_or_transGen.1 (ReflTransGen.mono hlink _ _ hpath) with heq | habove
    · exact hne heq.symm
    · exact hnot habove

/-- An object is removed with one of its ancestors exactly when it is above
that one in turn. -/
theorem Linked.contains_remove_of_above (h : s.Linked) (hp : s.Above p x) :
    (s.remove x).2.contains p ↔ ¬ s.Above x p := by
  obtain ⟨q, hq, -⟩ := TransGen.head'_iff.1 hp
  obtain ⟨q', -, hq'⟩ := TransGen.tail'_iff.1 hp
  rw [h.contains_remove_iff (contains_of_parent? hq) (h.parent_live hq')]
  refine and_iff_right_of_imp ?_
  rintro hnot rfl
  exact hnot hp

end

end Store

/-! ## Histories -/

namespace Chronicle

/-- **A deed keeps a forest unless it attaches an object below itself.** -/
theorem Kept.isForest_after {c : Chronicle} (h : c.Kept) (hforest : c.store.IsForest)
    (deed : Deed) (hround : (c.after deed).store.OneRound) : (c.after deed).store.IsForest ↔
      ∀ p x, deed = .attach p x → ¬ c.store.Above x p := by
  cases deed with
  | create kind dataId => exact iff_of_true (hforest.create kind dataId) (by simp)
  | createChild parent kind dataId =>
    refine iff_of_true ?_ (by simp)
    rw [Chronicle.after] at hround ⊢
    split at hround
    · rename_i id store hchild
      refine hforest.createChild h.linked hchild (Store.OneRound.of_le hround ?_)
      exact Nat.le_of_eq (Store.created_createChild hchild).symm
    · exact hforest
  | attach parent child =>
    rw [Chronicle.after]
    cases hattach : c.store.attach? parent child with
    | none =>
      refine iff_of_true hforest fun p x hdeed => ?_
      obtain ⟨rfl, rfl⟩ := Deed.attach.inj hdeed
      exact h.linked.not_above_of_attach? hforest hattach
    | some store =>
      refine ((h.linked.attached hattach).isForest_iff (Store.ne_of_attach? hattach) hforest).trans
        ⟨fun hnot p x hdeed => ?_, fun hnot => hnot parent child rfl⟩
      obtain ⟨rfl, rfl⟩ := Deed.attach.inj hdeed
      exact hnot
  | joinParty actor => exact iff_of_true (hforest.joinParty actor) (by simp)
  | remove id => exact iff_of_true (hforest.remove h.linked id) (by simp)

/-- A scene is a forest all along a history exactly when no object was
attached below itself: induction on the history from its end, each deed by
`Kept.isForest_after`. -/
theorem forall_isForest_iff (deeds : List Deed) (hround : (ofDeeds deeds).store.OneRound) :
    (∀ before, before <+: deeds → (ofDeeds before).store.IsForest) ↔
      ∀ before p x, before ++ [.attach p x] <+: deeds → ¬ (ofDeeds before).store.Above x p := by
  induction deeds using List.reverseRecOn with
  | nil =>
    refine iff_of_true (fun before hbefore => ?_) fun before p x hbefore => ?_
    · rw [List.prefix_nil.1 hbefore]
      exact Store.isForest_empty
    · simp at hbefore
  | append_singleton deeds deed ih =>
    rw [ofDeeds_concat] at hround
    have hbefore := hround.of_le (created_le_after _ deed)
    have hkept := kept_ofDeeds deeds hbefore
    replace ih := ih hbefore
    simp only [List.prefix_concat_iff, or_imp, forall_and, forall_eq, ofDeeds_concat, ih]
    refine ⟨fun ⟨hlast, hnot⟩ => ⟨fun before p x heq => ?_, hnot⟩,
      fun ⟨hlast, hnot⟩ => ⟨?_, hnot⟩⟩
    · obtain ⟨rfl, hdeed⟩ := List.append_inj' heq rfl
      obtain rfl := List.singleton_inj.1 hdeed
      have hforest := ih.2 hnot before (List.prefix_refl before)
      exact (hkept.isForest_after hforest _ hround).1 hlast p x rfl
    · have hforest := ih.2 hnot deeds (List.prefix_refl deeds)
      refine (hkept.isForest_after hforest deed hround).2 ?_
      rintro p x rfl
      exact hlast deeds p x rfl

/-- **A scene stays a forest exactly as long as no object is attached below
itself**, and a removal takes an ancestor of the object exactly when the object
is an ancestor of it, which in a forest it never is. -/
theorem isForest_ofDeeds (deeds : List Deed)
    (hround : (ofDeeds deeds).created.length ≤ UInt64.size) :
    ((∀ before, before <+: deeds → (ofDeeds before).store.IsForest) ↔
      ∀ before p x, before ++ [.attach p x] <+: deeds → ¬ (ofDeeds before).store.Above x p) ∧
    ((ofDeeds deeds).store.IsForest → ∀ p x, (ofDeeds deeds).store.Above p x →
      ((ofDeeds deeds).store.remove x).2.contains p) ∧
    ∀ p x, (ofDeeds deeds).store.Above p x →
      (((ofDeeds deeds).store.remove x).2.contains p ↔ ¬ (ofDeeds deeds).store.Above x p) := by
  rw [(numbered_ofDeeds deeds).length_created] at hround
  have hremove : ∀ p x, (ofDeeds deeds).store.Above p x →
      (((ofDeeds deeds).store.remove x).2.contains p ↔ ¬ (ofDeeds deeds).store.Above x p) :=
    fun p x hp => (kept_ofDeeds deeds hround).linked.contains_remove_of_above hp
  refine ⟨forall_isForest_iff deeds hround, fun hforest p x hp => ?_, hremove⟩
  exact (hremove p x hp).2 fun hx => hforest x (TransGen.trans hp hx)

/-- Two objects, each attached to the other. -/
def ring : List Deed :=
  [.create .item "box", .create .item "lid", .attach ⟨1⟩ ⟨2⟩, .attach ⟨2⟩ ⟨1⟩]

theorem above_ring :
    (ofDeeds ring).store.Above ⟨1⟩ ⟨2⟩ ∧ (ofDeeds ring).store.Above ⟨2⟩ ⟨1⟩ := by
  have hlid : (ofDeeds ring).store.ChildOf ⟨2⟩ ⟨1⟩ :=
    show (ofDeeds ring).store.parent? ⟨2⟩ = some ⟨1⟩ by decide +kernel
  have hbox : (ofDeeds ring).store.ChildOf ⟨1⟩ ⟨2⟩ :=
    show (ofDeeds ring).store.parent? ⟨1⟩ = some ⟨2⟩ by decide +kernel
  exact ⟨.single hlid, .single hbox⟩

/-- In a ring an object is its own ancestor, and removed with its owner. -/
theorem not_isForest_ring :
    ¬ (ofDeeds ring).store.IsForest ∧ (ofDeeds ring).store.Above ⟨1⟩ ⟨2⟩ ∧
      ¬ ((ofDeeds ring).store.remove ⟨2⟩).2.contains ⟨1⟩ := by
  obtain ⟨hlid, hbox⟩ := above_ring
  refine ⟨fun hforest => hforest ⟨1⟩ (TransGen.trans hbox hlid), hlid, ?_⟩
  have hlinked := (kept_ofDeeds ring (by decide +kernel)).linked
  exact (hlinked.pruned (x := ⟨2⟩) (by decide +kernel)).not_contains_of_above hbox

/-- The ring is closed by its last attachment. -/
theorem isForest_ofDeeds_ring :
    (ofDeeds ring).created.length ≤ UInt64.size ∧
      (¬ ∀ before, before <+: ring → (ofDeeds before).store.IsForest) ∧
      ¬ ((ofDeeds ring).store.remove ⟨2⟩).2.contains ⟨1⟩ := by
  have hround : (ofDeeds ring).created.length ≤ UInt64.size := by decide +kernel
  obtain ⟨hlid, hbox⟩ := above_ring
  refine ⟨hround, fun hforest => ?_, ?_⟩
  · have hbelow : (ofDeeds (ring.take 3)).store.ChildOf ⟨2⟩ ⟨1⟩ :=
      show (ofDeeds (ring.take 3)).store.parent? ⟨2⟩ = some ⟨1⟩ by decide +kernel
    exact (isForest_ofDeeds ring hround).1.1 hforest (ring.take 3) ⟨2⟩ ⟨1⟩ (List.prefix_refl _)
      (.single hbelow)
  · rw [(isForest_ofDeeds ring hround).2.2 ⟨1⟩ ⟨2⟩ hlid, not_not]
    exact hbox

end Chronicle

end Cutscene
