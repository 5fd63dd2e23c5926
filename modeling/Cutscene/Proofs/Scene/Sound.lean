import Cutscene.Proofs.Program.Key
import Cutscene.Proofs.Run.Effect
import Cutscene.Proofs.Scene.Links
/-!
# Scenes — numbers that stand for one object

A store is sound when its objects stand under their own numbers, the latest
ones are there, and, while numbers are new, its links are consistent and the
latest object of a kind is of the kind (`Store.Sound`). Every operation on a
store keeps it sound, and until the numbers come round brings none of them back
(`Store.Becomes`): what is there under a number that had been handed out before
was there before, of the same kind and with the same data. So a number that is
kept anywhere, in a variable or in the circumstances of a context, stands for
one object, there or gone. Removal aside, nothing goes (`Store.Grows`).

The instance key of an object has its number behind the last `#`, whatever
stands in its data (`GameObject.instanceKey_inj`): so instance keys stand for
one object as long as numbers do (`Store.Becomes.instanceKey?_eq`).
-/

namespace Cutscene

namespace GameObject

/-- The change leaves what an object is and how it is linked. -/
def Relabels (change : GameObject → GameObject) : Prop :=
  ∀ o, (change o).id = o.id ∧ (change o).kind = o.kind ∧ (change o).dataId = o.dataId ∧
    (change o).parent = o.parent ∧ (change o).children = o.children

theorem relabels_attributes (change : Attributes → Attributes) :
    Relabels fun o => { o with attributes := change o.attributes } :=
  fun _ => ⟨rfl, rfl, rfl, rfl, rfl⟩

theorem relabels_label (key slot : Option String) : Relabels fun o => { o with key, slot } :=
  fun _ => ⟨rfl, rfl, rfl, rfl, rfl⟩

end GameObject

namespace Store

/-- The data of an object. -/
def dataId? (s : Store) (id : ObjectId) : Option String := (s.get? id).map (·.dataId)

/-- Objects stand under their own numbers, and the latest ones are there.
While numbers are new, the links are consistent and the latest object of a
kind is of the kind. -/
structure Sound (s : Store) : Prop where
  keyed : s.Keyed
  latest_live : ∀ {kind x}, s.latest.get? kind = some x → s.contains x
  linked : s.OneRound → s.Linked
  latest_kind : s.OneRound → ∀ {kind x}, s.latest.get? kind = some x → s.kind? x = some kind

/-- From the first store to the second no number is handed out twice, until
they come round. -/
structure Becomes (s s' : Store) : Prop where
  sound : s'.Sound
  created_le : s.created ≤ s'.created
  kind?_eq : s'.OneRound → ∀ {k}, s'.contains k → s.HandedOut k → s'.kind? k = s.kind? k
  dataId?_eq : s'.OneRound → ∀ {k}, s'.contains k → s.HandedOut k → s'.dataId? k = s.dataId? k

/-- From the first store to the second no number is handed out twice, until
they come round, and nothing is removed. -/
structure Grows (s s' : Store) : Prop extends s.Becomes s' where
  contains : ∀ {k}, s.contains k → s'.contains k

section

variable {s s' s'' : Store} {p x k : ObjectId}

theorem sound_empty : empty.Sound :=
  ⟨keyed_empty, fun h => by simp [empty] at h, fun _ => linked_empty,
    fun _ _ _ h => by simp [empty] at h⟩

namespace Becomes

theorem refl (h : s.Sound) : s.Becomes s :=
  ⟨h, Nat.le_refl _, fun _ _ _ _ => rfl, fun _ _ _ _ => rfl⟩

/-- An object that had its number before was there before. -/
theorem contains_of (h : s.Becomes s') (hround : s'.OneRound) (hk : s'.contains k)
    (hout : s.HandedOut k) : s.contains k :=
  (contains_eq_of_kind? (h.kind?_eq hround hk hout)).symm.trans hk

theorem trans (h : s.Becomes s') (h' : s'.Becomes s'') : s.Becomes s'' where
  sound := h'.sound
  created_le := Nat.le_trans h.created_le h'.created_le
  kind?_eq := by
    intro hround k hk hout
    have hround' := hround.of_le h'.created_le
    have hout' := hout.mono h.created_le
    rw [h'.kind?_eq hround hk hout',
      h.kind?_eq hround' (h'.contains_of hround hk hout') hout]
  dataId?_eq := by
    intro hround k hk hout
    have hround' := hround.of_le h'.created_le
    have hout' := hout.mono h.created_le
    rw [h'.dataId?_eq hround hk hout',
      h.dataId?_eq hround' (h'.contains_of hround hk hout') hout]

end Becomes

namespace Grows

theorem refl (h : s.Sound) : s.Grows s := ⟨.refl h, id⟩

theorem trans (h : s.Grows s') (h' : s'.Grows s'') : s.Grows s'' :=
  ⟨h.toBecomes.trans h'.toBecomes, fun hk => h'.contains (h.contains hk)⟩

end Grows

/-! ## What each operation keeps -/

/-- What does not depend on the links is the same when an object leaves its
parent. -/
theorem map_get?_detach {α : Type} {f : GameObject → α}
    (hf : ∀ o parent children, f { o with parent, children } = f o) :
    ((s.detach x).get? k).map f = (s.get? k).map f := by
  unfold detach
  split
  · exact map_get?_modify s _ k f fun o => hf o o.parent _
  · rfl

theorem map_get?_attach {α : Type} {f : GameObject → α}
    (hf : ∀ o parent children, f { o with parent, children } = f o)
    (hattach : s.attach? p x = some s') : (s'.get? k).map f = (s.get? k).map f := by
  unfold attach? at hattach
  split at hattach
  · simp at hattach
  obtain rfl := Option.some.inj hattach
  refine (map_get?_modify _ p k f fun o => hf o o.parent _).trans ?_
  exact (map_get?_modify _ x k f fun o => hf o _ o.children).trans (map_get?_detach hf)

theorem contains_detach (s : Store) (x k : ObjectId) : (s.detach x).contains k = s.contains k :=
  contains_eq_of_kind? (map_get?_detach fun _ _ _ => rfl)

theorem contains_attach (hattach : s.attach? p x = some s') (k : ObjectId) :
    s'.contains k = s.contains k :=
  contains_eq_of_kind? (map_get?_attach (fun _ _ _ => rfl) hattach)

theorem latest_detach (s : Store) (x : ObjectId) : (s.detach x).latest = s.latest := by
  unfold detach
  split
  · exact latest_modify _ _ _
  · rfl

theorem latest_attach (hattach : s.attach? p x = some s') : s'.latest = s.latest := by
  unfold attach? at hattach
  split at hattach
  · simp at hattach
  obtain rfl := Option.some.inj hattach
  rw [latest_modify, latest_modify, latest_detach]

theorem dataId?_remove (hk : (s.remove x).2.contains k) :
    (s.remove x).2.dataId? k = s.dataId? k := by
  by_cases hx : s.contains x
  · rw [dataId?, get?_remove hx hk]
    exact map_get?_detach fun _ _ _ => rfl
  · rw [remove, if_neg hx]

namespace Sound

/-- A latest object that a removal takes is the latest no longer. -/
theorem latest_remove (h : s.Sound) {kind : ObjectKind}
    (hk : (s.remove x).2.latest.get? kind = some k) : (s.remove x).2.contains k := by
  by_cases hx : s.contains x
  case neg =>
    rw [Store.remove, if_neg hx] at hk ⊢
    exact h.latest_live hk
  have hlatest : (s.remove x).2.latest =
      s.latest.filter fun _ y => !(takeOut (s.detach x).objects [x]).2.any (·.id == y) := by
    rw [Store.remove, if_pos hx]
  rw [hlatest, Table.get?_filter, Option.filter_eq_some_iff] at hk
  obtain ⟨hk, hleft⟩ := hk
  have hthere : (s.detach x).contains k := (contains_detach s x k).trans (h.latest_live hk)
  rwa [any_taken (loses_detach h.keyed x).keyed hthere, Bool.not_not, ← objects_remove hx] at hleft

/-- What creates nothing keeps the store sound, and brings nothing back. -/
theorem keeps (h : s.Sound) {ids : List ObjectId} (hloses : s.Loses s' ids)
    (hcreated : s'.created = s.created)
    (hlive : ∀ {kind x}, s'.latest.get? kind = some x → s'.contains x)
    (hs : s.Linked → s.Keeps s')
    (hdata : ∀ {k}, s'.contains k → s'.dataId? k = s.dataId? k) : s.Becomes s' := by
  have hkeeps : s'.OneRound → s.OneRound ∧ s.Keeps s' := fun hround =>
    have hbefore := hround.of_le (Nat.le_of_eq hcreated.symm)
    ⟨hbefore, hs (h.linked hbefore)⟩
  refine ⟨⟨hloses.keyed, hlive, fun hround => (hkeeps hround).2.linked, fun hround kind x hx => ?_⟩,
    Nat.le_of_eq hcreated.symm, fun hround _ hk _ => (hkeeps hround).2.kind?_eq hk,
    fun _ _ hk _ => hdata hk⟩
  obtain ⟨hbefore, hs⟩ := hkeeps hround
  rw [hs.latest_eq] at hx
  obtain ⟨hx, hlive⟩ := Option.filter_eq_some_iff.1 hx
  rw [hs.kind?_eq hlive]
  exact h.latest_kind hbefore hx

theorem create (h : s.Sound) (kind : ObjectKind) (dataId : String) :
    s.Grows (s.create kind dataId).2 := by
  have hloses := loses_create h.keyed kind dataId
  have hbefore : (s.create kind dataId).2.OneRound → s.OneRound := fun hround =>
    hround.of_le (Nat.le_succ _)
  -- an object that had its number before is none that is new
  have hold : (s.create kind dataId).2.OneRound → ∀ {k : ObjectId}, s.HandedOut k →
      (s.create kind dataId).2.get? k = s.get? k := by
    intro hround k hout
    rw [get?_create, if_neg]
    rintro rfl
    exact hround.not_handedOut hout
  have hlive : ∀ {k}, s.contains k → (s.create kind dataId).2.contains k := fun hk =>
    (contains_create s kind dataId).2 (.inr hk)
  refine ⟨⟨⟨hloses.keyed, fun {kind' x} hx => ?_,
    fun hround => (h.linked (hbefore hround)).create hround, fun hround kind' x hx => ?_⟩,
    Nat.le_succ _, fun hround _ _ hout => by rw [kind?, kind?, hold hround hout],
    fun hround _ _ hout => by rw [dataId?, dataId?, hold hround hout]⟩, hlive⟩
  · rw [latest_create] at hx
    split at hx
    · exact (contains_create s kind dataId).2 (.inl (Option.some.inj hx).symm)
    · exact hlive (h.latest_live hx)
  · rw [latest_create] at hx
    split at hx
    · rename_i hkind
      obtain rfl := Option.some.inj hx
      simp [kind?, get?_create, hkind]
    · have hout := (h.linked (hbefore hround)).handedOut (h.latest_live hx)
      rw [kind?, hold hround hout]
      exact h.latest_kind (hbefore hround) hx

theorem attach (h : s.Sound) (hattach : s.attach? p x = some s') : s.Grows s' := by
  have hcontains := contains_attach hattach
  refine ⟨h.keeps (loses_attach h.keyed hattach) (created_attach hattach) (fun {kind y} hy => ?_)
    (·.keeps_attach hattach) fun _ => map_get?_attach (fun _ _ _ => rfl) hattach,
    fun {k} hk => (hcontains k).trans hk⟩
  rw [latest_attach hattach] at hy
  exact (hcontains y).trans (h.latest_live hy)

theorem joinParty (h : s.Sound) (actor : ObjectId) : s.Grows (s.joinParty actor) := by
  have hobjects : (s.joinParty actor).objects = s.objects := by
    unfold Store.joinParty
    split <;> rfl
  have hlatest : (s.joinParty actor).latest = s.latest := by
    unfold Store.joinParty
    split <;> rfl
  have hlive : ∀ {k}, s.contains k → (s.joinParty actor).contains k := fun hk => by
    rwa [Store.contains, hobjects]
  refine ⟨h.keeps (loses_joinParty h.keyed actor) (created_joinParty s actor)
    (fun hx => hlive (h.latest_live (hlatest ▸ hx))) (·.keeps_joinParty actor) fun _ => ?_, hlive⟩
  rw [dataId?, dataId?, get?, get?, hobjects]

theorem remove (h : s.Sound) (x : ObjectId) : s.Becomes (s.remove x).2 :=
  h.keeps (loses_remove h.keyed x) (created_remove s x) h.latest_remove (·.keeps_remove x)
    dataId?_remove

theorem createChild (h : s.Sound) {kind : ObjectKind} {dataId : String}
    (hchild : s.createChild? p kind dataId = some (x, s')) : s.Grows s' := by
  obtain ⟨-, -, rfl⟩ := of_createChild? hchild
  have hcreate := h.create kind dataId
  cases hattach : (s.create kind dataId).2.attach? p s.nextId with
  | none => exact hcreate
  | some s'' => exact hcreate.trans (hcreate.sound.attach hattach)

theorem grow (h : s.Sound) (kind : ObjectKind) (dataId : String) (parent : Option ObjectId) :
    s.Grows (s.grow kind dataId parent) := by
  cases parent with
  | none => exact h.create kind dataId
  | some parent =>
    rw [Store.grow]
    cases hchild : s.createChild? parent kind dataId with
    | none => exact .refl h
    | some made => exact h.createChild hchild

end Sound

/-- Changing what an object says of itself keeps all links. -/
theorem Linked.keeps_relabel (h : s.Linked) {change : GameObject → GameObject}
    (hchange : GameObject.Relabels change) (x : ObjectId) : s.Keeps (s.modify x change) := by
  have hkind : ∀ k, (s.modify x change).kind? k = s.kind? k := fun _ =>
    kind?_modify change fun o => (hchange o).2.1
  have hcontains : ∀ k, (s.modify x change).contains k = s.contains k := fun k =>
    contains_eq_of_kind? (hkind k)
  have hparent : ∀ k, (s.modify x change).parent? k = s.parent? k := fun _ =>
    parent?_modify change fun o => (hchange o).2.2.2.1
  have hchildIds : ∀ k, (s.modify x change).childIds k = s.childIds k := fun _ =>
    childIds_modify_of change fun o => (hchange o).2.2.2.2
  refine ⟨⟨(loses_modify h.keyed fun o => (hchange o).1).keyed, ?_, ?_, ?_, ?_, ?_, ?_⟩,
    fun {k} _ => hkind k, fun kind => ?_⟩
  · intro p y
    rw [hchildIds, hparent]
    exact h.mem_childIds_iff
  · intro p
    rw [hchildIds]
    exact h.nodup_childIds p
  · intro y hy
    exact (h.handedOut ((hcontains y).symm.trans hy)).mono
      (Nat.le_of_eq (created_modify s x change).symm)
  · intro y hy
    rw [party_modify] at hy
    exact (hcontains y).trans (h.party_live y hy)
  · rw [party_modify]
    exact h.party_nodup
  · intro kind y hy
    rw [latest_modify] at hy
    exact (hcontains y).trans (h.latest_live hy)
  · rw [latest_modify, funext hcontains]
    exact h.latest_filter kind

theorem Sound.relabel (h : s.Sound) {change : GameObject → GameObject}
    (hchange : GameObject.Relabels change) (x : ObjectId) : s.Grows (s.modify x change) := by
  have hlive : ∀ {k}, s.contains k → (s.modify x change).contains k := fun {k} hk =>
    (contains_eq_of_kind? (kind?_modify change fun o => (hchange o).2.1)).trans hk
  refine ⟨h.keeps (loses_modify h.keyed fun o => (hchange o).1) (created_modify s x change)
    (fun hy => hlive (h.latest_live (latest_modify s x change ▸ hy)))
    (·.keeps_relabel hchange x)
    fun {k} _ => map_get?_modify s x k (·.dataId) fun o => (hchange o).2.2.1, hlive⟩

end

end Store

/-! ## Instance keys -/

/-- **An instance key tells the object's data and number**, also where the
data hold a `#` or digits. -/
theorem GameObject.instanceKey_inj {o o' : GameObject} (h : o.instanceKey = o'.instanceKey) :
    o.dataId = o'.dataId ∧ o.id = o'.id := by
  have hmark : ∀ n : Nat, '#' ∉ (toString n).toList := not_mem_toString (by decide)
  have hlist : ∀ o : GameObject, o.instanceKey.toList =
      o.dataId.toList ++ '#' :: (toString o.id.val).toList := by
    intro o
    simp [instanceKey, String.toList_append]
  have htexts : o.dataId.toList ++ '#' :: (toString o.id.val).toList =
      o'.dataId.toList ++ '#' :: (toString o'.id.val).toList := by
    rw [← hlist, ← hlist, h]
  obtain ⟨hdata, hid⟩ := append_cons_inj (hmark _) (hmark _) htexts
  exact ⟨String.toList_inj.1 hdata, congrArg ObjectId.mk (toString_injective hid)⟩

namespace Store

/-- The instance key of an object. -/
def instanceKey? (s : Store) (id : ObjectId) : Option String := (s.get? id).map (·.instanceKey)

section

variable {s s' : Store} {k k' : ObjectId} {key : String}

theorem Keyed.instanceKey?_eq (h : s.Keyed) (k : ObjectId) :
    s.instanceKey? k = (s.dataId? k).map (· ++ "#" ++ toString k.val) := by
  rw [instanceKey?, dataId?, Option.map_map]
  cases ho : s.get? k with
  | none => rfl
  | some o =>
    have hid := h k o ho
    simp only [Option.map_some, Function.comp_apply, GameObject.instanceKey, hid]

theorem contains_of_instanceKey? (h : s.instanceKey? k = some key) : s.contains k := by
  obtain ⟨o, ho, -⟩ := Option.map_eq_some_iff.1 h
  exact contains_iff.2 ⟨o, ho⟩

/-- What has its number from before has its instance key from before. -/
theorem Becomes.instanceKey?_eq (h : s.Becomes s') (hs : s.Keyed) (hround : s'.OneRound)
    (hk : s'.contains k) (hout : s.HandedOut k) : s'.instanceKey? k = s.instanceKey? k := by
  rw [h.sound.keyed.instanceKey?_eq, hs.instanceKey?_eq, h.dataId?_eq hround hk hout]

/-- **One instance key is of one number**, in one store or in two. -/
theorem Keyed.instanceKey?_inj (hs : s.Keyed) (hs' : s'.Keyed) (h : s.instanceKey? k = some key)
    (h' : s'.instanceKey? k' = some key) : k = k' := by
  obtain ⟨o, ho, rfl⟩ := Option.map_eq_some_iff.1 h
  obtain ⟨o', ho', hkey⟩ := Option.map_eq_some_iff.1 h'
  rw [← hs k o ho, ← hs' k' o' ho', (GameObject.instanceKey_inj hkey).2]

end

end Store

end Cutscene
