import Cutscene.Proofs.Run.Cell
import Cutscene.Proofs.Scheduler.Moment
import Cutscene.Proofs.Scheduler.Transparent
/-!
# Scheduler — variables of instances belong to one object

The variables of an instance are kept under the instance key of its object. A
context reaches the variables of its owner and no others (`World.Private`). In a
run that starts afresh a key stands for one object throughout
(`World.TellsApart`), and variables are kept for objects that are there only;
from one moment to a later one the variables of an object are changed by steps
of contexts that it owns, and by nothing else
(`Engine.UsesReferences.isolates`). All this lasts until the numbers of objects
come round: then an object that takes the place of another one leaves variables
without an object (`Engine.UsesReferences.exists_orphaned`).

What a change of a world leaves is said with the objects whose variables it may
write (`World.Follows`). Custom handlers are free to change objects, and to
write and delete through references of the context that runs them.
-/

namespace Cutscene

/-! ## Who may write -/

/-- The world goes on, and the variables of an object that is there in the end
are as they were, unless it is one of the writers. -/
structure World.Follows (writers : ObjectId → Prop) (w w' : World) : Prop
    extends w.Continues w' where
  others : w.Housed → w'.objects.OneRound → ∀ {k key}, ¬ writers k →
    w'.objects.instanceKey? k = some key → w'.selfVars.get? key = w.selfVars.get? key

namespace World

variable {w w' w'' : World} {writers writers' : ObjectId → Prop}

/-- Nothing is kept under the instance key of an object that is not there. -/
theorem Housed.get?_of_gone (h : w.Housed) (hround : w.objects.OneRound) {s : Store}
    (hs : s.Keyed) {k : ObjectId} {key : String} (hkey : s.instanceKey? k = some key)
    (hgone : ¬ w.objects.contains k) : w.selfVars.get? key = none := by
  refine Option.not_isSome_iff_eq_none.1 fun hkept => ?_
  obtain ⟨k', hk'⟩ := h.live hround hkept
  obtain rfl := h.sound.keyed.instanceKey?_inj hs hk' hkey
  exact hgone (Store.contains_of_instanceKey? hk')

namespace Follows

theorem of_selfVars (h : w.Continues w') (hvars : w'.selfVars = w.selfVars) :
    w.Follows writers w' :=
  ⟨h, fun _ _ _ _ _ _ => by rw [hvars]⟩

theorem of_undisturbed (h : w.Undisturbed w') : w.Follows writers w' :=
  .of_selfVars (.of_eq h.objects h.selfVars) h.selfVars

theorem refl (w : World) : w.Follows writers w := .of_selfVars (.refl w) rfl

theorem mono (h : w.Follows writers w') (hwriters : ∀ k, writers k → writers' k) :
    w.Follows writers' w' :=
  ⟨h.toContinues, fun hw hround _ _ hk hkey =>
    h.others hw hround (fun hwriter => hk (hwriters _ hwriter)) hkey⟩

/-- **What follows leaves the variables of all but the writers.** -/
theorem trans (h : w.Follows writers w') (h' : w'.Follows writers w'') :
    w.Follows writers w'' := by
  refine ⟨h.toContinues.trans h'.toContinues, fun hw hround k key hk hkey => ?_⟩
  have hw' := h.housed hw
  have hbecomes := h.becomes hw.sound
  have hbecomes' := h'.becomes hw'.sound
  have hround' := hround.of_le hbecomes'.created_le
  have hbefore := hround'.of_le hbecomes.created_le
  have hkeyed := hbecomes'.sound.keyed
  have hthere := Store.contains_of_instanceKey? hkey
  rw [h'.others hw' hround hk hkey]
  by_cases hlive : w'.objects.contains k
  · refine h.others hw hround' hk ?_
    have hout := (hw'.sound.linked hround').handedOut hlive
    rw [← hbecomes'.instanceKey?_eq hw'.sound.keyed hround hthere hout]
    exact hkey
  -- an object that is new was not there before either, and nothing was kept for it
  · have hnew : ¬ w.objects.contains k := fun hold => hlive <|
      hbecomes'.contains_of hround hthere
        (((hw.sound.linked hbefore).handedOut hold).mono hbecomes.created_le)
    rw [hw'.get?_of_gone hround' hkeyed hkey hlive, hw.get?_of_gone hbefore hkeyed hkey hnew]

/-- Setting the variables of an object that is there. -/
theorem setVars {id : ObjectId} {o : GameObject} (ho : w.objects.get? id = some o)
    (hid : writers id) (vars : Attributes) :
    w.Follows writers { w with selfVars := w.selfVars.insert o.instanceKey vars } := by
  refine ⟨.setVars ho vars, fun hw _ k key hk hkey => Table.get?_insert_of_ne _ _ ?_⟩
  rintro rfl
  have hown : w.objects.instanceKey? id = some o.instanceKey := by rw [Store.instanceKey?, ho]; rfl
  have hkeyed := hw.sound.keyed
  exact hk (hkeyed.instanceKey?_inj hkeyed hkey hown ▸ hid)

/-- What is destroyed takes its own variables with it. -/
theorem destroyObject (w : World) (id : ObjectId) : w.Follows writers (w.destroyObject id).2 := by
  refine ⟨.destroyObject w id, fun hw _ k key _ hkey => ?_⟩
  rw [selfVars_destroyObject, if_neg]
  rintro ⟨taken, htaken, rfl⟩
  obtain ⟨o, ho, hsame⟩ := Option.map_eq_some_iff.1 hkey
  have hid : k = taken.id := by
    rw [← (hw.sound.remove id).sound.keyed k o ho]
    exact (GameObject.instanceKey_inj hsame).2
  have hgone := (hw.sound.keyed.cuts id).gone htaken
  exact hgone.1 (hid ▸ Store.contains_of_instanceKey? hkey)

end Follows

end World

/-- **An effect writes the variables of no object but the owner.** -/
theorem Effect.follows (m : Machine) {rootless : Prop} {owner : Option ObjectId} {x : Effect}
    (h : x.Fits rootless owner) : m.world.Follows (owner = some ·) (x.apply m).world := by
  have hcontinues := x.continues m
  cases x with
  | selfVars id vars =>
    simp only [apply]
    split
    · exact .refl _
    · exact .setVars ‹_› h vars
  | destroy id => exact .destroyObject _ id
  | _ => exact .of_selfVars hcontinues rfl

theorem Machine.follows_after (m : Machine) {rootless : Prop} {owner : Option ObjectId}
    {es : List Effect} (h : ∀ x ∈ es, x.Fits rootless owner) :
    m.world.Follows (owner = some ·) (m.after es).world := by
  induction es generalizing m with
  | nil => exact .refl _
  | cons x es ih =>
    obtain ⟨hx, hes⟩ := List.forall_mem_cons.1 h
    exact (x.follows m hx).trans (ih (x.apply m) hes)

/-- **An edit of the host writes no variables of instances.** -/
theorem HostEdit.follows (w : World) (change : HostEdit) {writers : ObjectId → Prop} :
    w.Follows writers (change.run w).2 := by
  have hcontinues := change.continues w
  have hrandom : ∀ random, w.Follows writers { w with random } :=
    fun _ => .of_undisturbed ⟨rfl, rfl⟩
  cases change with
  | destroyLater id => exact .destroyObject w id
  | drawUnit => exact hrandom _
  | drawBelow bound => exact hrandom _
  | create kind dataId parent key slot =>
    refine .of_selfVars hcontinues ?_
    simp only [run, World.create]
    split <;> rfl
  | attach parent child =>
    refine .of_selfVars hcontinues ?_
    simp only [run]
    split <;> rfl
  | _ => exact .of_selfVars hcontinues rfl

/-! ## Custom handlers -/

/-- A change that a context with the owner can make: effects on everything but
variables of instances, edits, and what goes through references of a context
with that owner. -/
def Change.IsOf (owner : Option ObjectId) : Change → Prop
  | .effect x => ∀ id vars, x ≠ .selfVars id vars
  | .edit _ => True
  | .write c _ _ | .delete c _ => c.ambient.owner = owner

theorem Change.follows (w : World) {owner : Option ObjectId} {change : Change}
    (h : change.IsOf owner) : w.Follows (owner = some ·) (change.run w) := by
  have hreference : ∀ (c : Context) (f : String → Attributes → Attributes) (ref : VariableRef),
      c.ambient.owner = owner →
        w.Follows (owner = some ·) (Machine.modifyAt ⟨c, w⟩ f ref).world := by
    rintro c f ref rfl
    have hfits : ∀ x ∈ Machine.changeEffects ⟨c, w⟩ f ref, x.Fits False c.ambient.owner :=
      Machine.fits_changeEffects ⟨c, w⟩ f ref
    rw [Machine.modifyAt_eq]
    exact Machine.follows_after ⟨c, w⟩ hfits
  cases change with
  | effect x =>
    have hfits : x.Fits False owner := by
      cases x with
      | selfVars id vars => exact absurd rfl (h id vars)
      | create kind dataId parent => cases parent <;> simp [Effect.Fits]
      | _ => trivial
    exact x.follows ⟨default, w⟩ hfits
  | edit change => exact change.follows w
  | write c ref v => exact hreference c _ ref h
  | delete c ref => exact hreference c _ ref h

theorem World.follows_changed (w : World) {owner : Option ObjectId} {changes : List Change}
    (h : ∀ change ∈ changes, change.IsOf owner) :
    w.Follows (owner = some ·) (w.changed changes) := by
  induction changes generalizing w with
  | nil => exact .refl w
  | cons change changes ih =>
    obtain ⟨hchange, hchanges⟩ := List.forall_mem_cons.1 h
    exact (Change.follows w hchange).trans (ih (change.run w) hchanges)

/-- What the handler does with objects and variables of instances, a row of
changes does that its context can make. -/
def Handler.UsesReferences (h : Handler) : Prop :=
  ∀ arguments (m : Machine), ∃ changes : List Change,
    (∀ change ∈ changes, change.IsOf m.context.ambient.owner) ∧
      (m.world.changed changes).Undisturbed (h arguments m).2.world

/-- All custom handlers use references. -/
def Engine.UsesReferences (e : Engine) : Prop :=
  ∀ id handler, e.handlers.get? id = some handler → handler.UsesReferences

/-! ## From one moment to another -/

/-- The object whose variables the step executed at the moment can write. -/
def Moment.owner (a : Moment) : Option ObjectId := a.context.bind (·.ambient.owner)

namespace Engine.UsesReferences

variable {e : Engine}

/-- **A step writes the variables of its context's owner, if any.** -/
theorem follows_step (he : e.UsesReferences) (m : Machine) (step : Step) :
    m.world.Follows (m.context.ambient.owner = some ·) (step.run e (m.past step)).2.world := by
  have hbound : m.world.Follows (m.context.ambient.owner = some ·) (m.past step).world :=
    .of_undisturbed (.bind m.world step m.context.place)
  refine hbound.trans ?_
  cases hcustom : step.isCustom with
  | false =>
    have hturns : Act.Turns False False e step (step.run e) :=
      step.turns hcustom False.elim False.elim
    obtain ⟨es, o, c, hfits, -, hrun, -⟩ := hturns (m.past step)
    rw [hrun]
    refine (Machine.follows_after (m.past step) hfits).trans ?_
    cases o with
    | flow flow => exact .refl _
    | spawn child => exact .of_undisturbed ⟨rfl, rfl⟩
  | true =>
    rcases Step.run_custom e hcustom with ⟨id, arguments, handler, -, hhandler, hsome⟩ | hnone
    · obtain ⟨changes, hchanges, hundisturbed⟩ :=
        he id handler hhandler arguments (m.past step)
      rw [hsome]
      exact (World.follows_changed _ hchanges).trans (.of_undisturbed hundisturbed)
    · rw [hnone]
      exact .refl _

theorem follows_next (he : e.UsesReferences) {a b : Moment} (h : a.Next e b) :
    a.world.Follows (a.owner = some ·) b.world := by
  obtain ⟨context, w⟩ := a
  cases h with
  | @step c _ _ step _ _ h =>
    exact (he.follows_step ⟨c, w⟩ step).trans (.of_undisturbed h)
  | rest h => exact .of_undisturbed h
  | edit change h => exact (change.follows w).trans (.of_undisturbed h)

/-- Along a chain of moments only owners of their contexts write. -/
theorem follows_chain (he : e.UsesReferences) {a b : Moment} {between : List Moment}
    (h : (a :: (between ++ [b])).IsChain (Moment.Next e)) :
    a.world.Follows (fun k => ∃ c ∈ a :: between, c.owner = some k) b.world := by
  induction between generalizing a with
  | nil =>
    refine (he.follows_next (List.isChain_pair.1 h)).mono fun k hk => ?_
    exact ⟨a, List.mem_cons_self, hk⟩
  | cons c between ih =>
    obtain ⟨hnext, hrest⟩ := List.isChain_cons_cons.1 h
    refine ((he.follows_next hnext).mono fun k hk => ?_).trans ((ih hrest).mono fun k hk => ?_)
    · exact ⟨a, List.mem_cons_self, hk⟩
    · obtain ⟨x, hx, howner⟩ := hk
      exact ⟨x, List.mem_cons_of_mem _ hx, howner⟩

end Engine.UsesReferences

/-! ## What contexts reach -/

namespace Machine

/-- The machine writes or deletes through a variable of its owner. -/
def ChangesOwn (m m' : Machine) : Prop :=
  ∃ key, (∃ v, m' = m.write (.ofOwner key) v) ∨ m' = m.delete (.ofOwner key)

theorem modifyAt_ofOwner {m : Machine} {o : GameObject} (ho : m.owner? = some o)
    (change : String → Attributes → Attributes) (key : String) :
    let vars := (m.world.selfVars.get? o.instanceKey).getD .empty
    m.modifyAt change (.ofOwner key) =
      { m with world.selfVars := m.world.selfVars.insert o.instanceKey (change key vars) } := by
  rw [modifyAt, modifyVars, ho]

theorem ChangesOwn.cases {m m' : Machine} (h : m.ChangesOwn m') :
    (m.owner? = none ∧ m' = m) ∨ ∃ o vars, m.owner? = some o ∧
      m' = { m with world.selfVars := m.world.selfVars.insert o.instanceKey vars } := by
  obtain ⟨change, key, rfl⟩ : ∃ change key, m' = m.modifyAt change (.ofOwner key) := by
    obtain ⟨key, ⟨v, h⟩ | h⟩ := h
    · exact ⟨_, key, h⟩
    · exact ⟨_, key, h⟩
  cases ho : m.owner? with
  | none => exact .inl ⟨rfl, by rw [modifyAt, modifyVars, ho]⟩
  | some o => exact .inr ⟨o, _, rfl, modifyAt_ofOwner ho change key⟩

end Machine

/-- Through variables of its owner a context reaches the owner's and no
others, what it writes it reads, and without an owner that is there it reaches
none. -/
structure World.Private (w : World) : Prop where
  reads : ∀ c o key v, Machine.owner? ⟨c, w⟩ = some o →
    (Machine.write ⟨c, w⟩ (.ofOwner key) v).read (.ofOwner key) = some v
  own : ∀ c o m', Machine.owner? ⟨c, w⟩ = some o → Machine.ChangesOwn ⟨c, w⟩ m' →
    m'.context = c ∧ m'.world = { w with selfVars := m'.world.selfVars } ∧
      ∀ key, key ≠ o.instanceKey → m'.world.selfVars.get? key = w.selfVars.get? key
  others : ∀ c c' m', c'.ambient.owner ≠ c.ambient.owner → Machine.ChangesOwn ⟨c, w⟩ m' →
    ∀ key, Machine.read ⟨c', m'.world⟩ (.ofOwner key) = Machine.read ⟨c', w⟩ (.ofOwner key)
  ownerless : ∀ c, Machine.owner? ⟨c, w⟩ = none →
    (∀ key, Machine.read ⟨c, w⟩ (.ofOwner key) = none) ∧
      ∀ m', Machine.ChangesOwn ⟨c, w⟩ m' → m' = ⟨c, w⟩

theorem World.private_of_keyed {w : World} (hkeyed : w.objects.Keyed) : w.Private where
  reads := by
    intro c o key v ho
    have hcell : Machine.cell? ⟨c, w⟩ (.ofOwner key) = some (.ofOwner o.instanceKey key) := by
      rw [Machine.cell?, ho]
      rfl
    exact Machine.read_modifyAt (Machine.sets_insert v) rfl hcell
  own := by
    intro c o m' ho hchange
    rcases hchange.cases with ⟨hnone, -⟩ | ⟨o', vars, ho', rfl⟩
    · rw [ho] at hnone
      simp at hnone
    · obtain rfl := Option.some.inj (ho.symm.trans ho')
      exact ⟨rfl, rfl, fun key hkey => Table.get?_insert_of_ne _ _ hkey⟩
  others := by
    intro c c' m' hother hchange key
    rcases hchange.cases with ⟨-, rfl⟩ | ⟨o, vars, ho, rfl⟩
    · rfl
    rw [Machine.read_eq, Machine.read_eq]
    show ((Machine.owner? ⟨c', w⟩).map _).bind _ = _
    rw [Machine.cell?]
    cases ho' : Machine.owner? ⟨c', w⟩ with
    | none => rfl
    | some o' =>
      -- the two owners have different numbers, and so different instance keys
      have hkeys : o'.instanceKey ≠ o.instanceKey := by
        intro hsame
        obtain ⟨k, howner, hk⟩ := Option.bind_eq_some_iff.1 ho
        obtain ⟨k', howner', hk'⟩ := Option.bind_eq_some_iff.1 ho'
        have hid := (GameObject.instanceKey_inj hsame).2
        rw [hkeyed k o hk, hkeyed k' o' hk'] at hid
        exact hother (howner'.trans (hid ▸ howner.symm))
      simp only [Option.map_some, Option.bind_some, Machine.value?,
        Table.get?_insert_of_ne _ _ hkeys]
  ownerless := by
    intro c hnone
    refine ⟨fun key => by rw [Machine.read_eq, Machine.cell?, hnone]; rfl, fun m' hchange => ?_⟩
    rcases hchange.cases with ⟨-, rfl⟩ | ⟨o, vars, ho, -⟩
    · rfl
    · rw [hnone] at ho
      simp at ho

/-- In both worlds an object has one number and one instance key, and nothing
else has them: what is there in the second under a number that had been handed
out in the first was there in the first. -/
structure World.TellsApart (w w' : World) : Prop where
  instanceKey_eq_iff : ∀ {k k' key key'}, w.objects.instanceKey? k = some key →
    w'.objects.instanceKey? k' = some key' → (key = key' ↔ k = k')
  becomes : w.objects.Becomes w'.objects

theorem World.Continues.tellsApart {w w' : World} (h : w.Continues w') (hw : w.objects.Sound)
    (hround : w'.objects.OneRound) : w.TellsApart w' := by
  have hbecomes := h.becomes hw
  have hlinked := hw.linked (hround.of_le hbecomes.created_le)
  refine ⟨fun {k k' key key'} hkey hkey' => ⟨?_, ?_⟩, hbecomes⟩
  · rintro rfl
    exact hw.keyed.instanceKey?_inj hbecomes.sound.keyed hkey hkey'
  · rintro rfl
    have hsame := hbecomes.instanceKey?_eq hw.keyed hround (Store.contains_of_instanceKey? hkey')
      (hlinked.handedOut (Store.contains_of_instanceKey? hkey))
    rw [hkey, hkey'] at hsame
    exact (Option.some.inj hsame).symm

/-! ## The law -/

instance : Trans World.Continues World.Continues World.Continues := ⟨World.Continues.trans⟩

namespace Engine.UsesReferences

variable {e : Engine}

/-- Along a run the world goes on. -/
theorem continues_moments (he : e.UsesReferences) (seed : UInt32) (ops : List Operation) :
    ((Operation.moments (.fresh e seed) ops).map (·.world)).IsChain World.Continues := by
  have hchain := Operation.isChain_moments (.fresh e seed) ops
  exact (List.isChain_map _).2 (hchain.imp fun _ _ h => (he.follows_next h).toContinues)

/-- **At every moment of a run that starts afresh** variables are kept for
objects that are there only. -/
theorem housed_moments (he : e.UsesReferences) {seed : UInt32} {ops : List Operation} {a : Moment}
    (ha : a ∈ Operation.moments (.fresh e seed) ops) : a.world.Housed := by
  have hcontinues := he.continues_moments seed ops
  obtain ⟨rest, hrest⟩ := Operation.exists_moments_cons (.fresh e seed) ops
  rw [hrest] at ha hcontinues
  rcases List.mem_cons.1 ha with rfl | ha
  · exact World.housed_fresh seed
  · exact (hcontinues.rel_cons (List.mem_map_of_mem ha)).housed (World.housed_fresh seed)

end Engine.UsesReferences

/-- **Variables of instances belong to one object.** Let custom handlers use
references, and let a run start afresh. An instance key tells the number of its
object; a context that writes or deletes through a variable of its owner changes
what the owner has and nothing that a context of another owner reads, what it
writes it reads, and without an owner that is there it reads and changes
nothing. As long as no more objects were created than there are numbers, objects
that are there at any two moments have different instance keys if they are
different; variables are kept for objects that are there only; and from one
moment to a later one the variables of an object stay as they are if no context
that it owns executes a step. -/
theorem Engine.UsesReferences.isolates {e : Engine} (he : e.UsesReferences) (seed : UInt32)
    (ops : List Operation) :
    let run := Operation.moments (.fresh e seed) ops
    (∀ o o' : GameObject, o.instanceKey = o'.instanceKey → o.id = o'.id) ∧
    (run.Pairwise fun a b => b.world.objects.OneRound → a.world.TellsApart b.world) ∧
    (∀ a ∈ run, a.world.Private ∧
      (a.world.objects.OneRound → a.world.TellsApart a.world ∧
        ∀ key, a.world.selfVars.contains key →
          ∃ o, a.world.objects.get? o.id = some o ∧ o.instanceKey = key)) ∧
    ∀ before a between b after, run = before ++ a :: (between ++ b :: after) →
      b.world.objects.OneRound → ∀ k key, (∀ c ∈ a :: between, c.owner ≠ some k) →
        b.world.objects.instanceKey? k = some key →
          b.world.selfVars.get? key = a.world.selfVars.get? key := by
  intro run
  refine ⟨fun o o' hsame => (GameObject.instanceKey_inj hsame).2, ?_, fun a ha => ?_, ?_⟩
  · have hpairs := List.pairwise_map.1 (he.continues_moments seed ops).pairwise
    exact hpairs.imp_of_mem fun ha _ h => h.tellsApart (he.housed_moments ha).sound
  · have ha := he.housed_moments ha
    refine ⟨World.private_of_keyed ha.sound.keyed, fun hround => ?_⟩
    refine ⟨(World.Continues.refl _).tellsApart ha.sound hround, fun key hkey => ?_⟩
    obtain ⟨k, hk⟩ := ha.live hround hkey
    obtain ⟨o, ho, rfl⟩ := Option.map_eq_some_iff.1 hk
    exact ⟨o, by rw [ha.sound.keyed k o ho]; exact ho, rfl⟩
  · intro before a between b after hrun hround k key howners hkey
    have ha : a ∈ run := by rw [hrun]; simp
    have hchain : run.IsChain (Moment.Next e) := Operation.isChain_moments (.fresh e seed) ops
    have hpart : (a :: (between ++ [b])).IsChain (Moment.Next e) := by
      refine hchain.infix ⟨before, after, ?_⟩
      rw [hrun]
      simp
    refine (he.follows_chain hpart).others (he.housed_moments ha) hround ?_ hkey
    rintro ⟨c, hc, howner⟩
    exact howners c hc howner

/-- A custom instruction that marks the owner of its context. -/
def Handler.marks : Handler := fun _ m => (.next, m.write (.ofOwner "mark") (.bool true))

theorem Engine.usesReferences_marks : (Engine.handling .asking .marks).UsesReferences := by
  intro id handler hhandler arguments m
  obtain rfl := Engine.eq_of_handling hhandler
  refine ⟨[.write m.context (.ofOwner "mark") (.bool true)], ?_, .refl _⟩
  simp [Change.IsOf]

namespace Operation

/-- Makes a new item. -/
def make (data : String) : Operation := .edit (.create .item data none none none)

/-- Starts a context that marks the object. -/
def mark (k : Nat) : Operation := .start "custom" { Ambient.none with owner := some ⟨k⟩ }

/-- Boxes whose data look like instance keys; each is marked, and the first is
destroyed and made again. -/
def boxes : List Operation :=
  [make "box#2", make "box", mark 1, mark 2, .destroy ⟨1⟩, make "box#2", mark 1]

/-- A box is marked, and then as many lids are made as there are numbers. -/
def lids : List Operation := [make "box", mark 1] ++ List.replicate UInt64.size (make "lid")

end Operation

/-- The box that is made again has a key of its own, and a context of the old
one marks nothing. -/
theorem Engine.UsesReferences.isolates_boxes :
    let run := Operation.moments (.fresh (.handling .asking .marks) 0) Operation.boxes
    (Engine.handling .asking .marks).UsesReferences ∧
    (run.getLast?.map fun a => (a.world.objects.instanceKey? ⟨2⟩, a.world.objects.instanceKey? ⟨3⟩,
      a.world.selfVars.keys)) = some (some "box#2", some "box#2#3", ["box#2"]) ∧
    run.Pairwise fun a b => b.world.objects.OneRound → a.world.TellsApart b.world := by
  intro run
  have hmarks := Engine.usesReferences_marks
  exact ⟨hmarks, by decide +kernel, (hmarks.isolates 0 Operation.boxes).2.1⟩

/-! ## When numbers come round -/

namespace Operation

/-- What a run comes to is its last moment. -/
theorem mem_moments_of_runAll {s s' : Scheduler} {ops : List Operation} {rs : List Reply}
    (h : runAll s ops = some (rs, s')) : ⟨none, s'.world⟩ ∈ moments s ops := by
  induction ops generalizing s rs with
  | nil =>
    obtain ⟨-, rfl⟩ := Prod.mk.inj (Option.some.inj h)
    exact List.mem_singleton_self _
  | cons op ops ih =>
    rw [runAll] at h
    rw [moments]
    cases hop : op.run s with
    | none => simp [hop] at h
    | some x =>
      simp only [hop] at h ⊢
      obtain ⟨⟨rs₁, s₂⟩, hrun, heq⟩ := Option.map_eq_some_iff.1 h
      obtain ⟨-, rfl⟩ := Prod.mk.inj heq
      exact List.mem_cons_of_mem _ (List.mem_append_right _ (ih hrun))

theorem run_make (s : Scheduler) (data : String) :
    ∃ r s', (make data).run s = some (r, s') ∧ s'.world.selfVars = s.world.selfVars ∧
      s'.world.objects.created = s.world.objects.created + 1 ∧
      s'.world.objects.dataId? s.world.objects.nextId = some data := by
  refine ⟨_, _, rfl, rfl, Store.created_modify _ _ _, ?_⟩
  refine (Store.map_get?_modify _ _ _ (·.dataId) fun _ => by rfl).trans ?_
  have hmade := Store.get?_create s.world.objects .item data s.world.objects.nextId
  rw [if_pos rfl] at hmade
  exact congrArg (Option.map (·.dataId)) hmade

/-- Making items leaves variables of instances alone, and the last item is
there. -/
theorem runAll_replicate_make (s : Scheduler) (data : String) (n : Nat) :
    ∃ rs s', runAll s (List.replicate (n + 1) (make data)) = some (rs, s') ∧
      s'.world.selfVars = s.world.selfVars ∧
      s'.world.objects.dataId? (.ofCount (s.world.objects.created + (n + 1))) = some data := by
  induction n generalizing s with
  | zero =>
    obtain ⟨r, s₁, hrun, hvars, -, hdata⟩ := run_make s data
    exact ⟨[r], s₁, by simp [runAll, hrun], hvars, hdata⟩
  | succ n ih =>
    obtain ⟨r, s₁, hrun, hvars, hcreated, -⟩ := run_make s data
    obtain ⟨rs, s', hmore, hkept, hlast⟩ := ih s₁
    refine ⟨r :: rs, s', ?_, hkept.trans hvars, ?_⟩
    · rw [List.replicate_succ, runAll, hrun]
      simp only [hmore, Option.map_some]
    · rwa [hcreated, Nat.add_assoc, Nat.add_comm 1] at hlast

end Operation

/-- **When the numbers of objects have come round**, an object has taken the
place of a marked one, and the mark is left without an object. -/
theorem Engine.UsesReferences.exists_orphaned :
    (Engine.handling .asking .marks).UsesReferences ∧
      ∃ a ∈ Operation.moments (.fresh (.handling .asking .marks) 0) Operation.lids,
        a.world.selfVars.contains "box#1" ∧
        ∀ o, a.world.objects.get? o.id = some o → o.instanceKey ≠ "box#1" := by
  refine ⟨Engine.usesReferences_marks, ?_⟩
  have hmarked : (Operation.runAll (.fresh (.handling .asking .marks) 0) [.make "box", .mark 1]).any
      fun x => x.2.world.selfVars.contains "box#1" ∧ x.2.world.objects.created = 1 := by
    decide +kernel
  obtain ⟨⟨rs, s⟩, hrun, hs⟩ := (Option.any_eq_true _ _).1 hmarked
  obtain ⟨hmark, hcreated⟩ := of_decide_eq_true hs
  obtain ⟨n, hn⟩ : ∃ n, UInt64.size = n + 1 := ⟨18446744073709551615, rfl⟩
  obtain ⟨rs', s', hmade, hvars, hlast⟩ := Operation.runAll_replicate_make s "lid" n
  rw [Operation.lids, hn]
  have hall : Operation.runAll (.fresh (.handling .asking .marks) 0)
      ([.make "box", .mark 1] ++ List.replicate (n + 1) (.make "lid")) = some (rs ++ rs', s') := by
    simp only [Operation.runAll_append, hrun, Option.bind_some, hmade, Option.map_some]
  refine ⟨_, Operation.mem_moments_of_runAll hall, ?_, ?_⟩
  · rwa [hvars]
  · -- what has the number of the box now is a lid
    intro o ho hkey
    have hbox : o.instanceKey = GameObject.instanceKey { o with id := ⟨1⟩, dataId := "box" } :=
      hkey.trans (by decide : "box#1" = "box" ++ "#" ++ toString 1)
    obtain ⟨hdata, hid⟩ : o.dataId = "box" ∧ o.id = ⟨1⟩ := GameObject.instanceKey_inj hbox
    have ho : s'.world.objects.get? ⟨1⟩ = some o := hid ▸ ho
    have hlid : s'.world.objects.dataId? ⟨1⟩ = some "lid" := by
      rw [← hlast, hcreated, ← hn]
      rfl
    rw [Store.dataId?, ho, Option.map_some, hdata] at hlid
    exact absurd hlid (by decide)

end Cutscene
