import Cutscene.Proofs.Run.Uphold
import Mathlib.Data.List.Nodup
import Mathlib.Data.List.Perm.Basic
/-!
# Running — the roll of contexts

A context keeps its number and its name (`Identity`). The roll of a machine
lists those of the contexts that are live in it, the one that runs and the
spawned ones, and names the number that is handed out next. An advance moves
the roll as its steps say (`Engine.KeepsIdentities.advance`): what they spawn
is added, under numbers handed out one after the other, what ends is taken off,
and nothing else is lost, doubled or renamed. Its steps are those of the
context that is advanced and of the contexts that it creates
(`Engine.KeepsIdentities.fetched`).

A custom handler may spawn contexts of its own and run them before it is done.
What is seen of them is the numbers that it took and the contexts that it
queued (`World.Spawns`): those that ended meanwhile are created and end in its
step (`World.spent`).
-/

namespace Cutscene

/-! ## Rolls -/

/-- What a context keeps all its life: its number and its name. -/
structure Identity where
  id : EventId
  name : String
  deriving DecidableEq, Repr

namespace Context

/-- The context's number and name. -/
def identity (c : Context) : Identity := ⟨c.id, c.name⟩

/-- The context's identity, unless it has finished. -/
def live (c : Context) : List Identity := if c.state.isFinished then [] else [c.identity]

theorem live_eq_nil {c : Context} (h : c.state.isFinished) : c.live = [] := if_pos h

theorem live_eq_singleton {c : Context} (h : c.state.isFinished = false) :
    c.live = [c.identity] := by
  rw [live, h]
  rfl

theorem live_congr {c c' : Context} (hidentity : c'.identity = c.identity)
    (hfinished : c'.state.isFinished = c.state.isFinished) : c'.live = c.live := by
  rw [live, live, hidentity, hfinished]

end Context

/-- The numbers are handed out one after the other, from the first on, and the
second is next. -/
inductive Counts : EventId → List EventId → EventId → Prop
  | nil (id : EventId) : Counts id [] id
  | cons {id id' : EventId} {ids : List EventId} (h : Counts id.next ids id') :
    Counts id (id :: ids) id'

theorem Counts.append {id id' id'' : EventId} {ids ids' : List EventId} (h : Counts id ids id')
    (h' : Counts id' ids' id'') : Counts id (ids ++ ids') id'' := by
  induction h with
  | nil id => exact h'
  | cons _ ih => exact .cons (ih h')

theorem Counts.eq_of_nil {id id' : EventId} (h : Counts id [] id') : id' = id := by
  cases h
  rfl

/-- Until they come round, the numbers handed out increase by one. -/
theorem Counts.eq_range' {n : Nat} {id' : EventId} {ids : List EventId} (h : Counts ⟨n⟩ ids id')
    (hsize : n + ids.length ≤ UInt64.size) :
    ids = (List.range' n ids.length).map EventId.mk ∧
      (n + ids.length < UInt64.size → id' = ⟨n + ids.length⟩) := by
  induction ids generalizing n with
  | nil =>
    cases h
    exact ⟨rfl, fun _ => rfl⟩
  | cons id ids ih =>
    cases h with
    | cons h =>
      rw [List.length_cons] at hsize ⊢
      rw [List.range'_succ, List.map_cons]
      by_cases hlt : n + 1 < UInt64.size
      · rw [show EventId.next ⟨n⟩ = ⟨n + 1⟩ from congrArg EventId.mk (Nat.mod_eq_of_lt hlt)] at h
        obtain ⟨hids, hid'⟩ := ih h (by omega)
        refine ⟨by rw [← hids], fun hlt => ?_⟩
        rw [hid' (by omega)]
        congr 1
        omega
      -- the greatest number has been handed out, and it is the last one here
      · obtain rfl : ids = [] := List.length_eq_zero_iff.1 (by omega)
        exact ⟨rfl, fun hlt' => absurd hlt' hlt⟩

theorem Counts.val_lt {id id' : EventId} {ids : List EventId} (h : Counts id ids id')
    (hlt : id.val < UInt64.size) : id'.val < UInt64.size := by
  induction h with
  | nil id => exact hlt
  | cons _ ih => exact ih (Nat.mod_lt _ (by decide))

/-- The numbers handed out from the first on until the second is next, as long
as they do not come round. -/
def EventId.upTo (id id' : EventId) : List EventId :=
  (List.range' id.val ((id'.val + UInt64.size - id.val) % UInt64.size)).map fun n =>
    ⟨n % UInt64.size⟩

theorem EventId.nodup_upTo (id id' : EventId) : (id.upTo id').Nodup := by
  refine List.Nodup.map_on (fun n hn n' hn' heq => ?_) List.nodup_range'
  have hlt : (id'.val + UInt64.size - id.val) % UInt64.size < UInt64.size :=
    Nat.mod_lt _ (by decide)
  have hmod : n % UInt64.size = n' % UInt64.size := EventId.mk.inj heq
  rw [List.mem_range'_1] at hn hn'
  unfold UInt64.size at *
  omega

theorem counts_range' (n count : Nat) : Counts ⟨n % UInt64.size⟩
    ((List.range' n count).map fun k => ⟨k % UInt64.size⟩) ⟨(n + count) % UInt64.size⟩ := by
  induction count generalizing n with
  | zero => exact .nil _
  | succ count ih =>
    have hnext : EventId.next ⟨n % UInt64.size⟩ = ⟨(n + 1) % UInt64.size⟩ :=
      congrArg EventId.mk (Nat.mod_add_mod n UInt64.size 1)
    rw [List.range'_succ, List.map_cons, Nat.add_comm count, ← Nat.add_assoc]
    exact .cons (hnext ▸ ih (n + 1))

theorem EventId.counts_upTo {id id' : EventId} (h : id.val < UInt64.size)
    (h' : id'.val < UInt64.size) : Counts id (id.upTo id') id' := by
  have hcounts := counts_range' id.val ((id'.val + UInt64.size - id.val) % UInt64.size)
  have hlast : (id.val + (id'.val + UInt64.size - id.val) % UInt64.size) % UInt64.size =
      id'.val := by
    unfold UInt64.size at *
    omega
  rw [Nat.mod_eq_of_lt h, hlast] at hcounts
  exact hcounts

/-- The contexts that are live, and the number of the next one. -/
structure Roll where
  held : List Identity
  next : EventId

/-- From the first roll to the second some contexts are created and some end;
all others stay. -/
structure Roll.Moves (r : Roll) (created ended : List Identity) (r' : Roll) : Prop where
  held : (r'.held ++ ended).Perm (r.held ++ created)
  next : Counts r.next (created.map Identity.id) r'.next

namespace Roll.Moves

variable {r r' r'' : Roll} {created created' ended ended' : List Identity}

/-- Nothing is created and nothing ends. -/
theorem of_perm (hheld : r'.held.Perm r.held) (hnext : r'.next = r.next) : r.Moves [] [] r' :=
  ⟨by simpa using hheld, hnext ▸ .nil _⟩

theorem refl (r : Roll) : r.Moves [] [] r := .of_perm (.refl _) rfl

theorem trans (h : r.Moves created ended r') (h' : r'.Moves created' ended' r'') :
    r.Moves (created ++ created') (ended ++ ended') r'' := by
  refine ⟨List.perm_iff_count.2 fun x => ?_, ?_⟩
  · have hx := h.held.count_eq x
    have hx' := h'.held.count_eq x
    simp only [List.count_append] at hx hx' ⊢
    omega
  · rw [List.map_append]
    exact h.next.append h'.next

/-- Contexts that are live beside the roll stay so. -/
theorem beside (h : r.Moves created ended r') (others : List Identity) :
    Roll.Moves ⟨others ++ r.held, r.next⟩ created ended ⟨others ++ r'.held, r'.next⟩ := by
  refine ⟨?_, h.next⟩
  rw [List.append_assoc, List.append_assoc]
  exact h.held.append_left others

/-- The order of the contexts does not matter. -/
theorem perm (h : r.Moves created ended r') {held held' : List Identity}
    (hheld : held.Perm r.held) (hheld' : held'.Perm r'.held) :
    Roll.Moves ⟨held, r.next⟩ created ended ⟨held', r'.next⟩ :=
  ⟨(hheld'.append_right ended).trans (h.held.trans (hheld.symm.append_right created)), h.next⟩

theorem next_lt (h : r.Moves created ended r') (hlt : r.next.val < UInt64.size) :
    r'.next.val < UInt64.size :=
  h.next.val_lt hlt

/-- Contexts that end. -/
theorem of_ends (hheld : (r'.held ++ ended).Perm r.held) (hnext : r'.next = r.next) :
    r.Moves [] ended r' :=
  ⟨by simpa using hheld, hnext ▸ .nil _⟩

end Roll.Moves

/-! ## One step -/

/-- The context that an outcome asks to be run first. -/
def Outcome.pending : Outcome → List Identity
  | .flow _ => []
  | .spawn child => [child.identity]

/-- A turn keeps what a context keeps, and one that it spawns has the next
number and runs. -/
theorem Step.Turn.identity {e : Engine} {id : EventId} {c c' : Context} {step : Step} {o : Outcome}
    (h : step.Turn e id c o c') : c'.identity = c.identity ∧
      ∀ child, o = .spawn child → child.id = id ∧ child.state = .running := by
  cases h with
  | halt a halt => rcases halt with _ | halt <;> [skip; cases halt] <;> exact ⟨rfl, by simp⟩
  | spawn body =>
    refine ⟨rfl, fun child hchild => ?_⟩
    obtain rfl := Outcome.spawn.inj hchild
    exact ⟨rfl, rfl⟩
  | callAsync params hevent vars =>
    refine ⟨rfl, fun child hchild => ?_⟩
    obtain rfl := Outcome.spawn.inj hchild
    exact ⟨rfl, rfl⟩
  | _ => exact ⟨rfl, by simp⟩

/-- A context that is to be run first has the number that is handed out. -/
theorem Step.world_of_spawn {e : Engine} {step : Step} {m m' : Machine} {child : Context}
    (hrun : step.run e m = (.spawn child, m')) :
    m'.world.spawned = m.world.spawned ∧ child.identity.id = ⟨m.world.nextEventId⟩ ∧
      (⟨m'.world.nextEventId⟩ : EventId) = EventId.next ⟨m.world.nextEventId⟩ := by
  cases hcustom : step.isCustom with
  | false =>
    have hturns : Act.Turns False False e step (step.run e) :=
      step.turns hcustom False.elim False.elim
    obtain ⟨es, o, c, -, hturn, hrun', -⟩ := hturns m
    obtain ⟨rfl, rfl⟩ := Prod.mk.inj (hrun.symm.trans hrun')
    obtain ⟨hspawned, hnext, -⟩ := m.world_after es
    exact ⟨hspawned, (hturn.identity.2 child rfl).1,
      congrArg (fun n => EventId.next ⟨n⟩) hnext⟩
  | true =>
    -- no custom step asks for a context to be run
    rcases Step.run_custom e hcustom with ⟨_, _, _, -, -, hsome⟩ | hnone
    · rw [hsome] at hrun
      cases hrun
    · rw [hnone] at hrun
      cases hrun

namespace World

/-- The contexts that are queued in the second world before those of the
first. -/
def newcomers (w w' : World) : List Context :=
  w'.spawned.take (w'.spawned.length - w.spawned.length)

/-- The contexts created from the first world to the second, one for each number
that was handed out. One that is not queued has no name any more. -/
def enrolled (w w' : World) : List Identity :=
  (EventId.upTo ⟨w.nextEventId⟩ ⟨w'.nextEventId⟩).map fun id =>
    ⟨id, ((w.newcomers w').find? (·.id == id)).elim "" Context.name⟩

/-- Those of them that are not queued: they have ended. -/
def spent (w w' : World) : List Identity :=
  (w.enrolled w').filter fun x => !(w.newcomers w').any (·.id == x.id)

/-- From the first world to the second contexts are spawned. They are queued
unless they have ended, each under a number of its own that was handed out
meanwhile. -/
structure Spawns (w w' : World) : Prop where
  next_lt : w'.nextEventId < UInt64.size
  queued : w.spawned <:+ w'.spawned
  unfinished : ∀ c ∈ w.newcomers w', c.state.isFinished = false
  nodup : ((w.newcomers w').map Context.id).Nodup
  handed : ∀ c ∈ w.newcomers w', c.id ∈ EventId.upTo ⟨w.nextEventId⟩ ⟨w'.nextEventId⟩

variable {w w' : World}

theorem map_id_enrolled (w w' : World) : (w.enrolled w').map Identity.id =
    EventId.upTo ⟨w.nextEventId⟩ ⟨w'.nextEventId⟩ := by
  rw [enrolled, List.map_map]
  exact List.map_id _

/-- Nothing is spawned. -/
theorem Spawns.of_eq (hlt : w.nextEventId < UInt64.size) (hspawned : w'.spawned = w.spawned)
    (hnext : w'.nextEventId = w.nextEventId) : w.Spawns w' := by
  have hnone : w.newcomers w' = [] := by
    rw [newcomers, hspawned, Nat.sub_self, List.take_zero]
  refine ⟨hnext ▸ hlt, hspawned ▸ List.suffix_rfl, ?_, ?_, ?_⟩ <;> simp [hnone]

namespace Spawns

theorem append (h : w.Spawns w') : w'.spawned = w.newcomers w' ++ w.spawned := by
  obtain ⟨before, hbefore⟩ := h.queued
  rw [newcomers, ← hbefore, List.length_append, Nat.add_sub_cancel, List.take_left]

theorem identity_mem_enrolled (h : w.Spawns w') {c : Context} (hc : c ∈ w.newcomers w') :
    c.identity ∈ w.enrolled w' := by
  refine List.mem_map.2 ⟨c.id, h.handed c hc, ?_⟩
  cases hfound : (w.newcomers w').find? (·.id == c.id) with
  | none => exact absurd (List.find?_eq_none.1 hfound c hc) (by simp)
  | some x =>
    have hid : x.id = c.id := by simpa using List.find?_some hfound
    obtain rfl := List.inj_on_of_nodup_map h.nodup (List.mem_of_find?_eq_some hfound) hc hid
    rfl

/-- A context that is created is queued or has ended. -/
theorem perm_enrolled (h : w.Spawns w') :
    ((w.newcomers w').map Context.identity ++ w.spent w').Perm (w.enrolled w') := by
  have hnodup : (w.enrolled w').Nodup :=
    List.Nodup.of_map Identity.id (by rw [map_id_enrolled]; exact EventId.nodup_upTo _ _)
  have hids : ((w.newcomers w').map Context.identity).map Identity.id =
      (w.newcomers w').map Context.id := by
    rw [List.map_map]
    rfl
  have hqueued : ((w.newcomers w').map Context.identity).Perm
      ((w.enrolled w').filter fun x => (w.newcomers w').any (·.id == x.id)) := by
    refine (List.perm_ext_iff_of_nodup (List.Nodup.of_map Identity.id (hids ▸ h.nodup))
      (hnodup.filter _)).2 fun x => ?_
    simp only [List.mem_filter, List.any_eq_true, beq_iff_eq]
    constructor
    · intro hx
      obtain ⟨c, hc, rfl⟩ := List.mem_map.1 hx
      exact ⟨h.identity_mem_enrolled hc, c, hc, rfl⟩
    · rintro ⟨hx, c, hc, hid⟩
      -- of one number there is one context
      have hsame := List.inj_on_of_nodup_map
        ((map_id_enrolled w w').symm ▸ EventId.nodup_upTo _ _) (h.identity_mem_enrolled hc) hx hid
      exact hsame ▸ List.mem_map_of_mem hc
  exact (hqueued.append_right _).trans (List.filter_append_perm _ _)

/-- **What is spawned is on the roll**: the contexts that are queued are those
that were, and those created that have not ended. -/
theorem held (h : w.Spawns w') :
    (w'.spawned.flatMap Context.live ++ w.spent w').Perm
      (w.spawned.flatMap Context.live ++ w.enrolled w') := by
  have hlive : (w.newcomers w').flatMap Context.live =
      (w.newcomers w').map Context.identity := by
    rw [List.map_eq_flatMap]
    exact List.flatMap_congr fun c hc => Context.live_eq_singleton (h.unfinished c hc)
  refine List.perm_iff_count.2 fun x => ?_
  have hx := h.perm_enrolled.count_eq x
  rw [h.append, List.flatMap_append, hlive]
  simp only [List.count_append] at hx ⊢
  omega

theorem counts (h : w.Spawns w') (hlt : w.nextEventId < UInt64.size) :
    Counts ⟨w.nextEventId⟩ ((w.enrolled w').map Identity.id) ⟨w'.nextEventId⟩ := by
  rw [map_id_enrolled]
  exact EventId.counts_upTo hlt h.next_lt

end Spawns

end World

/-- The handler keeps what its context keeps, and spawns contexts as events do. -/
structure Handler.KeepsIdentities (h : Handler) : Prop where
  identity : ∀ arguments (m : Machine),
    (h arguments m).2.context.identity = m.context.identity
  spawns : ∀ arguments (m : Machine), m.world.nextEventId < UInt64.size →
    m.world.Spawns (h arguments m).2.world

/-- All custom handlers keep what contexts keep. -/
def Engine.KeepsIdentities (e : Engine) : Prop :=
  ∀ id handler, e.handlers.get? id = some handler → handler.KeepsIdentities

theorem Engine.keepsIdentities_ofLibrary (l : Library) : (Engine.ofLibrary l).KeepsIdentities :=
  fun id handler h => by simp [Engine.ofLibrary] at h

theorem Handler.keepsIdentities_posts (event : String) : (Handler.posts event).KeepsIdentities := by
  refine ⟨fun arguments m => rfl, fun arguments m hlt => ?_⟩
  let id : EventId := EventId.next ⟨m.world.nextEventId⟩
  let post := (Context.start id event (.root event) m.context.ambient).pause .signal
  have hspawned : (Handler.posts event arguments m).2.world.spawned = post :: m.world.spawned := rfl
  have hnext : (Handler.posts event arguments m).2.world.nextEventId = id.next.val := rfl
  have hnew : m.world.newcomers (Handler.posts event arguments m).2.world = [post] := by
    rw [World.newcomers, hspawned, List.length_cons, Nat.add_sub_cancel_left, List.take_succ_cons,
      List.take_zero]
  refine ⟨Nat.mod_lt _ (by decide), hspawned ▸ List.suffix_cons _ _, ?_, ?_, ?_⟩
  · simp [hnew, post, Context.pause, RunState.isFinished]
  · simp [hnew]
  · -- two numbers are handed out, and the second is that of the context
    have hcount : (id.next.val + UInt64.size - m.world.nextEventId) % UInt64.size = 2 := by
      simp only [id, EventId.next]
      unfold UInt64.size at *
      omega
    rw [hnew, EventId.upTo, hnext, hcount, List.forall_mem_singleton]
    exact List.mem_cons_of_mem _ List.mem_cons_self

theorem Engine.keepsIdentities_posts (l : Library) (event : String) :
    (Engine.handling l (.posts event)).KeepsIdentities := by
  intro id handler hhandler
  obtain rfl := Engine.eq_of_handling hhandler
  exact Handler.keepsIdentities_posts event

namespace Machine

/-- The contexts that are live in the machine. -/
def roll (m : Machine) : Roll :=
  ⟨m.context.live ++ m.world.spawned.flatMap Context.live, ⟨m.world.nextEventId⟩⟩

/-- The contexts that the step at the machine's place creates: the one that it
asks to be run first, or those that it has queued or run itself. -/
def spawns (e : Engine) (m : Machine) : List Identity :=
  match e.step? m.context.place with
  | none => []
  | some step =>
    match step.run e (m.past step) with
    | (.flow _, m') => (m.past step).world.enrolled m'.world
    | (.spawn child, _) => [child.identity]

/-- The contexts that end in the step at the machine's place: those that it has
run itself to their end, and its own if it finishes that or there is no step. -/
def ends (e : Engine) (m : Machine) : List Identity :=
  match e.step? m.context.place with
  | none => [m.context.identity]
  | some step =>
    let own (m' : Machine) := if m'.context.state.isFinished then [m.context.identity] else []
    match step.run e (m.past step) with
    | (.flow _, m') => own m' ++ (m.past step).world.spent m'.world
    | (.spawn _, m') => own m'

/-- What machines that look for a step make of the roll, from the first machine
to the last. -/
def Moves (e : Engine) (fetched : List Machine) (m m' : Machine) : Prop :=
  m.roll.Moves (fetched.flatMap (spawns e)) (fetched.flatMap (ends e)) m'.roll

/-- The contexts that an advance of the machine creates, in order. -/
def created (e : Engine) (m : Machine) : List Identity := (m.fetches e).flatMap (spawns e)

/-- The contexts that end in an advance of the machine. -/
def ended (e : Engine) (m : Machine) : List Identity := (m.fetches e).flatMap (ends e)

theorem past_world (m : Machine) (step : Step) :
    (m.past step).world.spawned = m.world.spawned ∧
      (m.past step).world.nextEventId = m.world.nextEventId := by
  unfold past World.bind
  simp only
  split <;> exact ⟨rfl, rfl⟩

theorem nextEventId_adopt (w : World) (c : Context) :
    (w.adopt c).nextEventId = w.nextEventId := by
  unfold World.adopt
  split <;> rfl

theorem flatMap_live_adopt (w : World) (c : Context) :
    (w.adopt c).spawned.flatMap Context.live = c.live ++ w.spawned.flatMap Context.live := by
  unfold World.adopt
  split
  · rw [Context.live_eq_nil ‹_›, List.nil_append]
  · rfl

theorem world_settle (m : Machine) (flow : Flow) : (m.settle flow).world = m.world := by
  cases flow with
  | next => rfl
  | stop =>
    simp only [settle]
    split <;> rfl

theorem roll_settle (m : Machine) (flow : Flow) : (m.settle flow).roll = m.roll := by
  cases flow with
  | next => rfl
  | stop =>
    simp only [settle]
    split
    · rename_i hrunning
      have hlive : (m.context.pause .signal).live = m.context.live := by
        refine Context.live_congr rfl ?_
        cases hstate : m.context.state <;> simp [hstate, RunState.isRunning] at hrunning
        rfl
      rw [roll, roll, hlive]
    · rfl

theorem identity_settle (m : Machine) (flow : Flow) :
    (m.settle flow).context.identity = m.context.identity := by
  cases flow with
  | next => rfl
  | stop =>
    simp only [settle]
    split <;> rfl

end Machine

namespace Engine.KeepsIdentities

variable {e : Engine}

/-- A step keeps what its context keeps, and one that it asks to be run first
has not finished. -/
theorem run_step (hk : e.KeepsIdentities) {step : Step} {m m' : Machine} {o : Outcome}
    (hrun : step.run e m = (o, m')) :
    m'.context.identity = m.context.identity ∧
      ∀ child, o = .spawn child → child.state.isFinished = false := by
  cases hcustom : step.isCustom with
  | false =>
    have hturns : Act.Turns False False e step (step.run e) :=
      step.turns hcustom False.elim False.elim
    obtain ⟨es, o', c', -, hturn, hrun', -⟩ := hturns m
    obtain ⟨rfl, rfl⟩ := Prod.mk.inj (hrun.symm.trans hrun')
    obtain ⟨hidentity, hchild⟩ := hturn.identity
    have hkept : (m.after es).context.identity = m.context.identity := by
      rw [Machine.context_after]
      rfl
    refine ⟨hidentity.trans hkept, fun child ho => ?_⟩
    rw [(hchild child ho).2]
    rfl
  | true =>
    rcases Step.run_custom e hcustom with ⟨id, arguments, handler, -, hhandler, hsome⟩ | hnone
    · rw [hsome] at hrun
      obtain ⟨rfl, rfl⟩ := Prod.mk.inj hrun
      exact ⟨(hk id handler hhandler).identity arguments m, by simp⟩
    · rw [hnone] at hrun
      obtain ⟨rfl, rfl⟩ := Prod.mk.inj hrun
      exact ⟨rfl, by simp⟩

/-- A step that goes on or stops spawns as a handler may. -/
theorem spawns_step (hk : e.KeepsIdentities) {step : Step} {m m' : Machine} {flow : Flow}
    (hlt : m.world.nextEventId < UInt64.size) (hrun : step.run e m = (.flow flow, m')) :
    m.world.Spawns m'.world := by
  cases hcustom : step.isCustom with
  | false =>
    have hturns : Act.Turns False False e step (step.run e) :=
      step.turns hcustom False.elim False.elim
    obtain ⟨es, o, c, -, -, hrun', -⟩ := hturns m
    obtain ⟨rfl, rfl⟩ := Prod.mk.inj (hrun.symm.trans hrun')
    obtain ⟨hspawned, hnext, -⟩ := m.world_after es
    exact .of_eq hlt hspawned hnext
  | true =>
    rcases Step.run_custom e hcustom with ⟨id, arguments, handler, -, hhandler, hsome⟩ | hnone
    · rw [hsome] at hrun
      obtain ⟨-, rfl⟩ := Prod.mk.inj hrun
      exact (hk id handler hhandler).spawns arguments m hlt
    · rw [hnone] at hrun
      obtain ⟨-, rfl⟩ := Prod.mk.inj hrun
      exact .of_eq hlt rfl rfl

/-- What a step does to the contexts that are live: those that it creates are
added, and those that end in it are taken off. -/
theorem moves_step (hk : e.KeepsIdentities) {step : Step} {m m' : Machine} {o : Outcome}
    (hlt : m.world.nextEventId < UInt64.size) (hrunning : m.context.state.isRunning)
    (hstep : e.step? m.context.place = some step) (hrun : step.run e (m.past step) = (o, m')) :
    m.roll.Moves (m.spawns e) (m.ends e)
      ⟨m'.context.live ++ (o.pending ++ m'.world.spawned.flatMap Context.live),
        ⟨m'.world.nextEventId⟩⟩ := by
  obtain ⟨hpast, hpastNext⟩ := m.past_world step
  have hlive : m.context.live = [m.context.identity] :=
    Context.live_eq_singleton (RunState.isFinished_of_isRunning hrunning)
  have hown : m'.context.live ++
      (if m'.context.state.isFinished then [m.context.identity] else []) =
        [m.context.identity] := by
    rw [Context.live, (hk.run_step hrun).1]
    split <;> rfl
  cases o with
  | flow flow =>
    rw [← hpastNext] at hlt
    have hspawns := hk.spawns_step hlt hrun
    have hcounts := hspawns.counts hlt
    refine ⟨List.perm_iff_count.2 fun x => ?_, ?_⟩
    · have hx := congrArg (List.count x) hown
      have hheld := hspawns.held.count_eq x
      simp only [Machine.roll, Machine.spawns, Machine.ends, hstep, hrun, hlive, hpast,
        Outcome.pending, List.nil_append, List.count_append] at hx hheld ⊢
      omega
    · simp only [Machine.roll, Machine.spawns, hstep, hrun]
      rwa [hpastNext] at hcounts
  | spawn child =>
    obtain ⟨hspawned, hid, hnext⟩ := Step.world_of_spawn hrun
    refine ⟨List.perm_iff_count.2 fun x => ?_, ?_⟩
    · have hx := congrArg (List.count x) hown
      simp only [Machine.roll, Machine.spawns, Machine.ends, hstep, hrun, hlive, hspawned, hpast,
        Outcome.pending, List.count_append] at hx ⊢
      omega
    · simp only [Machine.roll, Machine.spawns, hstep, hrun, List.map_singleton, hid, hnext,
        hpastNext]
      exact .cons (.nil _)

/-- The steps of one context move the roll, if advances of what it spawns do. -/
theorem steps (hk : e.KeepsIdentities) {spawn : Machine → Option Machine}
    {inner : Machine → List Machine}
    (hspawn : ∀ {m m' : Machine}, m.world.nextEventId < UInt64.size → spawn m = some m' →
      Machine.Moves e (inner m) m m')
    (budget : Nat) {m m' : Machine} (hlt : m.world.nextEventId < UInt64.size)
    (hrun : Machine.steps e spawn budget m = some m') :
    Machine.Moves e (Machine.fetchesWith e spawn inner budget m) m m' := by
  induction budget generalizing m with
  | zero =>
    obtain rfl := Option.some.inj hrun
    exact .refl _
  | succ budget ih =>
    rw [Machine.steps] at hrun
    rw [Machine.fetchesWith]
    split at hrun
    · obtain rfl := Option.some.inj hrun
      rw [if_pos ‹_›]
      exact .refl _
    rename_i hnot
    rw [if_neg hnot]
    have hrunning : m.context.state.isRunning := by simpa using hnot
    cases hstep : e.step? m.context.place with
    | none =>
      -- without a step the context ends
      simp only [hstep] at hrun
      obtain rfl := Option.some.inj hrun
      have hlive : m.context.live = [m.context.identity] :=
        Context.live_eq_singleton (RunState.isFinished_of_isRunning hrunning)
      simp only [Machine.Moves, List.flatMap_cons, List.flatMap_nil, List.append_nil,
        Machine.spawns, Machine.ends, hstep]
      refine .of_ends ?_ rfl
      simp only [Machine.roll, hlive, Context.live_eq_nil (c := m.context.finish) rfl]
      exact List.perm_append_comm
    | some step =>
      simp only [hstep] at hrun ⊢
      rcases hm₁ : step.run e (m.past step) with ⟨flow | child, m₁⟩
      · have hmoved := hk.moves_step hlt hrunning hstep hm₁
        simp only [hm₁] at hrun ⊢
        have hrest := ih (by rw [Machine.world_settle]; exact hmoved.next_lt hlt) hrun
        rw [Machine.Moves, Machine.roll_settle] at hrest
        rw [Machine.Moves, List.flatMap_cons, List.flatMap_cons]
        exact hmoved.trans hrest
      · have hmoved := hk.moves_step hlt hrunning hstep hm₁
        obtain ⟨-, hunfinished⟩ := hk.run_step hm₁
        have hchild : child.live = [child.identity] :=
          Context.live_eq_singleton (hunfinished child rfl)
        simp only [hm₁] at hrun ⊢
        cases hdone : spawn ⟨child, m₁.world⟩ with
        | none => simp [hdone] at hrun
        | some done =>
          simp only [hdone] at hrun ⊢
          -- the child's advance, with the context that spawned it standing beside
          have hlt₁ : m₁.world.nextEventId < UInt64.size := hmoved.next_lt hlt
          have hinner := (hspawn (m := ⟨child, m₁.world⟩) hlt₁ hdone).beside m₁.context.live
          have hrest := ih (by rw [Machine.nextEventId_adopt]; exact hinner.next_lt hlt₁) hrun
          simp only [Machine.Moves, Machine.roll, hchild, Machine.flatMap_live_adopt,
            Machine.nextEventId_adopt] at hinner hrest
          rw [Machine.Moves, List.flatMap_cons, List.flatMap_cons, List.flatMap_append,
            List.flatMap_append]
          exact hmoved.trans (hinner.trans hrest)

/-- **An advance moves the roll as its steps say**: what they spawn is added,
and what they end is taken off. -/
theorem advance (hk : e.KeepsIdentities) {m m' : Machine}
    (hlt : m.world.nextEventId < UInt64.size) (hrun : Machine.advance e m = some m') :
    m.roll.Moves (m.created e) (m.ended e) m'.roll := by
  suffices h : ∀ depth {m m' : Machine}, m.world.nextEventId < UInt64.size →
      Machine.advanceWithin e depth m = some m' →
      Machine.Moves e (Machine.fetchesWithin e depth m) m m' from h _ hlt hrun
  intro depth
  induction depth with
  | zero =>
    intro m m' hlt hrun
    have hmoved : Machine.Moves e
        (Machine.fetchesWith e (fun _ => none) (fun _ => []) e.stepBudget m) m m' :=
      hk.steps (fun _ h => by simp at h) _ hlt hrun
    exact hmoved
  | succ depth ih => exact fun hlt hrun => hk.steps ih _ hlt hrun

/-! ## Whose steps are executed -/

theorem identity_steps (hk : e.KeepsIdentities) {spawn : Machine → Option Machine} (budget : Nat)
    {m m' : Machine} (hrun : Machine.steps e spawn budget m = some m') :
    m'.context.identity = m.context.identity := by
  induction budget generalizing m with
  | zero =>
    obtain rfl := Option.some.inj hrun
    rfl
  | succ budget ih =>
    rw [Machine.steps] at hrun
    split at hrun
    · obtain rfl := Option.some.inj hrun
      rfl
    split at hrun
    · obtain rfl := Option.some.inj hrun
      rfl
    split at hrun
    · rename_i flow m₁ hm₁
      rw [ih hrun, Machine.identity_settle]
      exact (hk.run_step hm₁).1
    · rename_i child m₁ hm₁
      split at hrun
      · simp at hrun
      · exact (ih hrun).trans (hk.run_step hm₁).1

/-- A context that is advanced keeps what contexts keep. -/
theorem identity_advance (hk : e.KeepsIdentities) {m m' : Machine}
    (hrun : Machine.advance e m = some m') : m'.context.identity = m.context.identity := by
  unfold Machine.advance at hrun
  cases hdepth : e.spawnDepth with
  | zero =>
    rw [hdepth] at hrun
    exact hk.identity_steps _ hrun
  | succ depth =>
    rw [hdepth] at hrun
    exact hk.identity_steps _ hrun

theorem fetchedWith (hk : e.KeepsIdentities) {spawn : Machine → Option Machine}
    {inner : Machine → List Machine}
    (hinner : ∀ {m x : Machine}, x ∈ inner m → x.context.identity = m.context.identity ∨
      x.context.identity ∈ (inner m).flatMap (Machine.spawns e))
    (budget : Nat) {m x : Machine} (hx : x ∈ Machine.fetchesWith e spawn inner budget m) :
    x.context.identity = m.context.identity ∨
      x.context.identity ∈
        (Machine.fetchesWith e spawn inner budget m).flatMap (Machine.spawns e) := by
  induction budget generalizing m with
  | zero => simp [Machine.fetchesWith] at hx
  | succ budget ih =>
    rw [Machine.fetchesWith] at hx ⊢
    split at hx
    · simp at hx
    rename_i hrunning
    rw [if_neg hrunning, List.flatMap_cons, List.mem_append]
    rcases List.mem_cons.1 hx with rfl | hx
    · exact .inl rfl
    split at hx
    · simp at hx
    rename_i step hstep
    split at hx
    · rename_i flow m₁ hm₁
      have hsame : (m₁.settle flow).context.identity = m.context.identity :=
        (Machine.identity_settle m₁ flow).trans (hk.run_step hm₁).1
      rw [← hsame]
      exact (ih hx).imp_right .inr
    · rename_i child m₁ hm₁
      have hsame : m₁.context.identity = m.context.identity := (hk.run_step hm₁).1
      have hspawns : m.spawns e = [child.identity] := by
        simp only [Machine.spawns, hstep, hm₁]
      rw [List.flatMap_append, List.mem_append]
      rcases List.mem_append.1 hx with hx | hx
      -- the steps of the context spawned are its own, or those of others that it spawned
      · rcases hinner hx with hid | hid
        · exact .inr (.inl (by rw [hid, hspawns]; exact List.mem_singleton_self _))
        · exact .inr (.inr (.inl hid))
      split at hx
      · simp at hx
      · rename_i done hdone
        rcases ih hx with hid | hid
        · exact .inl (hid.trans hsame)
        · exact .inr (.inr (.inr hid))

/-- **The contexts that look for steps in an advance** are the one advanced and
those that it creates. -/
theorem fetched (hk : e.KeepsIdentities) {m x : Machine} (hx : x ∈ m.fetches e) :
    x.context.identity = m.context.identity ∨ x.context.identity ∈ m.created e := by
  suffices h : ∀ depth {m x : Machine}, x ∈ Machine.fetchesWithin e depth m →
      x.context.identity = m.context.identity ∨
        x.context.identity ∈ (Machine.fetchesWithin e depth m).flatMap (Machine.spawns e) from
    h _ hx
  intro depth
  induction depth with
  | zero => exact fun hx => hk.fetchedWith (fun h => by simp at h) _ hx
  | succ depth ih => exact fun hx => hk.fetchedWith ih _ hx

end Engine.KeepsIdentities

end Cutscene
