import Cutscene.Proofs.Program.Child
import Cutscene.Proofs.Run.Turn
/-!
# Running — places that stand

A place stands when it is that of a step of a body held (`Library.Stands`).
Every step of a body sends control to places that stand, and after a step that
is not the last of its program the next index stands too
(`Library.Holds.lands`). So wherever the places that a context keeps all stand
(`Context.Placed`), one turn leaves them standing (`Context.Placed.turn`).
-/

namespace Cutscene

/-- The place is that of a step of a body held. -/
def Library.Stands (l : Library) (p : Place) : Prop :=
  ∃ b, l.Holds b ∧ b.key = p.program ∧ p.index ≤ b.block.width

/-- The place stands, and belongs to the event. -/
def Library.StandsIn (l : Library) (event : String) (p : Place) : Prop :=
  l.Stands p ∧ p.program.event = event

/-- Wherever the step sends control within its event, the place has the
property. -/
def Step.Lands (P : Place → Prop) : Step → Prop
  | .enterChoice bodies => ∀ body ∈ bodies, P ⟨body, 0⟩
  | .enterEach _ _ body => P ⟨body, 0⟩
  | .nextItem _ exit => P exit
  | .leaveLoop _ exit => P exit
  | .jump target _ => P target
  | .saveJump target => P target
  | .spawn body => P ⟨body, 0⟩
  | step => ∀ place, step.Leads place → P place

/-- Is the step one that programs end in? -/
def Step.isTerminal : Step → Bool
  | .leave | .resume _ | .repeatLoop .. | .nextItem .. => true
  | _ => false

/-- The exit and the terminal of the innermost loop at a site stand, in the
site's event. -/
def Site.LoopStands (l : Library) (s : Site) : Prop :=
  ∀ around, s.loop = some around →
    l.StandsIn s.key.event around.exit ∧ l.StandsIn s.key.event around.terminal

/-! ## The steps of a command -/

theorem Arms.exists_zipIdx {sort : ArmSort} {s : Site} {position : Nat} {resume : Place}
    {key : BodyKey} : (arms : Arms sort) → (index : Nat) →
      key ∈ ((arms.guards.zipIdx index).map fun (guard, index) =>
        (guard, BodyKey.child s.key position (sort.slot index))).map (·.2) →
      ∃ b ∈ arms.children s position index resume, b.key = key
  | .nil, _, h => by simp [Arms.guards] at h
  | .cons guard body rest, index, h => by
    simp only [Arms.guards, List.zipIdx_cons, List.map_cons, List.mem_cons] at h
    rcases h with rfl | h
    · exact ⟨_, List.mem_cons_self, rfl⟩
    · obtain ⟨b, hb, hkey⟩ := Arms.exists_zipIdx rest (index + 1) h
      exact ⟨b, List.mem_cons_of_mem _ hb, hkey⟩

theorem Arms.exists_keyed {sort : ArmSort} {s : Site} {position : Nat} {resume : Place}
    {key : BodyKey} (arms : Arms sort) (h : key ∈ (arms.keyed s.key position).map (·.2)) :
    ∃ b ∈ arms.children s position 0 resume, b.key = key :=
  arms.exists_zipIdx 0 h

theorem OptionalBlock.exists_key {s : Site} {resume : Place} {key : BodyKey} {o : OptionalBlock}
    (h : o.key? s.key = some key) : ∃ b ∈ o.children s resume, b.key = key := by
  cases o with
  | absent => simp [OptionalBlock.key?] at h
  | present body => exact ⟨_, List.mem_singleton_self _, Option.some.inj h⟩

/-- The command leaves its place only to go on, or into a body that it holds,
and comes back from there. -/
def Command.isStraight : Command → Bool
  | .breakLoop | .continueLoop | .jump .. | .returnJump => false
  | _ => true

/-- **Where the steps of a command send control**: into the bodies that it
holds, and, unless it is straight, to the ends of the loop around it and to
labels. -/
theorem Entry.lands {P : Place → Prop} {s : Site} {e : Entry} {step : Step}
    (hstep : step ∈ e.steps s) (hchild : ∀ c ∈ e.children s, P ⟨c.key, 0⟩)
    (hloop : e.command.isStraight = false → ∀ around, s.loop = some around →
      P around.exit ∧ P around.terminal)
    (hlabel : e.command.isStraight = false → ∀ name label, s.labels.get? name = some label →
      P label.place) : step.Lands P := by
  cases hcommand : e.command <;>
    simp only [Entry.steps, Entry.children, hcommand, Command.steps] at hstep hchild hloop hlabel
  case ifElse branches otherwise =>
    rw [List.mem_singleton.1 hstep]
    rintro place ⟨body, hbody | hbody, rfl⟩
    · rw [List.map_map] at hbody
      obtain ⟨c, hc, rfl⟩ := branches.exists_keyed hbody
      exact hchild _ (List.mem_append_left _ hc)
    · obtain ⟨c, hc, rfl⟩ := OptionalBlock.exists_key (s := s.child e.position .otherwise) hbody
      exact hchild _ (List.mem_append_right _ hc)
  case switch subject cases default =>
    rw [List.mem_singleton.1 hstep]
    rintro place ⟨body, hbody | hbody, rfl⟩
    · rw [List.map_map] at hbody
      obtain ⟨c, hc, rfl⟩ := cases.exists_keyed hbody
      exact hchild _ (List.mem_append_left _ hc)
    · obtain ⟨c, hc, rfl⟩ := OptionalBlock.exists_key (s := s.child e.position .default) hbody
      exact hchild _ (List.mem_append_right _ hc)
  case choices options =>
    simp only [List.mem_cons, List.not_mem_nil, or_false] at hstep
    rcases hstep with rfl | rfl
    · exact fun place hplace => hplace.elim
    · intro body hbody
      obtain ⟨c, hc, rfl⟩ := options.exists_keyed hbody
      exact hchild _ hc
  case loop tester body =>
    rw [List.mem_singleton.1 hstep]
    rintro place rfl
    exact hchild _ (List.mem_singleton_self _)
  case forEach source ref body =>
    rw [List.mem_singleton.1 hstep]
    exact hchild _ (List.mem_singleton_self _)
  case breakLoop =>
    cases hsite : s.loop with
    | none =>
      rw [hsite] at hstep
      rw [List.mem_singleton.1 hstep]
      exact fun place hplace => hplace.elim
    | some around =>
      rw [hsite] at hstep
      rw [List.mem_singleton.1 hstep]
      exact (hloop rfl around hsite).1
  case continueLoop =>
    cases hsite : s.loop with
    | none =>
      rw [hsite] at hstep
      rw [List.mem_singleton.1 hstep]
      exact fun place hplace => hplace.elim
    | some around =>
      rw [hsite] at hstep
      rw [List.mem_singleton.1 hstep]
      rintro place rfl
      exact (hloop rfl around hsite).2
  case label name => simp at hstep
  case jump sort name =>
    rw [List.mem_singleton.1 hstep]
    unfold Site.jump
    cases hget : s.labels.get? name with
    | none => exact fun place hplace => hplace.elim
    | some label => cases sort <;> exact hlabel rfl name label hget
  case independent body =>
    rw [List.mem_singleton.1 hstep]
    exact hchild _ (List.mem_singleton_self _)
  -- the other commands make one step, which sends control nowhere
  all_goals
    rw [List.mem_singleton.1 hstep]
    exact fun place hplace => hplace.elim

/-! ## Bodies held -/

namespace Library.Holds

variable {l : Library} {b c : Body}

/-- The first step of a body held stands. -/
theorem stands (h : l.Holds b) : l.Stands ⟨b.key, 0⟩ := ⟨b, h, rfl, Nat.zero_le _⟩

/-- The step after an entry stands. -/
theorem stands_after (h : l.Holds b) {e : Entry} (he : e ∈ b.entries) :
    l.StandsIn b.key.event ⟨b.key, e.index + e.command.width⟩ :=
  ⟨⟨b, h, rfl, Body.index_add_width_le he⟩, rfl⟩

theorem stands_child (h : l.Holds b) {e : Entry} (he : e ∈ b.entries)
    (hc : c ∈ e.children b.site) : l.StandsIn b.key.event ⟨c.key, 0⟩ := by
  have hchild : c ∈ b.children := Body.mem_children_iff.2 ⟨e, he, hc⟩
  obtain ⟨position, slot, hkey⟩ := Body.key_of_mem_children hchild
  exact ⟨(h.child hchild).stands, by rw [hkey, BodyKey.event_child]⟩

theorem loopStands (h : l.Holds b) : b.site.LoopStands l := by
  refine h.induction (motive := fun b => b.site.LoopStands l) ?_ ?_
  · exact fun h around haround => by simp [EventDef.body, Block.unit, Site.ofUnit] at haround
  · intro b c hb ih hc
    have hheld := hb.child hc
    obtain ⟨e, he, hc⟩ := Body.mem_children_iff.1 hc
    have hafter := hb.stands_after he
    cases Entry.child_of_mem hc with
    | arm hslot hbody => exact ih
    | loop h =>
      rintro around haround
      obtain rfl := Option.some.inj haround
      rw [h] at hafter
      exact ⟨hafter, ⟨_, hheld, rfl, Nat.le_refl _⟩, rfl⟩
    | forEach h =>
      rintro around haround
      obtain rfl := Option.some.inj haround
      rw [h] at hafter
      exact ⟨hafter, ⟨_, hheld, rfl, Nat.le_refl _⟩, rfl⟩
    | independent h =>
      exact fun around haround => by simp [Block.unit, Site.ofUnit] at haround

/-- The step that a body's program ends in lands, and is a terminal. -/
theorem terminal_lands (h : l.Holds b) :
    b.terminal.isTerminal ∧ b.terminal.Lands (l.StandsIn b.key.event) := by
  refine h.induction (motive := fun b =>
    b.terminal.isTerminal ∧ b.terminal.Lands (l.StandsIn b.key.event)) ?_ ?_
  · exact fun h => ⟨rfl, fun place hplace => hplace.elim⟩
  · intro b c hb ih hc
    obtain ⟨e, he, hc⟩ := Body.mem_children_iff.1 hc
    have hafter := hb.stands_after he
    cases Entry.child_of_mem hc with
    | arm hslot hbody => exact ⟨rfl, fun place hplace => hplace ▸ hafter⟩
    | loop h =>
      rw [h] at hafter
      exact ⟨rfl, fun place hplace => hplace ▸ hafter⟩
    | forEach h =>
      rw [h] at hafter
      exact ⟨rfl, hafter⟩
    | independent h => exact ⟨rfl, fun place hplace => hplace.elim⟩

/-- The steps of a command land. -/
theorem entry_lands (h : l.Holds b) {e : Entry} (he : e ∈ b.entries) {step : Step}
    (hstep : step ∈ e.steps b.site) : step.Lands (l.StandsIn b.key.event) := by
  refine Entry.lands hstep (fun c hc => h.stands_child he hc) (fun _ => h.loopStands)
    fun _ name label hlabel => ?_
  obtain ⟨x, hx, hevent, e', he', hcommand, rfl⟩ := h.exists_label hlabel
  have hafter := hx.stands_after he'
  rw [hcommand, hevent] at hafter
  exact hafter

/-- **Every step of a program lands in its event**, and after one that is no
terminal the next index stands. -/
theorem lands (h : l.Holds b) {i : Nat} {step : Step} (hstep : b.program.steps[i]? = some step) :
    step.Lands (l.StandsIn b.key.event) ∧
      (step.isTerminal = false → l.Stands ⟨b.key, i + 1⟩) := by
  rcases Body.step_cases hstep with ⟨-, rfl⟩ | ⟨e, he, k, hk, rfl, hget⟩
  · refine ⟨h.terminal_lands.2, fun hnot => ?_⟩
    rw [h.terminal_lands.1] at hnot
    simp at hnot
  · have hle := Body.index_add_width_le he
    refine ⟨h.entry_lands he (List.mem_of_getElem? hget), fun _ => ⟨b, h, rfl, ?_⟩⟩
    show e.index + k + 1 ≤ b.block.width
    omega

end Library.Holds

/-! ## Contexts -/

/-- The second context stands where the first one does, with the same calls,
returns and iterations. -/
structure Context.SameControl (c c' : Context) : Prop where
  root : c'.root = c.root
  place : c'.place = c.place
  calls : c'.calls = c.calls
  returns : c'.returns = c.returns
  iterations : c'.iterations = c.iterations

/-- The handler leaves control as it is, unless it finishes the context, and
spawns no context. -/
def Handler.KeepsControl (h : Handler) : Prop :=
  ∀ arguments m,
    ((h arguments m).2.context.state.isFinished = false →
      m.context.SameControl (h arguments m).2.context) ∧
    (h arguments m).2.world.spawned = m.world.spawned

/-- All custom handlers leave control as it is. -/
def Engine.KeepsControl (e : Engine) : Prop :=
  ∀ id handler, e.handlers.get? id = some handler → handler.KeepsControl

theorem Engine.keepsControl_ofLibrary (l : Library) : (Engine.ofLibrary l).KeepsControl :=
  fun id handler h => by simp [Engine.ofLibrary] at h

theorem Engine.keepsControl_tells (l : Library) : (Engine.handling l .tells).KeepsControl := by
  intro id handler hhandler arguments m
  obtain rfl := Engine.eq_of_handling hhandler
  exact ⟨fun _ => ⟨rfl, rfl, rfl, rfl, rfl⟩, rfl⟩

/-- The places that the context keeps all stand. -/
structure Context.Placed (l : Library) (c : Context) : Prop where
  root : l.Stands ⟨c.root, 0⟩
  place : l.Stands c.place
  calls : ∀ frame ∈ c.calls, l.Stands frame.place
  returns : ∀ place ∈ c.returns, l.Stands place

namespace Context.Placed

variable {e : Engine} {l : Library} {c c' : Context}

theorem start (he : e.Serves l) (hl : l.Lawful) {id : EventId} {name : String} {ambient : Ambient}
    {event : Compiled} (h : e.event? name = some event) :
    (Context.start id name (.root name) ambient).Placed l := by
  rw [he.event?] at h
  obtain ⟨d, hd, -⟩ := Option.map_eq_some_iff.1 h
  have hstands : l.Stands ⟨.root name, 0⟩ := by
    have := (Library.Holds.event hd).stands
    rwa [EventDef.body, Body.key, Block.unit, Site.ofUnit, hl.name_eq hd] at this
  exact ⟨hstands, hstands, by simp [Context.start], by simp [Context.start]⟩

/-- Whatever leaves control as it is leaves the places standing. -/
theorem of_control (h : c.Placed l) (hc : c.SameControl c') : c'.Placed l :=
  ⟨hc.root ▸ h.root, hc.place ▸ h.place, hc.calls ▸ h.calls, hc.returns ▸ h.returns⟩

theorem halt (h : c.Placed l) (halt : Halt) : (halt.apply c).Placed l := by
  cases halt with
  | pause shown => exact h.of_control ⟨rfl, rfl, rfl, rfl, rfl⟩
  | wait ms => exact h.of_control ⟨rfl, rfl, rfl, rfl, rfl⟩
  | finish => exact ⟨h.root, h.place, by simp [Halt.apply, finish], by simp [Halt.apply, finish]⟩

/-- A custom step without a handler leaves the places standing. -/
theorem skip (h : c.Placed l) (he : e.Serves l) {step : Step} {vars : Attributes}
    (hstep : e.step? c.place = some step) (hcustom : step.isCustom) :
    Context.Placed l { c.goto (c.place.plus 1) with attributes := vars } := by
  obtain ⟨b, hb, hkey, hget⟩ := he.exists_step hstep
  have hterminal : step.isTerminal = false := by
    cases step with
    | custom id arguments => rfl
    | _ => simp [Step.isCustom] at hcustom
  have hnext := (hb.lands hget).2 hterminal
  rw [hkey] at hnext
  exact ⟨h.root, hnext, h.calls, h.returns⟩

/-- **One turn leaves the places standing**, unless it finishes the context,
and so do those of a context that it spawns. -/
theorem turn (h : c.Placed l) (he : e.Serves l) (hl : l.Lawful) {step : Step} {id : EventId}
    {vars : Attributes} {o : Outcome} (hstep : e.step? c.place = some step)
    (hturn : step.Turn e id { c.goto (c.place.plus 1) with attributes := vars } o c') :
    (c'.state.isFinished = false → c'.Placed l) ∧ ∀ child, o = .spawn child → child.Placed l := by
  obtain ⟨b, hb, hkey, hget⟩ := he.exists_step hstep
  obtain ⟨hlands, hnext⟩ := hb.lands hget
  have hplaced : ∀ {place : Place}, l.Stands place →
      Context.Placed l { c.goto place with attributes := vars } :=
    fun hplace => ⟨h.root, hplace, h.calls, h.returns⟩
  have hpast : step.isTerminal = false →
      Context.Placed l { c.goto (c.place.plus 1) with attributes := vars } :=
    fun hterminal => hplaced (by
      have := hnext hterminal
      rwa [hkey] at this)
  have hfirst : l.Stands ⟨c.place.program, 0⟩ := hkey ▸ hb.stands
  cases hturn with
  | halt a halt =>
    cases halt with
    | none => exact ⟨fun _ => hpast rfl, by simp⟩
    | some halt => exact ⟨fun _ => (hpast rfl).halt halt, by simp⟩
  | @go step place hleads =>
    -- a step that leads to a place lands where it leads
    have hplace : l.Stands place := by
      cases step <;> first | exact (hlands _ hleads).1 | exact hleads.elim
    exact ⟨fun _ => hplaced hplace, by simp⟩
  | stay hstay =>
    -- no terminal stays, so there is a next step
    have hterminal : step.isTerminal = false := by
      cases step <;> simp [Step.mayStay] at hstay <;> rfl
    exact ⟨fun _ => hpast hterminal, by simp⟩
  | openChoices labels options =>
    exact ⟨fun _ => (hpast rfl).of_control ⟨rfl, rfl, rfl, rfl, rfl⟩, by simp⟩
  | chosen hbody => exact ⟨fun _ => ⟨h.root, (hlands _ hbody).1, h.calls, h.returns⟩, by simp⟩
  | unchosen bodies => exact ⟨fun _ => (hpast rfl).of_control ⟨rfl, rfl, rfl, rfl, rfl⟩, by simp⟩
  | again tester exit => exact ⟨fun _ => ⟨h.root, hfirst, h.calls, h.returns⟩, by simp⟩
  | iterate source ref body first rest =>
    exact ⟨fun _ => ⟨h.root, hlands.1, h.calls, h.returns⟩, by simp⟩
  | nextItem ref exit hc hsome => exact ⟨fun _ => ⟨h.root, hfirst, h.calls, h.returns⟩, by simp⟩
  | noItem ref exit => exact ⟨fun _ => ⟨h.root, hlands.1, h.calls, h.returns⟩, by simp⟩
  | leaveLoop each exit => exact ⟨fun _ => ⟨h.root, hlands.1, h.calls, h.returns⟩, by simp⟩
  | jump target drop => exact ⟨fun _ => ⟨h.root, hlands.1, h.calls, h.returns⟩, by simp⟩
  | saveJump target =>
    exact ⟨fun _ => ⟨h.root, hlands.1, h.calls,
      List.forall_mem_cons.2 ⟨(hpast rfl).place, h.returns⟩⟩, by simp⟩
  | returnJump hc =>
    have hreturns := h.returns
    rw [show c.returns = _ from hc] at hreturns
    obtain ⟨hplace, houter⟩ := List.forall_mem_cons.1 hreturns
    exact ⟨fun _ => ⟨h.root, hplace, h.calls, houter⟩, by simp⟩
  | spawn body =>
    refine ⟨fun _ => hpast rfl, fun child hchild => ?_⟩
    obtain rfl := Outcome.spawn.inj hchild
    exact ⟨hlands.1, hlands.1, by simp [Context.start], by simp [Context.start]⟩
  | call params hevent vars' =>
    have hstart : (Context.start id _ _ c.ambient).Placed l := start he hl hevent
    exact ⟨fun _ => ⟨h.root, hstart.root,
      List.forall_mem_cons.2 ⟨(hpast rfl).place, h.calls⟩, h.returns⟩, by simp⟩
  | callAsync params hevent vars' =>
    refine ⟨fun _ => hpast rfl, fun child hchild => ?_⟩
    obtain rfl := Outcome.spawn.inj hchild
    exact start he hl hevent
  | finish hc =>
    exact ⟨fun hfinished => by simp [finish, RunState.isFinished] at hfinished, by simp⟩
  | leave hc =>
    have hcalls := h.calls
    rw [show c.calls = _ from hc] at hcalls
    obtain ⟨hframe, houter⟩ := List.forall_mem_cons.1 hcalls
    exact ⟨fun _ => ⟨h.root, hframe, houter, h.returns⟩, by simp⟩

end Context.Placed

/-- The handler leaves its context, unless it finishes that, and the contexts
that it spawns at places that stand. -/
def Handler.KeepsPlaces (l : Library) (h : Handler) : Prop :=
  ∀ arguments m, m.context.Placed l → (∀ c ∈ m.world.spawned, c.Placed l) →
    ((h arguments m).2.context.state.isFinished = false → (h arguments m).2.context.Placed l) ∧
    ∀ c ∈ (h arguments m).2.world.spawned, c.Placed l

/-- All custom handlers leave contexts at places that stand. -/
def Engine.KeepsPlaces (e : Engine) (l : Library) : Prop :=
  ∀ id handler, e.handlers.get? id = some handler → handler.KeepsPlaces l

theorem Engine.KeepsControl.keepsPlaces {e : Engine} (hk : e.KeepsControl) (l : Library) :
    e.KeepsPlaces l := by
  intro id handler hhandler arguments m hc hw
  obtain ⟨hcontrol, hspawned⟩ := hk id handler hhandler arguments m
  refine ⟨fun hfinished => hc.of_control (hcontrol hfinished), fun c hc => ?_⟩
  rw [hspawned] at hc
  exact hw c hc

theorem Engine.keepsPlaces_posts {l : Library} (hl : l.Lawful) {event : String}
    (hevent : ((Engine.handling l (.posts event)).event? event).isSome) :
    (Engine.handling l (.posts event)).KeepsPlaces l := by
  intro id handler hhandler arguments m hc hw
  obtain rfl := Engine.eq_of_handling hhandler
  obtain ⟨compiled, hcompiled⟩ := Option.isSome_iff_exists.1 hevent
  have he : Engine.Serves (.handling l (.posts event)) l := .ofLibrary l
  have hpost : (Context.start (EventId.next ⟨m.world.nextEventId⟩) event (.root event)
      m.context.ambient).Placed l := .start he hl hcompiled
  exact ⟨fun _ => hc, List.forall_mem_cons.2 ⟨hpost.of_control ⟨rfl, rfl, rfl, rfl, rfl⟩, hw⟩⟩

end Cutscene
