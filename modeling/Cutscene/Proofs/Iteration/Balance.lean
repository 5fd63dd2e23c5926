import Cutscene.Proofs.Iteration.Depth
import Cutscene.Proofs.Scheduler.Maintain
/-!
# Iterations — the stack matches the place

A context is balanced when as many iterations are under way as there are
around its place and around the places of its calls, and every one of them is
at one of its items (`Context.Balanced`). A step leads where the depths
require, and its turn moves the stack by the same amount
(`Context.Balanced.turn`), so balance is maintained, and every live context of
a reachable scheduler is balanced (`Scheduler.Reachable.balanced`).

Without jumps that keep their origin there is nothing to return to, which is
part of the invariant.
-/

namespace Cutscene

/-- The iterations around the places that calls return to. -/
def Library.depthOfCalls (l : Library) (calls : List CallFrame) : Nat :=
  calls.foldr (fun frame depth => l.depth frame.place.program + depth) 0

/-- The iterations around the context's place and around those of its calls. -/
def Library.depthOf (l : Library) (c : Context) : Nat :=
  l.depth c.place.program + l.depthOfCalls c.calls

/-- As many iterations are under way as there are around the context's places,
every one is at an item, and no jump is to be returned from. -/
structure Context.Balanced (l : Library) (c : Context) : Prop where
  length : c.iterations.length = l.depthOf c
  index : ∀ i ∈ c.iterations, i.index < i.items.size
  returns : c.returns = []

theorem Iteration.index_lt_of_current? {i : Iteration} (h : i.current?.isSome) :
    i.index < i.items.size := by
  obtain ⟨item, hitem⟩ := Option.isSome_iff_exists.1 h
  exact (Array.getElem?_eq_some_iff.1 hitem).1

namespace Context.Balanced

variable {e : Engine} {l : Library} {c c' : Context}

theorem start (id : EventId) (name : String) {root : BodyKey} (ambient : Ambient)
    (h : l.depth root = 0) : (Context.start id name root ambient).Balanced l :=
  ⟨h.symm, by simp [Context.start], rfl⟩

theorem of_control (h : c.Balanced l) (hc : c.SameControl c') : c'.Balanced l := by
  refine ⟨?_, hc.iterations ▸ h.index, hc.returns ▸ h.returns⟩
  rw [hc.iterations, h.length, Library.depthOf, Library.depthOf, hc.place, hc.calls]

/-- A place that so many iterations fewer are around is as good once they are
dropped. -/
theorem drop (h : c.Balanced l) {place : Place} {vars : Attributes} {count : Nat}
    (hd : l.depth place.program + count = l.depth c.place.program) :
    Context.Balanced l
      { { c with iterations := c.iterations.drop count }.goto place with attributes := vars } := by
  refine ⟨?_, fun i hi => h.index i (List.mem_of_mem_drop hi), h.returns⟩
  show (c.iterations.drop count).length = l.depth place.program + l.depthOfCalls c.calls
  have hlength := h.length
  rw [Library.depthOf] at hlength
  rw [List.length_drop]
  omega

/-- A place as deep as the context's is as good. -/
theorem goto (h : c.Balanced l) {place : Place} {vars : Attributes}
    (hd : l.depth place.program = l.depth c.place.program) :
    Context.Balanced l { c.goto place with attributes := vars } := by
  have hnone : l.depth place.program + 0 = l.depth c.place.program := hd
  exact h.drop hnone

theorem halt (h : c.Balanced l) (halt : Halt) :
    (halt.apply c).state.isFinished = false → (halt.apply c).Balanced l := by
  intro hfinished
  cases halt with
  | pause shown => exact h.of_control ⟨rfl, rfl, rfl, rfl, rfl⟩
  | wait ms => exact h.of_control ⟨rfl, rfl, rfl, rfl, rfl⟩
  | finish => simp [Halt.apply, Context.finish, RunState.isFinished] at hfinished

/-- **One turn keeps the balance**, unless it finishes the context, and a
context that it spawns is balanced. -/
theorem turn (h : c.Balanced l) (he : e.Serves l) (hl : l.Lawful) (hj : l.JumpsInward)
    {step : Step} {id : EventId} {vars : Attributes} {o : Outcome}
    (hstep : e.step? c.place = some step)
    (hturn : step.Turn e id { c.goto (c.place.plus 1) with attributes := vars } o c') :
    (c'.state.isFinished = false → c'.Balanced l) ∧
      ∀ child, o = .spawn child → child.Balanced l := by
  obtain ⟨b, hb, hkey, hget⟩ := he.exists_step hstep
  have hfits : step.Fits l.depth c.place.program := hkey ▸ hb.fits hl hj hget
  -- a step runs with the place past it, which is in the same body
  have hpast : Context.Balanced l { c.goto (c.place.plus 1) with attributes := vars } :=
    h.goto rfl
  have hlength := h.length
  rw [Library.depthOf] at hlength
  cases hturn with
  | halt a halt =>
    cases halt with
    | none => exact ⟨fun _ => hpast, by simp⟩
    | some halt => exact ⟨hpast.halt halt, by simp⟩
  | @go step place hleads =>
    have hd : l.depth place.program = l.depth c.place.program := by
      cases step <;> first | exact hfits _ hleads | exact hleads.elim
    exact ⟨fun _ => h.goto hd, by simp⟩
  | stay hstay => exact ⟨fun _ => hpast, by simp⟩
  | openChoices labels options =>
    exact ⟨fun _ => hpast.of_control ⟨rfl, rfl, rfl, rfl, rfl⟩, by simp⟩
  | chosen hbody =>
    have hto : Context.Balanced l { c.goto ⟨_, 0⟩ with attributes := vars } :=
      h.goto (hfits _ hbody)
    exact ⟨fun _ => hto.of_control ⟨rfl, rfl, rfl, rfl, rfl⟩, by simp⟩
  | unchosen bodies => exact ⟨fun _ => hpast.of_control ⟨rfl, rfl, rfl, rfl, rfl⟩, by simp⟩
  | again tester exit =>
    have hto : Context.Balanced l { c.goto ⟨c.place.program, 0⟩ with attributes := vars } :=
      h.goto rfl
    exact ⟨fun _ => hto.of_control ⟨rfl, rfl, rfl, rfl, rfl⟩, by simp⟩
  | iterate source ref body first rest =>
    -- one more under way, in a body that has one more around it
    refine ⟨fun _ => ⟨?_, List.forall_mem_cons.2 ⟨by simp, h.index⟩, h.returns⟩, by simp⟩
    show (c.iterations.length + 1) = l.depth body + _
    rw [show l.depth body = _ from hfits, hlength]
    exact Nat.add_right_comm _ _ _
  | @nextItem ref exit current outer hc hsome =>
    have hc : c.iterations = current :: outer := hc
    have hindex := h.index
    rw [hc] at hindex hlength
    refine ⟨fun _ => ⟨hlength, List.forall_mem_cons.2
      ⟨Iteration.index_lt_of_current? hsome, (List.forall_mem_cons.1 hindex).2⟩, h.returns⟩,
      by simp⟩
  | noItem ref exit =>
    refine ⟨fun _ => ?_, by simp⟩
    rw [← List.drop_one]
    exact h.drop hfits
  | leaveLoop each exit =>
    refine ⟨fun _ => ?_, by simp⟩
    cases each with
    | false => exact h.goto hfits
    | true =>
      rw [if_pos rfl, ← List.drop_one]
      exact h.drop hfits
  | jump target drop =>
    obtain ⟨hle, rfl⟩ : l.depth target.program ≤ l.depth c.place.program ∧
      drop = l.depth c.place.program - l.depth target.program := hfits
    exact ⟨fun _ => h.drop (Nat.add_sub_of_le hle), by simp⟩
  -- inward jumps keep no origin, so there is never one to return to
  | saveJump target => exact hfits.elim
  | returnJump hc =>
    have hc : c.returns = _ := hc
    rw [h.returns] at hc
    simp at hc
  | spawn body =>
    refine ⟨fun _ => hpast, fun child hchild => ?_⟩
    obtain rfl := Outcome.spawn.inj hchild
    exact start _ _ _ hfits
  | @call event callee params hevent vars' =>
    -- the caller's place is among the calls now, and around an event there is no iteration
    refine ⟨fun _ => ⟨?_, h.index, h.returns⟩, by simp⟩
    show c.iterations.length = l.depth (.root event) + l.depthOf c
    rw [Library.depth_root, Nat.zero_add]
    exact h.length
  | callAsync params hevent vars' =>
    refine ⟨fun _ => hpast, fun child hchild => ?_⟩
    obtain rfl := Outcome.spawn.inj hchild
    exact start _ _ _ (Library.depth_root _)
  | finish hc =>
    exact ⟨fun hfinished => by simp [finish, RunState.isFinished] at hfinished, by simp⟩
  | @leave frame outer hc =>
    have hc : c.calls = frame :: outer := hc
    -- only an event ends in this step
    have hzero : l.depth c.place.program = 0 := hfits
    refine ⟨fun _ => ⟨?_, h.index, h.returns⟩, by simp⟩
    rw [hzero, hc, Nat.zero_add] at hlength
    exact hlength

end Context.Balanced

variable {e : Engine} {l : Library}

/-- **Balance is maintained.** -/
theorem Engine.Serves.maintains_balanced (he : e.Serves l) (hl : l.Lawful) (hj : l.JumpsInward)
    (hk : e.KeepsControl) : e.Maintains fun c => c.Placed l ∧ c.Balanced l := by
  have hplaced := he.maintains_placed hl (hk.keepsPlaces l)
  refine ⟨⟨?turn, ?skip, ?custom, ?pause, ?wake, ?countDown⟩, ?choose⟩
  case turn =>
    intro c c' step id vars o hc hrunning hstep hcustom hturn hexecutes
    obtain ⟨hc₁, hchild₁⟩ := hplaced.turn hc.1 hrunning hstep hcustom hturn hexecutes
    obtain ⟨hc₂, hchild₂⟩ := hc.2.turn he hl hj hstep hturn
    exact ⟨fun hf => ⟨hc₁ hf, hc₂ hf⟩, fun child ho => ⟨hchild₁ child ho, hchild₂ child ho⟩⟩
  case skip =>
    intro c step vars hc hrunning hstep hcustom
    exact ⟨hplaced.skip hc.1 hrunning hstep hcustom, hc.2.goto rfl⟩
  case custom =>
    intro m id arguments handler hhandler hc hrunning hw
    obtain ⟨hcontrol, hkept⟩ := hk id handler hhandler arguments m
    refine ⟨fun hf => ?_, fun c hc => hw c (hkept ▸ hc)⟩
    exact ⟨hc.1.of_control (hcontrol hf), hc.2.of_control (hcontrol hf)⟩
  case pause =>
    intro c hc hrunning
    exact ⟨hplaced.pause hc.1 hrunning, hc.2.of_control ⟨rfl, rfl, rfl, rfl, rfl⟩⟩
  case wake =>
    intro c hc hpaused
    exact ⟨hplaced.wake hc.1 hpaused, hc.2.of_control ⟨rfl, rfl, rfl, rfl, rfl⟩⟩
  case choose =>
    intro c index hc
    exact ⟨hplaced.choose hc.1, hc.2.of_control ⟨rfl, rfl, rfl, rfl, rfl⟩⟩
  case countDown =>
    intro c deltaMs hc
    refine ⟨hplaced.countDown hc.1, ?_⟩
    obtain ⟨state, hstate⟩ := Scheduler.exists_countDown_eq deltaMs c
    rw [hstate]
    exact hc.2.of_control ⟨rfl, rfl, rfl, rfl, rfl⟩

/-- **Every live context of a reachable scheduler is balanced.** -/
theorem Scheduler.Reachable.balanced (he : e.Serves l) (hl : l.Lawful) (hj : l.JumpsInward)
    (hk : e.KeepsControl) {s : Scheduler} (hs : s.Reachable e) {c : Context}
    (hc : c ∈ s.contexts) :
    c.iterations.length = l.depthOf c ∧ ∀ i ∈ c.iterations, i.index < i.items.size := by
  have hstarts : ∀ op : Operation, op.Starts e fun c => c.Placed l ∧ c.Balanced l := by
    intro op id name ambient event ho hevent
    exact ⟨he.starts_placed hl op ho hevent, .start _ _ _ (Library.depth_root _)⟩
  -- balance alone would not survive saving: a place is saved by what stands there
  have hplaced : ∀ c : Context, c.Placed l ∧ c.Balanced l → c.Placed l := fun _ hc => hc.1
  obtain ⟨-, hcontexts, -⟩ :=
    (he.maintains_balanced hl hj hk).reachable hstarts (he.loads hl hplaced) hs
  have hbalanced := (hcontexts c hc).2
  exact ⟨hbalanced.length, hbalanced.index⟩

/-- An event that goes through a list, jumps over an instruction inside the
iteration, has a custom instruction there, and calls an event that pauses. -/
def Library.pausing : Library :=
  let var (key : String) : Json := .object [("type", .string "local"), ("key", .string key)]
  let items : Json := .array [.object [("type", .string "string"), ("value", .string "sword")]]
  let list : Json := .object [("type", .string "variable"), ("variable", var "bag")]
  let body : Json := .array
    [.object [("id", .string "jumpTo"), ("params", .object [("label", .string "ask")])],
     .object [("id", .string "stopEvent")],
     .object [("id", .string "label"), ("params", .object [("name", .string "ask")])],
     .object [("id", .string "custom")],
     .object [("id", .string "callEvent"), ("params", .object [("event", .string "ask")])]]
  { events := .ofList
      [("shop", ⟨"shop",
        [⟨"setList", .object [("variable", var "bag"), ("values", items)]⟩,
         ⟨"forEach", .object [("list", list), ("variable", var "item"), ("commands", body)]⟩],
        .empty⟩),
       ("ask", ⟨"ask", [⟨"pauseEvent", .null⟩], .empty⟩)] }

/-- The event started: the host was told of the custom instruction, and it is
paused in the event called, with one iteration under way. -/
theorem Scheduler.Reachable.balanced_pausing :
    Engine.Serves (.handling .pausing .tells) .pausing ∧ Library.pausing.Lawful ∧
      Library.pausing.JumpsInward ∧ (Engine.handling .pausing .tells).KeepsControl ∧
      ∃ s c, Scheduler.Reachable (.handling .pausing .tells) s ∧ s.world.trace.length = 1 ∧
        c ∈ s.contexts ∧ c.calls.length = 1 ∧ c.iterations.length = 1 ∧
        Library.pausing.depthOf c = 1 ∧
        ∀ i ∈ c.iterations, i.index < i.items.size := by
  have he : Engine.Serves (.handling .pausing .tells) .pausing := .ofLibrary .pausing
  have hl : Library.pausing.Lawful := by decide +kernel
  have hj : Library.pausing.JumpsInward := by decide +kernel
  have hk := Engine.keepsControl_tells .pausing
  have hstarted : ((Operation.start "shop" .none).run (.fresh (.handling .pausing .tells) 0)).any
      fun (_, s) => s.world.trace.length == 1 &&
        s.contexts.any fun c => c.calls.length == 1 && c.iterations.length == 1 := by
    decide +kernel
  obtain ⟨⟨r, s⟩, hrun, hs⟩ := (Option.any_eq_true _ _).1 hstarted
  obtain ⟨htold, hs⟩ := Bool.and_eq_true_iff.1 hs
  obtain ⟨c, hc, hlengths⟩ := List.any_eq_true.1 hs
  rw [Bool.and_eq_true, beq_iff_eq, beq_iff_eq] at hlengths
  have hreach : Scheduler.Reachable (.handling .pausing .tells) s := .run (.fresh 0) hrun
  obtain ⟨hlength, hindex⟩ := hreach.balanced he hl hj hk hc
  rw [hlengths.2] at hlength
  exact ⟨he, hl, hj, hk, s, c, hreach, beq_iff_eq.1 htold, hc, hlengths.1, hlengths.2,
    hlength.symm, hindex⟩

end Cutscene
