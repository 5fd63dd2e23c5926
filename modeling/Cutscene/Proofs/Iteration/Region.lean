import Cutscene.Proofs.Call.Record
import Cutscene.Proofs.Iteration.Depth
import Cutscene.Proofs.Program.Unit
/-!
# Iterations — where control stays while a body runs

A body is straight when nothing in it breaks off or repeats a loop out of turn
and nothing jumps. Such a body is left at its end only. Until then a step leads
to another place inside it, never to its start, and moves the row of iterations
by as much as the place is deeper or less deep (`Library.Spans.turn`); or it
calls an event, which is run above the place it was called from and comes back
to it.

`Library.Nests` says both of a place and of the calls that lead down to it, and
`Context.Amid` of a context: it stands in the body or in an event called from
there, and what was under way when the body was entered is still there beneath
what has come on top. A context in the midst of a body stays there until it is
at the end (`Context.Amid.turn`).
-/

namespace Cutscene

/-! ## Straight bodies -/

namespace Body

/-- The place is that of a step inside the body. -/
def Covers (a : Body) (p : Place) : Prop := ∃ d, a.Inside d ∧ d.key = p.program

/-- The place is inside the body and not its start. -/
def Past (a : Body) (p : Place) : Prop := a.Covers p ∧ p ≠ ⟨a.key, 0⟩

/-- Nothing inside the body breaks off or repeats a loop out of turn, and
nothing jumps. -/
def IsStraight (a : Body) : Prop :=
  ∀ d, a.Inside d → ∀ y ∈ d.entries, y.command.isStraight

/-- Something inside the body calls the event. -/
def Calls (a : Body) (event : String) : Prop :=
  ∃ d, a.Inside d ∧ ∃ y ∈ d.entries, ∃ params, y.command = .call event params

/-- The end of the body. -/
def ending (a : Body) : Place := ⟨a.key, a.block.width⟩

variable {a d c : Body} {y : Entry}

theorem covers_start (a : Body) : a.Covers ⟨a.key, 0⟩ := ⟨a, .refl a, rfl⟩

/-- A place that is not the first of its program is not the body's start. -/
theorem Covers.past {p : Place} (h : a.Covers p) (index : 0 < p.index) : a.Past p := by
  refine ⟨h, fun start => ?_⟩
  rw [start] at index
  exact absurd index (Nat.lt_irrefl 0)

/-- What is held inside a body stands further in than its start. -/
theorem Inside.key_ne (h : a.Inside d) (hy : y ∈ d.entries) (hc : c ∈ y.inner d.site) :
    c.key ≠ a.key := by
  intro same
  obtain ⟨position, slot, key⟩ := key_of_mem_children (mem_children_of_inner hy hc)
  have deeper := h.within.below.2.length_le
  have longer := congrArg (fun k => k.path.length) (key.symm.trans same)
  simp only [BodyKey.path_child, List.length_cons] at longer
  omega

/-- So it is entered past the start. -/
theorem Inside.past_child (h : a.Inside d) (hy : y ∈ d.entries) (hc : c ∈ y.inner d.site) :
    a.Past ⟨c.key, 0⟩ :=
  ⟨⟨c, h.tail ⟨y, hy, hc⟩, rfl⟩, fun same => h.key_ne hy hc (Place.mk.inj same).1⟩

end Body

namespace Library

variable {l : Library} {a d : Body}

/-- What is inside a body is in all the iterations that the body is in. -/
theorem Holds.depth_le (ha : l.Holds a) (hl : l.Lawful) (h : a.Inside d) :
    l.depth a.key ≤ l.depth d.key := by
  induction h with
  | refl => exact Nat.le_refl _
  | @tail d c hd hc ih =>
    obtain ⟨y, hy, hc⟩ := hc
    have held := ha.inside hd
    refine ih.trans ?_
    unfold Entry.inner at hc
    split at hc
    · simp at hc
    rename_i unit
    cases Entry.child_of_mem hc with
    | arm hslot hbody => exact (depth_arm _ _ hslot).ge
    | loop h => exact (depth_loop hl held hy h).ge
    | forEach h => exact (Nat.le_succ _).trans (depth_forEach hl held hy h).ge
    | independent h => exact absurd (by rw [h]; rfl) unit

end Library

/-! ## The steps of a straight body -/

/-- No step of a command is one that programs end in. -/
theorem Entry.isTerminal_eq_false {s : Site} {y : Entry} {step : Step} (h : step ∈ y.steps s) :
    step.isTerminal = false := by
  cases hcommand : y.command <;> simp only [Entry.steps, hcommand, Command.steps] at h
  case choices options =>
    simp only [List.mem_cons, List.not_mem_nil, or_false] at h
    rcases h with rfl | rfl <;> rfl
  case breakLoop => split at h <;> rw [List.mem_singleton.1 h] <;> rfl
  case continueLoop => split at h <;> rw [List.mem_singleton.1 h] <;> rfl
  case label name => simp at h
  case jump sort name =>
    rw [List.mem_singleton.1 h]
    unfold Site.jump
    split <;> rfl
  all_goals
    rw [List.mem_singleton.1 h]
    rfl

/-- What a step of a program under the key can do, if it is of a straight body
and not that body's last. -/
structure Step.StaysIn (l : Library) (a : Body) (key : BodyKey) (step : Step) : Prop where
  fits : step.Fits l.depth key
  lands : (∃ body, step = .spawn body) ∨ step.Lands a.Past
  /-- Only what is held inside ends. -/
  terminal : step.isTerminal → key ≠ a.key
  leave : step ≠ .leave
  returnJump : step ≠ .returnJump
  call : ∀ {event params}, step = .call event params → a.Calls event

namespace Body.IsStraight

variable {l : Library} {a d : Body} {s : Step}

/-- The step that the program of a body held inside ends in. -/
theorem terminal (ha : l.Holds a) (hl : l.Lawful) {c : Body} {y : Entry}
    (hd : a.Inside d) (hy : y ∈ d.entries) (hc : c ∈ y.inner d.site) :
    c.terminal.StaysIn l a c.key := by
  have held : l.Holds c := (ha.inside hd).child (mem_children_of_inner hy hc)
  have outside := hd.key_ne hy hc
  have after : a.Past ⟨d.key, y.index + y.command.width⟩ ∨ y.command.width = 0 := by
    rcases Nat.eq_zero_or_pos y.command.width with width | width
    · exact .inr width
    · exact .inl (Covers.past ⟨d, hd, rfl⟩ (Nat.add_pos_right _ width))
  have fits := held.terminal_fits hl
  have next : a.Past ⟨d.key, y.index + 1⟩ := Covers.past ⟨d, hd, rfl⟩ (Nat.succ_pos _)
  unfold Entry.inner at hc
  split at hc
  · simp at hc
  rename_i unit
  cases Entry.child_of_mem hc with
  | @arm slot body hslot hbody =>
    refine ⟨fits, .inr fun place leads => ?_, fun _ => outside, nofun, nofun, nofun⟩
    rw [show place = _ from leads]
    rcases after with after | width
    · exact after
    -- a command that holds a body takes a step
    · cases hcommand : y.command <;> simp [hcommand, Command.width, Command.body?] at width hbody
  | loop h =>
    exact ⟨fits, .inr fun place leads => by rw [show place = _ from leads]; exact next,
      fun _ => outside, nofun, nofun, nofun⟩
  | forEach h => exact ⟨fits, .inr next, fun _ => outside, nofun, nofun, nofun⟩
  | independent h => exact absurd (by rw [h]; rfl) unit

/-- The steps of a command inside. -/
theorem entry (h : a.IsStraight) (ha : l.Holds a) (hl : l.Lawful) {y : Entry} (hd : a.Inside d)
    (hy : y ∈ d.entries) (hstep : s ∈ y.steps d.site) : s.StaysIn l a d.key := by
  have straight := h d hd y hy
  have bent : y.command.isStraight = false → False := fun no => by simp [no] at straight
  have middle := Entry.isTerminal_eq_false hstep
  have inward : y.command.JumpsInward l d := by
    cases hcommand : y.command with
    | jump sort name => simp [hcommand, Command.isStraight] at straight
    | _ => exact True.intro
  refine ⟨(ha.inside hd).entry_fits hl hy inward hstep, ?_, fun last => ?_, ?_, ?_, ?_⟩
  · by_cases unit : y.command.isIndependent
    · -- what is spawned is a unit of its own, and this step goes on
      refine .inl ?_
      cases hcommand : y.command with
      | independent body =>
        rw [Entry.steps, hcommand] at hstep
        exact ⟨_, List.mem_singleton.1 hstep⟩
      | _ => simp [hcommand, Command.isIndependent] at unit
    · have inner : y.inner d.site = y.children d.site := if_neg unit
      exact .inr (Entry.lands hstep (fun c hc => hd.past_child hy (inner ▸ hc))
        (fun no => (bent no).elim) fun no => (bent no).elim)
  · rw [middle] at last
    simp at last
  · rintro rfl
    simp [Step.isTerminal] at middle
  · rintro rfl
    cases hcommand : y.command <;>
      simp [hcommand, Command.isStraight, Entry.steps, Command.steps] at straight hstep
  · rintro event params rfl
    refine ⟨d, hd, y, hy, params, ?_⟩
    cases hcommand : y.command <;>
      simp [hcommand, Command.isStraight, Entry.steps, Command.steps] at straight hstep
    rw [hstep.1, hstep.2]

/-- **A step inside a straight body stays in it**, unless it is the last. -/
theorem step (h : a.IsStraight) (ha : l.Holds a) (hl : l.Lawful) {e : Engine} (he : e.Serves l)
    {p : Place} (covered : a.Covers p) (middle : p ≠ a.ending) (here : e.step? p = some s) :
    s.StaysIn l a p.program := by
  obtain ⟨d, hd, key⟩ := covered
  have get : d.program.steps[p.index]? = some s := by
    rw [← he.step? hl (ha.inside hd), key]
    exact here
  rw [← key]
  rcases Body.step_cases get with ⟨index, rfl⟩ | ⟨y, hy, k, -, -, hk⟩
  · rcases Relation.ReflTransGen.cases_tail hd with rfl | ⟨d', hd', y, hy, hc⟩
    · exact absurd (congrArg₂ Place.mk key.symm index) middle
    · exact terminal ha hl hd' hy hc
  · exact h.entry ha hl hd hy (List.mem_of_getElem? hk)

end Body.IsStraight

/-! ## Turns inside a body -/

/-- The place is inside the body, and so many more iterations are around it
than around the body itself. -/
def Library.Spans (l : Library) (a : Body) (p : Place) (more : Nat) : Prop :=
  a.Covers p ∧ l.depth p.program = l.depth a.key + more

namespace Library.Spans

variable {e : Engine} {l : Library} {a : Body} {c c' : Context} {its rest : List Iteration}

/-- Only the program of the place counts. -/
theorem of_program {p p' : Place} {more : Nat} (h : l.Spans a p more)
    (same : p'.program = p.program) : l.Spans a p' more := by
  obtain ⟨⟨d, hd, key⟩, depth⟩ := h
  exact ⟨⟨d, hd, key.trans same.symm⟩, by rw [same, depth]⟩

theorem start (a : Body) : l.Spans a ⟨a.key, 0⟩ 0 := ⟨a.covers_start, rfl⟩

/-- At the end of the body its own iterations are over. -/
theorem eq_zero_of_ending {p : Place} {more : Nat} (h : l.Spans a p more)
    (ending : p = a.ending) : more = 0 := by
  have depth := h.2
  rw [ending] at depth
  change l.depth a.key = _ at depth
  omega

/-- The depth never falls below the body's. -/
theorem depth_le (ha : l.Holds a) (hl : l.Lawful) {p : Place} (h : a.Covers p) :
    l.depth a.key ≤ l.depth p.program := by
  obtain ⟨d, hd, key⟩ := h
  exact key ▸ ha.depth_le hl hd

/-- **Dropping as many iterations as the new place is less deep.** -/
theorem drop (h : l.Spans a c.place its.length) (ha : l.Holds a) (hl : l.Lawful)
    (under : c.iterations = its ++ rest) {p : Place} {count : Nat} (covered : a.Covers p)
    (less : l.depth p.program + count = l.depth c.place.program) :
    ∃ its', c.iterations.drop count = its' ++ rest ∧ l.Spans a p its'.length := by
  have deep := depth_le ha hl covered
  have depth := h.2
  refine ⟨its.drop count, ?_, covered, ?_⟩
  · rw [under, List.drop_append_of_le_length (by omega)]
  · rw [List.length_drop]
    omega

/-- What a turn inside a body can come to: another place inside, with the
iterations to match; the start of an event called from inside; or the end of the
context. -/
inductive Turned (l : Library) (a : Body) (rest : List Iteration) (c c' : Context) : Prop
  | stays {its : List Iteration} (calls : c'.calls = c.calls)
      (iterations : c'.iterations = its ++ rest) (spans : l.Spans a c'.place its.length)
      (start : c'.place ≠ ⟨a.key, 0⟩)
  | calls {event : String} {d : EventDef} {frame : CallFrame} (hd : l.get? event = some d)
      (called : a.Calls event) (place : c'.place = ⟨.root event, 0⟩)
      (calls : c'.calls = frame :: c.calls) (back : frame.place = c.place.plus 1)
      (iterations : c'.iterations = c.iterations)
  | finishes (finished : c'.state.isFinished) (place : c'.place = c.place.plus 1)

/-- **One turn inside a straight body**, at any step but its last, keeps what
was under way when the body was entered. -/
theorem turn (h : l.Spans a c.place its.length) (ha : l.Holds a) (hl : l.Lawful)
    (straight : a.IsStraight) (he : e.Serves l) (under : c.iterations = its ++ rest)
    (middle : c.place ≠ a.ending) {step : Step} {id : EventId} {vars : Attributes} {o : Outcome}
    (here : e.step? c.place = some step)
    (turn : step.Turn e id { c.goto (c.place.plus 1) with attributes := vars } o c') :
    Turned l a rest c c' := by
  have stays := straight.step ha hl he h.1 middle here
  have next : l.Spans a (c.place.plus 1) its.length := h.of_program rfl
  have beyond : a.Past (c.place.plus 1) := next.1.past (Nat.succ_pos _)
  have lands : (∀ body, step ≠ .spawn body) → step.Lands a.Past := fun no =>
    stays.lands.resolve_left fun ⟨body, hbody⟩ => no body hbody
  -- another place inside, for which iterations are dropped
  have elsewhere : ∀ {c' : Context} (count : Nat), a.Past c'.place →
      l.depth c'.place.program + count = l.depth c.place.program → c'.calls = c.calls →
      c'.iterations = c.iterations.drop count → Turned l a rest c c' := by
    intro c' count past less calls iterations
    obtain ⟨its', hdrop, spans⟩ := h.drop ha hl under past.1 less
    exact .stays calls (iterations.trans hdrop) spans past.2
  have fits := stays.fits
  cases turn with
  | halt a halt =>
    rcases halt with - | halt
    · exact .stays rfl under next beyond.2
    · cases halt with
      | pause shown => exact .stays rfl under next beyond.2
      | wait ms => exact .stays rfl under next beyond.2
      | finish => exact .finishes rfl rfl
  | @go step place hleads =>
    have past : a.Past place ∧ l.depth place.program = l.depth c.place.program := by
      have lands := lands (by rintro body rfl; exact hleads.elim)
      cases step <;> first | exact ⟨lands _ hleads, fits _ hleads⟩ | exact hleads.elim
    exact elsewhere 0 past.1 past.2 rfl rfl
  | stay hstay => exact .stays rfl under next beyond.2
  | openChoices labels options => exact .stays rfl under next beyond.2
  | chosen hbody =>
    exact elsewhere 0 (lands nofun _ hbody) (fits _ hbody) rfl rfl
  | unchosen bodies => exact .stays rfl under next beyond.2
  | again tester exit =>
    exact .stays rfl under (h.of_program rfl) fun same =>
      stays.terminal rfl (Place.mk.inj same).1
  | iterate source ref body first others =>
    have past : a.Past ⟨body, 0⟩ := lands nofun
    have more : ∀ i : Iteration, i :: c.iterations = (i :: its) ++ rest := fun i =>
      congrArg (List.cons i) under
    refine .stays rfl (more _) ⟨past.1, ?_⟩ past.2
    change l.depth body = _
    rw [show l.depth body = _ from fits, h.2, List.length_cons]
    exact Nat.add_assoc _ _ _
  | @nextItem ref exit current outer hc hsome =>
    have past : a.Past exit := lands nofun
    have deep := depth_le ha hl past.1
    have less : l.depth exit.program + 1 = l.depth c.place.program := fits
    have depth := h.2
    -- the exit is inside, so the iteration that goes on is one of those inside
    cases its with
    | nil =>
      simp only [List.length_nil] at depth
      omega
    | cons i its =>
      obtain ⟨rfl, rfl⟩ := List.cons.inj (hc.symm.trans under)
      have same : current.next :: (its ++ rest) = (current.next :: its) ++ rest := rfl
      exact .stays rfl same (h.of_program rfl) fun same =>
        stays.terminal rfl (Place.mk.inj same).1
  | noItem ref exit =>
    exact elsewhere 1 (lands nofun) fits rfl List.drop_one.symm
  | leaveLoop each exit =>
    refine elsewhere (if each then 1 else 0) (lands nofun) fits rfl ?_
    cases each with
    | false => rfl
    | true => exact List.drop_one.symm
  | jump target drop =>
    obtain ⟨hle, rfl⟩ : l.depth target.program ≤ l.depth c.place.program ∧
      drop = l.depth c.place.program - l.depth target.program := fits
    exact elsewhere _ (lands nofun) (Nat.add_sub_of_le hle) rfl rfl
  | saveJump target => exact fits.elim
  | returnJump hc => exact absurd rfl stays.returnJump
  | spawn body => exact .stays rfl under next beyond.2
  | @call event callee params hevent vars' =>
    rw [he.event?] at hevent
    obtain ⟨d, hd, -⟩ := Option.map_eq_some_iff.1 hevent
    exact .calls hd (stays.call rfl) rfl rfl rfl rfl
  | callAsync params hevent vars' => exact .stays rfl under next beyond.2
  | finish hc => exact absurd rfl stays.leave
  | leave hc => exact absurd rfl stays.leave

end Library.Spans

/-! ## The events called from a body -/

/-- Running the first body may run the second: it is the first, or that of an
event called from such a one. -/
inductive Library.Reaches (l : Library) (a : Body) : Body → Prop
  | here : Reaches l a a
  | call {b : Body} {event : String} {d : EventDef} (h : Reaches l a b) (called : b.Calls event)
      (hd : l.get? event = some d) : Reaches l a (d.body l.environment)

/-- The body is straight, and so are all events called from it, directly or
through others. -/
def Library.Straight (l : Library) (a : Body) : Prop := ∀ b, l.Reaches a b → b.IsStraight

namespace Library.Reaches

variable {l : Library} {a b : Body}

theorem holds (h : l.Reaches a b) (ha : l.Holds a) : l.Holds b := by
  cases h with
  | here => exact ha
  | call h called hd => exact .event hd

end Library.Reaches

/-- Where no command of the library is other than straight, every body is. -/
theorem Library.Holds.straight_of_bodies {l : Library} {a : Body} (ha : l.Holds a)
    (h : ∀ b ∈ l.bodies, ∀ y ∈ b.entries, y.command.isStraight) : l.Straight a :=
  fun _ reached d hd y hy => h d (Library.holds_iff.1 ((reached.holds ha).inside hd)) y hy

/-- The place is inside the body, below no calls; or it is in an event called
from there, and the calls lead back into the body. The iterations are those
that have come on top. -/
inductive Library.Nests (l : Library) (a : Body) :
    Place → List CallFrame → List Iteration → Prop
  | own {p : Place} {its : List Iteration} (spans : l.Spans a p its.length) : Nests l a p [] its
  | called {p : Place} {frame : CallFrame} {outer : List CallFrame} {its below : List Iteration}
      {event : String} {d : EventDef} (hd : l.get? event = some d)
      (reached : l.Reaches a (d.body l.environment))
      (spans : l.Spans (d.body l.environment) p its.length) (after : 0 < frame.place.index)
      (back : Nests l a frame.place outer below) : Nests l a p (frame :: outer) (its ++ below)

namespace Library.Nests

variable {l : Library} {a : Body} {p p' : Place} {frames : List CallFrame} {its : List Iteration}

theorem of_program (h : l.Nests a p frames its) (same : p'.program = p.program) :
    l.Nests a p' frames its := by
  cases h with
  | own spans => exact .own (spans.of_program same)
  | called hd reached spans after back =>
    exact .called hd reached (spans.of_program same) after back

/-- A call from where control is nested is nested one deeper. -/
theorem call {b : Body} {event : String} {d : EventDef} {frame : CallFrame}
    (h : l.Nests a p frames its) (hl : l.Lawful) (hd : l.get? event = some d)
    (reached : l.Reaches a b) (called : b.Calls event) (back : frame.place = p.plus 1) :
    l.Nests a ⟨.root event, 0⟩ (frame :: frames) its := by
  have start : l.Spans (d.body l.environment) ⟨.root event, 0⟩ ([] : List Iteration).length := by
    rw [← hl.name_eq hd]
    exact Spans.start _
  have after : 0 < frame.place.index := by
    rw [back]
    exact Nat.succ_pos _
  have nests : l.Nests a ⟨.root event, 0⟩ (frame :: frames) ([] ++ its) :=
    .called hd (reached.call called hd) start after (h.of_program (by rw [back]; rfl))
  exact nests

end Library.Nests

/-- The context is in the midst of the body: it stands in it, or in an event
called from it, and those calls and those iterations are still under way
beneath what has come on top. -/
def Context.Amid (l : Library) (a : Body) (calls : List CallFrame)
    (iterations : List Iteration) (c : Context) : Prop :=
  ∃ frames its, c.calls = frames ++ calls ∧ c.iterations = its ++ iterations ∧
    l.Nests a c.place frames its

namespace Context.Amid

variable {e : Engine} {l : Library} {a : Body} {c c' : Context} {calls : List CallFrame}
  {iterations : List Iteration}

theorem of_control (h : c.Amid l a calls iterations) (same : c.SameControl c') :
    c'.Amid l a calls iterations := by
  obtain ⟨frames, its, hcalls, hiterations, nests⟩ := h
  exact ⟨frames, its, same.calls.trans hcalls, same.iterations.trans hiterations,
    nests.of_program (by rw [same.place])⟩

/-- Passing a step over stays in the program. -/
theorem goto (h : c.Amid l a calls iterations) {p : Place} {vars : Attributes}
    (same : p.program = c.place.program) :
    Context.Amid l a calls iterations { c.goto p with attributes := vars } := by
  obtain ⟨frames, its, hcalls, hiterations, nests⟩ := h
  exact ⟨frames, its, hcalls, hiterations, nests.of_program same⟩

theorem start (hcalls : c.calls = calls) (hits : c.iterations = iterations)
    (place : c.place = ⟨a.key, 0⟩) : c.Amid l a calls iterations :=
  ⟨[], [], hcalls, hits, .own (place ▸ Library.Spans.start a)⟩

/-- At the end of the body and of the calls made from it, nothing else is under
way any more. -/
theorem of_ending (h : c.Amid l a calls iterations) (ending : c.place = a.ending)
    (level : c.calls.length = calls.length) : c.calls = calls ∧ c.iterations = iterations := by
  obtain ⟨frames, its, hcalls, hiterations, nests⟩ := h
  rw [hcalls, List.length_append] at level
  obtain rfl : frames = [] := List.eq_nil_of_length_eq_zero (by omega)
  cases nests with
  | own spans =>
    obtain rfl := List.eq_nil_of_length_eq_zero (spans.eq_zero_of_ending ending)
    exact ⟨hcalls, hiterations⟩

/-- **One turn in the midst of a body**, unless it is that at the end: the
context is in its midst again, and not at its start; or it has finished. -/
theorem turn (h : c.Amid l a calls iterations) (ha : l.Holds a) (hl : l.Lawful)
    (straight : l.Straight a) (he : e.Serves l)
    (middle : c.place = a.ending → c.calls.length ≠ calls.length) {step : Step} {id : EventId}
    {vars : Attributes} {o : Outcome} (here : e.step? c.place = some step)
    (turn : step.Turn e id { c.goto (c.place.plus 1) with attributes := vars } o c') :
    (c'.state.isFinished = false → c'.Amid l a calls iterations) ∧
      (c'.calls.length = calls.length → c'.place ≠ ⟨a.key, 0⟩) := by
  obtain ⟨frames, its, hcalls, hiterations, nests⟩ := h
  cases nests with
  | own spans =>
    have inside : c.place ≠ a.ending := fun ending => middle ending (by rw [hcalls]; rfl)
    cases spans.turn ha hl (straight a .here) he hiterations inside here turn with
    | stays hcalls' hiterations' spans' start =>
      exact ⟨fun _ => ⟨[], _, hcalls'.trans hcalls, hiterations', .own spans'⟩, fun _ => start⟩
    | @calls event d frame hd called place hcalls' back hiterations' =>
      rw [hcalls] at hcalls'
      refine ⟨fun _ => ⟨[frame], its, hcalls', hiterations'.trans hiterations, ?_⟩, fun level => ?_⟩
      · rw [place]
        exact (Library.Nests.own spans).call hl hd .here called back
      · rw [hcalls'] at level
        simp at level
    | finishes finished place =>
      refine ⟨fun live => by simp [finished] at live, fun _ same => ?_⟩
      rw [place] at same
      exact absurd (Place.mk.inj same).2 (Nat.succ_ne_zero _)
  | @called _ frame outer its below event d hd reached spans after back =>
    by_cases inside : c.place = (d.body l.environment).ending
    · -- the event called is over, and control goes back to where it was called
      have hb := reached.holds ha
      rw [inside, Body.ending, he.step? hl hb, Body.step_terminal] at here
      obtain rfl : Step.leave = step := Option.some.inj here
      obtain rfl := List.eq_nil_of_length_eq_zero (spans.eq_zero_of_ending inside)
      cases turn with
      | finish none =>
        have none : c.calls = [] := none
        simp [none] at hcalls
      | @leave frame' outer' some =>
        have some : c.calls = frame' :: outer' := some
        obtain ⟨rfl, rfl⟩ := List.cons.inj (some.symm.trans hcalls)
        refine ⟨fun _ => ⟨outer, below, rfl, hiterations, back⟩, fun _ same => ?_⟩
        rw [show frame'.place = ⟨a.key, 0⟩ from same] at after
        exact absurd after (Nat.lt_irrefl 0)
      | go leads => exact leads.elim
      | stay may => simp [Step.mayStay] at may
    · rw [List.append_assoc] at hiterations
      cases spans.turn (reached.holds ha) hl (straight _ reached) he hiterations inside here
        turn with
      | stays hcalls' hiterations' spans' start =>
        refine ⟨fun _ => ⟨frame :: outer, _, hcalls'.trans hcalls,
          by rw [hiterations', List.append_assoc], .called hd reached spans' after back⟩,
          fun level => ?_⟩
        rw [hcalls', hcalls] at level
        simp only [List.cons_append, List.length_cons, List.length_append] at level
        omega
      | @calls event' d' frame' hd' called place hcalls' back' hiterations' =>
        rw [hcalls] at hcalls'
        refine ⟨fun _ => ⟨frame' :: frame :: outer, its ++ below, hcalls', ?_, ?_⟩, fun level => ?_⟩
        · rw [hiterations', hiterations, List.append_assoc]
        · rw [place]
          exact (Library.Nests.called hd reached spans after back).call hl hd' reached called back'
        · rw [hcalls'] at level
          simp only [List.cons_append, List.length_cons, List.length_append] at level
          omega
      | finishes finished place =>
        refine ⟨fun live => by simp [finished] at live, fun _ same => ?_⟩
        rw [place] at same
        exact absurd (Place.mk.inj same).2 (Nat.succ_ne_zero _)

end Context.Amid

end Cutscene
