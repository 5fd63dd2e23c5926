import Cutscene.Run.Action
/-!
# Running — steps and advances

`Step.run` says what one step does to a machine whose context already stands
at the step after it. `Machine.advance` runs a context until it stops, ends
or has used up its budget of steps. A step may spawn a context, which is
advanced on the spot, with a budget of its own, and joins the world if it
does not end at once.

An advance has no result when contexts spawn each other more deeply than the
engine allows.
-/

namespace Cutscene

/-- What a step asks for: to go on or to stop, or that a context be run first
and control then go on. -/
inductive Outcome where
  | flow (flow : Flow)
  | spawn (child : Context)
  deriving Inhabited

namespace Act

/-- Changes the context. -/
def context (f : Context → Context) : Act Unit := change fun m => { m with context := f m.context }

/-- Goes on at a place. -/
def goto (place : Place) : Act Outcome := do
  context (·.goto place)
  pure (.flow .next)

/-- Goes on at the start of a body. -/
def enter (body : BodyKey) : Act Outcome := goto ⟨body, 0⟩

/-- Goes on at the next step. -/
def goOn : Act Outcome := pure (.flow .next)

/-- Goes on at the start of a body, or at the next step without one. -/
def enterOptional : Option BodyKey → Act Outcome
  | some body => enter body
  | none => goOn

/-- Spawns a context on a body. -/
def spawn (name : String) (body : BodyKey) (ambient : Ambient) : Act Outcome := fun m =>
  let (id, world) := m.world.allocate
  (.spawn (.start id name body ambient), { m with world })

end Act

/-- Enters the first body whose tester holds. -/
def enterBranch (otherwise : Option BodyKey) : List (Tester × BodyKey) → Act Outcome
  | [] => Act.enterOptional otherwise
  | (tester, body) :: rest => do
    if ← tester.holds then Act.enter body else enterBranch otherwise rest

/-- Is any candidate equal to the subject? Those after one that is are not
computed. Nothing is equal to nothing. -/
def anyEqual (subject : Option Value) : List ValueOperand → Act Bool
  | [] => pure false
  | candidate :: rest => do
    if (← Act.draw candidate.compute) == subject then pure true else anyEqual subject rest

/-- Enters the first body with a candidate equal to the subject. -/
def enterCase (subject : Option Value) (otherwise : Option BodyKey) :
    List (List ValueOperand × BodyKey) → Act Outcome
  | [] => Act.enterOptional otherwise
  | (candidates, body) :: rest => do
    if ← anyEqual subject candidates then Act.enter body else enterCase subject otherwise rest

/-- Runs a step. -/
def Step.run (e : Engine) : Step → Act Outcome
  | .action a => do pure (.flow (← a.run e.deferred))
  | .custom id arguments =>
    match e.handlers.get? id with
    | some handler => fun m =>
      let (flow, m) := handler arguments m
      (.flow flow, m)
    | none => Act.goOn
  | .branch arms otherwise => enterBranch otherwise arms
  | .select subject arms otherwise => do
    enterCase (← Act.draw subject.compute) otherwise arms
  | .openChoices labels => do
    let options ← Act.look fun m => labels.map (·.render m)
    Act.context fun c => { c with choice := none }
    Act.call (.showChoices options)
    pure (.flow (← Act.pause (.choice options)))
  | .enterChoice bodies => do
    let chosen ← Act.look (·.context.choice)
    Act.context fun c => { c with choice := none }
    Act.enterOptional (chosen.bind fun index => bodies[index]?)
  | .enterLoop tester body => do
    if ← tester.holds then Act.enter body else Act.goOn
  | .repeatLoop tester exit => do
    if ← tester.holds then
      Act.context fun c => { c with place.index := 0 }
      Act.goOn
    else Act.goto exit
  | .enterEach source ref body => do
    match ← Act.draw source.items with
    | [] => Act.goOn
    | first :: rest => do
      Act.change (·.write ref first)
      Act.context fun c => { c with iterations := ⟨(first :: rest).toArray, 0⟩ :: c.iterations }
      Act.enter body
  | .nextItem ref exit => do
    match ← Act.look (·.context.iterations) with
    | [] => Act.goto exit
    | current :: outer =>
      let next := current.next
      match next.current? with
      | some item => do
        Act.context fun c => { c with iterations := next :: outer }
        Act.change (·.write ref item)
        Act.context fun c => { c with place.index := 0 }
        Act.goOn
      | none => do
        Act.context fun c => { c with iterations := outer }
        Act.goto exit
  | .leaveLoop each exit => do
    if each then Act.context fun c => { c with iterations := c.iterations.tail }
    Act.goto exit
  | .endPass terminal => Act.goto terminal
  | .resume place => Act.goto place
  | .jump target drop => do
    Act.context fun c => { c with iterations := c.iterations.drop drop }
    Act.goto target
  | .saveJump target => do
    Act.context fun c => { c with returns := c.place :: c.returns }
    Act.goto target
  | .returnJump => do
    match ← Act.look (·.context.returns) with
    | [] => Act.goOn
    | place :: outer => do
      Act.context fun c => { c with returns := outer }
      Act.goto place
  | .idle => Act.goOn
  | .spawn body => do
    let c ← Act.look (·.context)
    Act.spawn c.name body c.ambient
  | .call event params =>
    match e.event? event with
    | none => Act.goOn
    | some callee => do
      let supplied ← Act.draw fun m => supply m params m.context.ambient.parameters
      Act.context fun c =>
        { c with
          calls := ⟨c.place, c.ambient.parameters⟩ :: c.calls
          ambient.parameters := supplied.fill callee.parameters }
      Act.enter (.root event)
  | .callAsync event params =>
    match e.event? event with
    | none => Act.goOn
    | some callee => do
      let supplied ← Act.draw fun m => supply m params m.context.ambient.parameters
      let ambient ← Act.look (·.context.ambient)
      Act.spawn event (.root event) { ambient with parameters := supplied.fill callee.parameters }
  | .leave => do
    match ← Act.look (·.context.calls) with
    | [] => do pure (.flow (← Act.finish))
    | frame :: outer => do
      Act.context fun c =>
        { c with calls := outer, ambient.parameters := frame.parameters }
      Act.goto frame.place

namespace World

/-- The world with a step bound, if it is one that is bound late. -/
def bind (w : World) (step : Step) (place : Place) : World :=
  if step.isLate && !w.bound.contains place then { w with bound := place :: w.bound } else w

/-- The world with a context that was spawned, unless it has ended. -/
def adopt (w : World) (c : Context) : World :=
  if c.state.isFinished then w else { w with spawned := c :: w.spawned }

end World

namespace Machine

/-- The machine as a step at its place finds it: at the step after, with the
step bound. -/
def past (m : Machine) (step : Step) : Machine :=
  { m with
    context := m.context.goto (m.context.place.plus 1)
    world := m.world.bind step m.context.place }

/-- A context that a step stops without saying why waits to be resumed. -/
def settle (m : Machine) : Flow → Machine
  | .next => m
  | .stop => if m.context.state.isRunning then { m with context := m.context.pause .signal } else m

/-- Runs so many steps at most, given how a spawned context is run. -/
def steps (e : Engine) (spawn : Machine → Option Machine) : Nat → Machine → Option Machine
  | 0, m => some m
  | budget + 1, m =>
    if !m.context.state.isRunning then some m
    else
      match e.step? m.context.place with
      | none => some { m with context := m.context.finish }
      | some step =>
        match step.run e (m.past step) with
        | (.flow flow, m) => steps e spawn budget (m.settle flow)
        | (.spawn child, m) =>
          match spawn ⟨child, m.world⟩ with
          | none => none
          | some done =>
            steps e spawn budget { m with world := done.world.adopt done.context }

/-- Advances a context, with so many contexts left to spawn one another. -/
def advanceWithin (e : Engine) : Nat → Machine → Option Machine
  | 0 => steps e (fun _ => none) e.stepBudget
  | depth + 1 => steps e (advanceWithin e depth) e.stepBudget

/-- Advances a context until it stops, ends or has used up its budget. -/
def advance (e : Engine) (m : Machine) : Option Machine := advanceWithin e e.spawnDepth m

end Machine

end Cutscene
