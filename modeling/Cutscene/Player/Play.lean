import Cutscene.Player.Invocation
import Cutscene.Scenario.Play
/-!
# Player — playing to a boundary

The player runs a scheduler until a choice has to be made and none is left,
until every context has ended, or until there were frames enough. Text boxes
close on the frame after they appear. Every round uses up a choice or a
frame, by which the play ends.
-/

namespace Cutscene

/-- Why a play stopped. -/
inductive Stop where
  | choices (context : EventId) (options : List String)
  /-- There were frames enough. -/
  | pending
  | ended
  deriving DecidableEq, Repr

/-- How a play went: why it stopped, after how many frames, with which
choices left, and where. -/
structure Played where
  stop : Stop
  frames : Nat
  choices : List Nat
  scheduler : Scheduler

/-- The calls made to the host. -/
def Played.calls (p : Played) : List HostCall := p.scheduler.world.trace.reverse

namespace Scheduler

/-- The first context that offers a choice, and its options. -/
def pendingChoice? (s : Scheduler) : Option (EventId × List String) :=
  s.contexts.findSome? fun c =>
    match c.boundary with
    | some (.choice options) => some (c.id, options)
    | _ => none

/-- Plays on with the choices left, after so many frames. -/
def playFrom (limits : FrameLimits) (choices : List Nat) (frames : Nat) (s : Scheduler) :
    Option (Except SchedulerError Played) :=
  match s.pendingChoice? with
  | some (id, options) =>
    match choices with
    | [] => some (.ok ⟨.choices id options, frames, [], s⟩)
    | index :: rest =>
      match s.choose id index with
      | none => none
      | some (.error e, _) => some (.error e)
      | some (.ok _, s) => playFrom limits rest frames s
  | none =>
    if s.contexts.isEmpty then some (.ok ⟨.ended, frames, choices, s⟩)
    else if _h : limits.maxFrames ≤ frames then some (.ok ⟨.pending, frames, choices, s⟩)
    else
      match s.nextFrame limits.frameMs with
      | none => none
      | some s => playFrom limits choices (frames + 1) s
termination_by choices.length + (limits.maxFrames - frames)

/-- Plays with choices. -/
def play (s : Scheduler) (limits : FrameLimits) (choices : List Nat) :
    Option (Except SchedulerError Played) :=
  s.playFrom limits choices 0

end Scheduler

end Cutscene
