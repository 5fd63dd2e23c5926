import Cutscene.Value
/-!
# Events — host calls

What a running event asks of the engine around it: text boxes, choices,
sound, animation, movement, skills and messages.
-/

namespace Cutscene

/-- A request to the host. -/
inductive HostCall where
  | showText (text : String)
  | showChoices (options : List String)
  | playAudio (channel track : String) (volume : Float)
  | stopAudio (track : Option String)
  | playAnimation (target : Option ObjectId) (animation : String)
  | moveActor (actor : ObjectId) (x y : Float)
  | castSkill (caster skill : ObjectId) (target : Option ObjectId)
  | log (message : String)
  deriving Inhabited, Repr

namespace HostCall

/-- Equality of calls, numbers compared as numbers. -/
def equal : HostCall → HostCall → Bool
  | .showText a, .showText b => a == b
  | .showChoices a, .showChoices b => a == b
  | .playAudio c t v, .playAudio c' t' v' => c == c' && t == t' && v == v'
  | .stopAudio a, .stopAudio b => a == b
  | .playAnimation t a, .playAnimation t' a' => t == t' && a == a'
  | .moveActor a x y, .moveActor a' x' y' => a == a' && x == x' && y == y'
  | .castSkill c s t, .castSkill c' s' t' => c == c' && s == s' && t == t'
  | .log a, .log b => a == b
  | _, _ => false

instance : BEq HostCall := ⟨equal⟩

/-- The call as JSON. -/
def encode : HostCall → Json
  | .showText text => .tagged "call" "showText" [("text", .string text)]
  | .showChoices options => .tagged "call" "showChoices" [("options", .ofList .string options)]
  | .playAudio channel track volume =>
    .tagged "call" "playAudio"
      [("channel", .string channel), ("track", .string track), ("volume", .ofFloat volume)]
  | .stopAudio track => .tagged "call" "stopAudio" [("track", .ofOption .string track)]
  | .playAnimation target animation =>
    .tagged "call" "playAnimation"
      [("target", .ofOption ObjectId.encode target), ("animation", .string animation)]
  | .moveActor actor x y =>
    .tagged "call" "moveActor" [("actor", actor.encode), ("x", .ofFloat x), ("y", .ofFloat y)]
  | .castSkill caster skill target =>
    .tagged "call" "castSkill"
      [("caster", caster.encode), ("skill", skill.encode),
       ("target", .ofOption ObjectId.encode target)]
  | .log message => .tagged "call" "log" [("message", .string message)]

/-- The call of a JSON value. -/
def decode? (j : Json) : Option HostCall := do
  let (tag, content) ← j.variant? "call" []
  match tag with
  | "showText" =>
    let r ← content.plainRecord? ["text"]
    let text ← r.required "text" Json.string?
    pure (.showText text)
  | "showChoices" =>
    let r ← content.plainRecord? ["options"]
    let options ← r.required "options" (Json.list? Json.string?)
    pure (.showChoices options)
  | "playAudio" =>
    let r ← content.plainRecord? ["channel", "track", "volume"]
    let channel ← r.required "channel" Json.string?
    let track ← r.required "track" Json.string?
    let volume ← r.required "volume" Json.float?
    pure (.playAudio channel track volume)
  | "stopAudio" =>
    let r ← content.plainRecord? ["track"]
    let track ← r.nullable "track" Json.string?
    pure (.stopAudio track)
  | "playAnimation" =>
    let r ← content.plainRecord? ["target", "animation"]
    let target ← r.nullable "target" ObjectId.decode?
    let animation ← r.required "animation" Json.string?
    pure (.playAnimation target animation)
  | "moveActor" =>
    let r ← content.plainRecord? ["actor", "x", "y"]
    let actor ← r.required "actor" ObjectId.decode?
    let x ← r.required "x" Json.float?
    let y ← r.required "y" Json.float?
    pure (.moveActor actor x y)
  | "castSkill" =>
    let r ← content.plainRecord? ["caster", "skill", "target"]
    let caster ← r.required "caster" ObjectId.decode?
    let skill ← r.required "skill" ObjectId.decode?
    let target ← r.nullable "target" ObjectId.decode?
    pure (.castSkill caster skill target)
  | "log" =>
    let r ← content.plainRecord? ["message"]
    let message ← r.required "message" Json.string?
    pure (.log message)
  | _ => none

end HostCall

end Cutscene
