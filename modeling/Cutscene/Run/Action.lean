import Cutscene.Run.Condition
/-!
# Running — actions

What an action does to a machine, and whether control goes on. An operand
that comes to nothing makes the action do nothing at all, apart from the
draws made on the way.
-/

namespace Cutscene

namespace Act

/-- Goes on. -/
def next : Act Flow := pure .next

/-- Makes a call to the host. -/
def call (c : HostCall) : Act Unit := change fun m => { m with world := m.world.call c }

/-- Pauses the context. -/
def pause (why : Boundary) : Act Flow := do
  change fun m => { m with context := m.context.pause why }
  pure .stop

/-- Finishes the context. -/
def finish : Act Flow := do
  change fun m => { m with context := m.context.finish }
  pure .stop

/-- Makes a call that may take time: pauses if it is awaited and not done. -/
def await (deferred : HostCall → Bool) (wait : Bool) (c : HostCall) : Act Flow := do
  call c
  if wait && deferred c then pause .signal else next

/-- Goes on with what an operand comes to, if it comes to anything. -/
def withSome {α : Type} (a : Option α) (body : α → Act Flow) : Act Flow :=
  match a with
  | some a => body a
  | none => next

end Act

/-- The channels that sound is played on. -/
def channels : List String := ["bgm", "se", "voice"]

/-- The channel for a name, `se` for any other. -/
def channelOf (name : Option String) : String :=
  match name with
  | some name => if channels.contains name then name else "se"
  | none => "se"

/-- A volume, held between zero and one. -/
def clampVolume (x : Float) : Float := if x < 0.0 then 0.0 else if 1.0 < x then 1.0 else x

/-- An optional operand; nothing comes of one that is absent. -/
def computeOptional {α β : Type} (compute : α → Machine → Draw (Option β)) (a : Option α)
    (m : Machine) : Draw (Option β) :=
  match a with
  | some a => compute a m
  | none => pure none

namespace Machine

/-- The state of an actor with data of a name. -/
def stateOf? (m : Machine) (actor : ObjectId) (state : String) : Option ObjectId :=
  m.world.objects.find? (some .state) (some actor) (·.dataId == state)

/-- The machine with an object removed, and what was removed. -/
def destroyObject (m : Machine) (id : ObjectId) : List ObjectId × Machine :=
  ((m.world.destroyObject id).1, { m with world := (m.world.destroyObject id).2 })

/-- The machine with a new object: below a parent, unless that is gone, or
below none. -/
def createObject? (m : Machine) (kind : ObjectKind) (dataId : String)
    (parent : Option ObjectId) : Option (ObjectId × Machine) :=
  let created := match parent with
    | some parent => m.world.objects.createChild? parent kind dataId
    | none => some (m.world.objects.create kind dataId)
  created.map fun (id, objects) => (id, { m with world.objects := objects })

end Machine

/-- Runs an action, before a host that takes its time with some calls. -/
def Action.run (deferred : HostCall → Bool) : Action → Act Flow
  | .setBoolean ref update operand => do
    Act.withSome (← Act.look operand.compute) fun b => do
      Act.change fun m =>
        m.write ref (.bool (update.apply ((m.readBool ref).getD false) b))
      Act.next
  | .setNumber ref update operand => do
    Act.withSome (← Act.draw fun m => operand.compute (NumberInput.compute m)) fun x => do
      Act.change fun m =>
        let y := update.apply ((m.readNumber ref).getD 0.0) x
        if y.isFinite then m.write ref (.number y) else m
      Act.next
  | .setText ref update operand => do
    Act.withSome (← Act.draw operand.compute) fun s => do
      Act.change fun m => m.write ref (.string (update.apply ((m.readText ref).getD "") s))
      Act.next
  | .setObject ref desc kind => do
    Act.withSome (← Act.look (·.resolve (some kind) desc)) fun id => do
      Act.change (·.write ref (.object id))
      Act.next
  | .setList ref items => do
    let values ← items.mapM fun item => Act.draw item.compute
    Act.change (·.write ref (.list (values.filterMap id)))
    Act.next
  | .pushItem ref item => do
    Act.withSome (← Act.draw item.compute) fun v => do
      Act.change fun m => m.write ref (.list ((m.readList ref).getD [] ++ [v]))
      Act.next
  | .removeItem ref item => do
    Act.withSome (← Act.draw item.compute) fun v => do
      Act.change fun m => m.write ref
        (.list (((m.readList ref).getD []).filter (fun item => !(item == v))))
      Act.next
  | .deleteVariable ref => do
    Act.change (·.delete ref)
    Act.next
  | .showText text awaited => do
    let shown ← Act.look text.render
    Act.call (.showText shown)
    if awaited then Act.pause (.text shown) else Act.next
  | .playAudio channel track volume => do
    Act.withSome (← Act.draw track.compute) fun track => do
      let channel ← Act.draw (computeOptional (fun c m => StringInput.compute m c) channel)
      let volume ← Act.draw (computeOptional (fun v m => NumberInput.compute m v) volume)
      Act.call (.playAudio (channelOf channel) track (clampVolume (volume.getD 1.0)))
      Act.next
  | .stopAudio track => do
    let track ← Act.draw (computeOptional (fun t m => StringInput.compute m t) track)
    Act.call (.stopAudio track)
    Act.next
  | .playAnimation target kind animation awaited => do
    Act.withSome (← Act.draw animation.compute) fun animation =>
      match target with
      | none => Act.await deferred awaited (.playAnimation none animation)
      | some desc => do
        Act.withSome (← Act.look (·.resolve (some kind) desc)) fun target =>
          Act.await deferred awaited (.playAnimation (some target) animation)
  | .moveActor actor x y awaited => do
    let actor ← Act.look (·.resolve (some .actor) actor)
    let x ← Act.draw x.compute
    let y ← Act.draw y.compute
    Act.withSome actor fun actor => Act.withSome x fun x => Act.withSome y fun y =>
      Act.await deferred awaited (.moveActor actor x y)
  | .castSkill caster skill target awaited => do
    let caster ← Act.look (·.resolve (some .actor) caster)
    let skill ← Act.look (·.resolve (some .skill) skill)
    Act.withSome caster fun caster => Act.withSome skill fun skill => do
      let target ← Act.look fun m => target.bind (m.resolve none)
      Act.await deferred awaited (.castSkill caster skill target)
  | .createObject kind dataId parent key slot ref => do
    let owner ← Act.look fun m => parent.bind (m.resolve none)
    if parent.isSome && owner.isNone then Act.next
    else
      Act.withSome (← Act.look (·.createObject? kind dataId owner)) fun (id, made) => do
        Act.change fun _ =>
          { made with world.objects := made.world.objects.modify id fun o => { o with key, slot } }
        match ref with
        | some ref => Act.change (·.write ref (.object id))
        | none => pure ()
        Act.next
  | .deleteObject desc kind => do
    Act.withSome (← Act.look (·.resolve (some kind) desc)) fun id => do
      let removed ← Act.look (·.destroyObject id)
      Act.change fun _ => removed.2
      if (← Act.look (·.context.ambient.owner)).any removed.1.contains then Act.finish
      else Act.next
  | .addState actor state => do
    Act.withSome (← Act.look (·.resolve (some .actor) actor)) fun actor => do
      Act.change fun m =>
        match m.stateOf? actor state with
        | some _ => m
        | none => ((m.createObject? .state state (some actor)).map (·.2)).getD m
      Act.next
  | .removeState actor state => do
    Act.withSome (← Act.look (·.resolve (some .actor) actor)) fun actor => do
      Act.change fun m =>
        match m.stateOf? actor state with
        | some id => (m.destroyObject id).2
        | none => m
      Act.next
  | .log message => do
    Act.call (.log (← Act.look message.render))
    Act.next
  | .script code => do
    let _ ← Machine.runScript code
    Act.next
  | .wait duration => do
    let ms ← Act.draw duration.compute
    Act.change fun m => { m with context := m.context.wait (ms.getD 0.0) }
    pure .stop
  | .pauseEvent handle => do
    match handle with
    | some ref => Act.change fun m => m.write ref (.event m.context.id)
    | none => pure ()
    Act.pause .signal
  | .continueEvent handle => do
    Act.withSome ((← Act.look (·.read handle)).bind Value.event?) fun id => do
      Act.change fun m => { m with world := m.world.requestResume id }
      Act.next
  | .stopEvent => Act.finish

end Cutscene
