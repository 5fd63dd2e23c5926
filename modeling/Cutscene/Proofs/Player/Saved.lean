import Cutscene.Proofs.Player.Pieces
import Cutscene.Proofs.Scheduler.Legible
/-!
# Player — what is saved and what is loaded

A start or a resume that tells of success has saved a state, and that state is
loaded again as it was if it is legible and refused otherwise
(`Player.load_of_execute`), as far as the digits of its numbers stand for them. What
is written without a check and then refused is a number that is not finite, which
has no digits, and a list that nests deeper than a reader goes down. A reader goes
down 127 levels, and the state has seven of its own around an item of an iteration,
so 120 are left there.
-/

namespace Cutscene

open Player (StateM.bind_apply StateM.pure_apply)

namespace PlayerState

/-- Does the saved state read back? -/
def legible (s : PlayerState) : Bool := Json.isWord s.frame && s.snapshot.legible 120

theorem decode?_reread {s : PlayerState} (h : s.snapshot.numbers.all Json.rereads) :
    decode? (Json.reread Json.maxDepth s.encode) = Option.guard legible s := by
  have hsnapshot : Snapshot.decode? (Json.reread (120 + 6) s.snapshot.encode) = _ :=
    Snapshot.decode?_reread h
  rw [Option.guard, legible]
  simp [encode, decode?, Json.maxDepth, List.lookup_cons, hsnapshot, ite_and]

/-- **The text of a saved state is read as the state if it is legible**, and
otherwise is refused. -/
theorem ofText_text {s : PlayerState} (hschema : s.schemaVersion = schema)
    (h : s.snapshot.numbers.all Json.rereads) :
    ofText s.text = if s.legible then .ok s else .error .stateText := by
  rw [ofText, text, Json.parse?_pretty, Option.bind_some, decode?_reread h, Option.guard]
  cases s.legible with
  | true => simp [hschema]
  | false => rfl

variable {σ : Type} {d : Disk (StateM σ)} {path : String} {s : PlayerState} {w w' : σ}

/-- A state that was saved was written last. -/
theorem write_of_save (h : s.save d path w = (.ok (), w')) :
    ∃ w₁, d.write path s.text w₁ = (.ok (), w') := by
  simp only [save, StateM.bind_apply] at h
  rcases hmake : d.makeDirectory (parentPath path) w with ⟨e | u, w₁⟩ <;>
    simp only [hmake, StateM.bind_apply] at h
  · exact absurd (congrArg Prod.fst h) (by simp [StateM.pure_apply])
  · rcases hwrite : d.write path s.text w₁ with ⟨e | u, w₂⟩ <;> simp only [hwrite] at h
    · exact absurd (congrArg Prod.fst h) (by simp [StateM.pure_apply])
    · obtain rfl : w₂ = w' := congrArg Prod.snd h
      exact ⟨w₁, hwrite⟩

/-- What is loaded after saving is what the text is read as. -/
theorem load_of_save (hd : d.Keeps) (h : s.save d path w = (.ok (), w')) :
    load d path w' = (ofText s.text, w') := by
  obtain ⟨w₁, hwrite⟩ := write_of_save h
  obtain ⟨hsort, hread⟩ := hd hwrite
  simp only [load, StateM.bind_apply, hsort, hread]
  rfl

end PlayerState

namespace Player

theorem schemaVersion_of_stateAfter {id version : String} {frames : Nat} {p : Played}
    {next : PlayerState} (h : stateAfter id version frames p = .ok next) :
    next.schemaVersion = PlayerState.schema := by
  rw [stateAfter] at h
  cases hs : p.scheduler.snapshot with
  | error e => simp [hs] at h
  | ok snapshot =>
    simp only [hs] at h
    obtain rfl := Except.ok.inj h
    rfl

/-- Does the answer tell that all went well? -/
def Answer.isOk (a : Answer) : Bool := a.lines.head? == some "RESULT:OK"

variable {scripts : Script.Language} {σ : Type} {d : Disk (StateM σ)} {stateOut : String}
  {w w' : σ} {a : Answer}
  {next : PlayerState}

/-- The answer tells of a play, and the state after it was saved last. -/
def Saves (d : Disk (StateM σ)) (stateOut : String) (a : Answer) (w' : σ) (next : PlayerState) :
    Prop :=
  ∃ id version frames p w₁, stateAfter id version frames p = .ok next ∧
    next.save d stateOut w₁ = (.ok (), w') ∧ a = .played p (some stateOut)

/-- What was saved is loaded as it was if it is legible, and otherwise refused. -/
theorem Saves.load (hd : d.Keeps) (h : Saves d stateOut a w' next)
    (hnumbers : next.snapshot.numbers.all Json.rereads) :
    PlayerState.load d stateOut w' =
      (if next.legible then .ok next else .error .stateText, w') := by
  obtain ⟨id, version, frames, p, w₁, hstate, hsave, -⟩ := h
  rw [PlayerState.load_of_save hd hsave,
    PlayerState.ofText_text (schemaVersion_of_stateAfter hstate) hnumbers]

end Player

end Cutscene
