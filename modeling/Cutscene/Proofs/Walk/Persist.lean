import Cutscene.Proofs.Walk.Lowering
/-!
# Walking — walks that have ended

Ticks only say how far a walk goes: one that has ended ends alike when it is
given more, with the more left (`Library.walk_persists`). So a plain event whose
walk ends finishes after enough advances, whatever the budget of each, with what
the walk has come to (`Library.IsPlain.exists_finished`).
-/

namespace Cutscene

namespace Walked

variable {ticks ticks' more : Nat}

@[simp] theorem end?_widen (w : Walked ticks) (h : ticks ≤ ticks') : (w.widen h).end? = w.end? := by
  cases w <;> rfl

/-- If the first walk has ended, so has the other, with more ticks left. -/
def Persists (more : Nat) (w : Walked ticks) (w' : Walked ticks') : Prop :=
  ∀ exit left m, w.end? = some (exit, left, m) → w'.end? = some (exit, left + more, m)

theorem Persists.of_out {m : Machine} {w' : Walked ticks'} :
    Persists more (.out m : Walked ticks) w' :=
  fun _ _ _ h => by simp [end?] at h

theorem Persists.of_ended {exit : Exit} {left : Nat} {h : left ≤ ticks} {h' : left + more ≤ ticks'}
    {m : Machine} : Persists more (.ended exit left h m) (.ended exit (left + more) h' m) := by
  rintro _ _ _ ⟨⟩
  rfl

theorem Persists.widen {w : Walked ticks} {w' : Walked ticks'} (h : w.Persists more w') {n n' : Nat}
    (hle : ticks ≤ n) (hle' : ticks' ≤ n') : (w.widen hle).Persists more (w'.widen hle') := by
  intro exit left m hw
  rw [end?_widen] at hw ⊢
  exact h exit left m hw

/-- What comes after a walk persists if the walk does. -/
theorem Persists.onward {w : Walked ticks} {w' : Walked ticks'} (h : w.Persists more w')
    {next : Exit → (left : Nat) → left ≤ ticks → Machine → Walked left}
    {next' : Exit → (left : Nat) → left ≤ ticks' → Machine → Walked left}
    (hnext : ∀ exit left hleft hleft' m,
      (next exit left hleft m).Persists more (next' exit (left + more) hleft' m)) :
    (w.onward next).Persists more (w'.onward next') := by
  cases w with
  | out m => exact .of_out
  | ended exit left hleft m =>
    have hended := h exit left m rfl
    cases w' with
    | out m' => simp [end?] at hended
    | ended exit' left' hleft' m' =>
      simp only [end?, Option.some.injEq, Prod.mk.injEq] at hended
      obtain ⟨rfl, rfl, rfl⟩ := hended
      exact (hnext exit' left hleft hleft' m').widen hleft hleft'

end Walked

namespace Library

variable {l : Library} {ticks more : Nat}

/-- Walks of so many ticks persist. -/
def Persists (l : Library) (more ticks : Nat) : Prop :=
  ∀ inLoop block m, (l.walk inLoop block ticks m).Persists more
    (l.walk inLoop block (ticks + more) m)

theorem out_persists (inLoop : Bool) (block : Block) (m : Machine) {ticks' : Nat}
    {w' : Walked ticks'} : (l.walk inLoop block 0 m).Persists more w' := by
  rw [walk]
  exact .of_out

/-- After a body that has come to its end, a walk persists. -/
theorem Persists.comingBack (h : ∀ n ≤ ticks, l.Persists more n) (inLoop : Bool) (rest : Block)
    (m : Machine) {left : Nat} (hleft : left ≤ ticks) :
    ((l.walk inLoop rest (left - 1) m).widen (Nat.sub_le left 1)).Persists more
      ((l.walk inLoop rest (left + more - 1) m).widen (Nat.sub_le (left + more) 1)) := by
  cases left with
  | zero => exact (out_persists inLoop rest m).widen _ _
  | succ left =>
    have hmore : left + 1 + more - 1 = left + more := by omega
    refine Walked.Persists.widen ?_ _ _
    rw [hmore]
    exact h left (by omega) inLoop rest m

/-- A walk of a body that was chosen persists, if walks of its ticks do. -/
theorem Persists.chosen (h : ∀ n ≤ ticks, l.Persists more n) (inLoop : Bool) (body : Option Block)
    (rest : Block) (m : Machine) :
    (l.walkChosen inLoop body rest ticks m).Persists more
      (l.walkChosen inLoop body rest (ticks + more) m) := by
  cases body with
  | none =>
    rw [walkChosen, walkChosen]
    exact h ticks le_rfl inLoop rest m
  | some body =>
    rw [walkChosen, walkChosen]
    refine (h ticks le_rfl inLoop body m).onward fun exit left hleft _ m => ?_
    cases exit with
    | done => exact Persists.comingBack h inLoop rest m hleft
    | broke | continued | stopped => exact .of_ended

/-- So does one of the items left. -/
theorem Persists.items (h : ∀ n ≤ ticks, l.Persists more n) (inLoop : Bool) (ref : VariableRef)
    (body rest : Block) (items : Iteration) (m : Machine) :
    (l.walkItems inLoop ref body rest items ticks m).Persists more
      (l.walkItems inLoop ref body rest items (ticks + more) m) := by
  induction ticks using Nat.strongRecOn generalizing items m with
  | ind ticks ih =>
    rw [walkItems, walkItems]
    cases items.current? with
    | none => exact h ticks le_rfl inLoop rest m
    | some item =>
      refine (h ticks le_rfl true body _).onward fun exit left hleft hleft' m => ?_
      cases exit with
      | done | continued =>
        cases left with
        | zero => exact .of_out
        | succ left =>
          have hfewer : ∀ n ≤ left, l.Persists more n := fun n hn => h n (by omega)
          have hitems := ih left (by omega) hfewer items.next m
          revert hleft'
          rw [Nat.add_right_comm left 1 more]
          exact fun hleft' => hitems.widen _ _
      | broke => exact h left hleft inLoop rest m
      | stopped => exact .of_ended

/-- So does one of an event that is called, and of what comes after it. -/
theorem Persists.called (h : ∀ n ≤ ticks, l.Persists more n) (inLoop : Bool) (body rest : Block)
    (callee : Machine) (caller : Attributes) :
    ((l.walk false body ticks callee).onward fun exit left _ m =>
        match exit with
        | .stopped => .ended .stopped left (Nat.le_refl _) m
        | _ => (l.walk inLoop rest (left - 1) (m.withParameters caller)).widen
            (Nat.sub_le _ _)).Persists more
      ((l.walk false body (ticks + more) callee).onward fun exit left _ m =>
        match exit with
        | .stopped => .ended .stopped left (Nat.le_refl _) m
        | _ => (l.walk inLoop rest (left - 1) (m.withParameters caller)).widen
            (Nat.sub_le _ _)) := by
  refine (h ticks le_rfl false body callee).onward fun exit left hleft _ m => ?_
  cases exit with
  | stopped => exact .of_ended
  | done | broke | continued => exact Persists.comingBack h inLoop rest _ hleft

/-- So does one of a loop whose tester held, and of what comes after it. -/
theorem Persists.pass (h : ∀ n ≤ ticks, l.Persists more n) (inLoop : Bool) (body again rest : Block)
    (m : Machine) :
    ((l.walk true body ticks m).onward fun exit left _ m =>
        match exit with
        | .done | .continued => l.walk inLoop again left m
        | .broke => l.walk inLoop rest left m
        | .stopped => .ended .stopped left (Nat.le_refl _) m).Persists more
      ((l.walk true body (ticks + more) m).onward fun exit left _ m =>
        match exit with
        | .done | .continued => l.walk inLoop again left m
        | .broke => l.walk inLoop rest left m
        | .stopped => .ended .stopped left (Nat.le_refl _) m) := by
  refine (h ticks le_rfl true body m).onward fun exit left hleft _ m => ?_
  cases exit with
  | done | continued => exact h left hleft inLoop again m
  | broke => exact h left hleft inLoop rest m
  | stopped => exact .of_ended

/-- So does a walk of a block, if one of what stands after its first command
does: a command that takes no tick leaves as many. -/
theorem Persists.cons (h : ∀ n ≤ ticks, l.Persists more n) {inLoop : Bool} {m : Machine}
    {rest : Block}
    (hpast : (l.walk inLoop rest (ticks + 1) m).Persists more
      (l.walk inLoop rest (ticks + more + 1) m)) (position : Nat) (command : Command) :
    (l.walk inLoop (.cons position command rest) (ticks + 1) m).Persists more
      (l.walk inLoop (.cons position command rest) (ticks + more + 1) m) := by
  have hrest := fun m => (h ticks le_rfl inLoop rest m).widen (Nat.le_succ ticks)
    (Nat.le_succ (ticks + more))
  cases command with
  | action a =>
    rw [walk, walk]
    rcases a.run (fun _ => false) m with ⟨_ | _, m⟩
    · exact hrest m
    · exact .of_ended
  | ifElse branches otherwise =>
    rw [walk, walk]
    exact (Persists.chosen h inLoop _ rest _).widen _ _
  | switch subject cases default =>
    rw [walk, walk]
    exact (Persists.chosen h inLoop _ rest _).widen _ _
  | loop tester body =>
    rw [walk, walk]
    rcases tester.holds m with ⟨_ | _, m⟩
    · exact hrest m
    · exact (Persists.pass h inLoop body _ rest m).widen (Nat.le_succ _) (Nat.le_succ _)
  | forEach source ref body =>
    rw [walk, walk]
    exact (Persists.items h inLoop ref body rest _ _).widen _ _
  | breakLoop | continueLoop =>
    rw [walk, walk]
    cases inLoop with
    | true => exact .of_ended
    | false => exact hpast
  | call event params =>
    rw [walk, walk]
    cases l.get? event with
    | none => exact hrest m
    | some d => exact (Persists.called h inLoop _ rest _ _).widen _ _
  -- other commands are passed over
  | _ => simpa only [walk] using hpast

/-- So does a walk of any block. -/
theorem Persists.block (h : ∀ n ≤ ticks, l.Persists more n) (inLoop : Bool) (m : Machine)
    (block : Block) : (l.walk inLoop block (ticks + 1) m).Persists more
      (l.walk inLoop block (ticks + more + 1) m) := by
  cases block with
  | nil =>
    rw [walk, walk]
    rintro _ _ _ ⟨⟩
    simp only [Walked.end?, Nat.add_right_comm]
  | cons position command rest =>
    exact Persists.cons h (Persists.block h inLoop m rest) position command

/-- **A walk that has ended ends alike when it is given more ticks.** -/
theorem walk_persists (l : Library) (more ticks : Nat) : l.Persists more ticks := by
  induction ticks using Nat.strongRecOn with
  | ind ticks ih =>
    intro inLoop block m
    cases ticks with
    | zero => exact out_persists inLoop block m
    | succ ticks =>
      rw [Nat.add_right_comm]
      exact Persists.block (fun n hn => ih n (Nat.lt_succ_of_le hn)) inLoop m block

/-- **A plain event whose walk ends finishes** after enough advances, however
the steps are shared out over them, with what the walk has come to. -/
theorem IsPlain.exists_finished {e : Engine} {name : String} {d : EventDef} (h : l.IsPlain name)
    (he : e.Serves l) (hl : l.Lawful) (hd : l.get? name = some d) {id : EventId}
    {ambient : Ambient} {w : World} {exit : Exit} {left : Nat} {hleft : left ≤ ticks} {r : Machine}
    (hwalk : l.walk false (d.tree l.environment) ticks (.entering name id ambient w) =
      .ended exit left hleft r)
    {readings : List Reading} (henough : ticks ≤ readings.length * e.stepBudget) :
    ∃ m, (Machine.entering name id ambient w).advances e readings = some m ∧
      m.context.state.isFinished ∧ m.Agrees r := by
  obtain ⟨more, hmore⟩ := Nat.exists_eq_add_of_le henough
  have hended := l.walk_persists more ticks false (d.tree l.environment)
    (.entering name id ambient w) exit left r (by rw [hwalk]; rfl)
  rw [← hmore] at hended
  exact h.advances_of_ended he hl hd hended

end Library

end Cutscene
