import Cutscene.Proofs.Walk.Track
/-!
# Walking — passes

A loop is tested by two steps: the one that enters it and the one that its
body ends in (`Library.exists_paced_test`). Both do what the walk does before a
pass, so steps follow the walk of a loop from either place
(`Library.follows_loop`). The items of an iteration are bound by two steps
likewise; after either of them control stands where the current item says
(`Library.Aims`), and from there steps follow the walk of the items left
(`Library.follows_items`).
-/

namespace Cutscene

/-- The body of a loop. -/
def Body.ofLoop (s : Site) (position index : Nat) (tester : Tester) (body : Block) : Body :=
  ⟨s.looped position index false body, body, .repeatLoop tester ⟨s.key, index + 1⟩⟩

/-- The body of an iteration. -/
def Body.ofEach (s : Site) (position index : Nat) (ref : VariableRef) (body : Block) : Body :=
  ⟨s.looped position index true body, body, .nextItem ref ⟨s.key, index + 1⟩⟩

/-- Where control stands when the walk of a loop's body has ended. -/
theorem Exit.Lands.of_looped {s : Site} {position index : Nat} {each : Bool} {body : Block}
    {terminal : Step} {calls : List CallFrame} {iterations : List Iteration} {context : Context} :
    {exit : Exit} →
      exit.Lands ⟨s.looped position index each body, body, terminal⟩ calls iterations context →
      match exit with
      | .done | .continued =>
        context.Poised ⟨.child s.key position .body, body.width⟩ calls iterations
      | .broke =>
        context.Poised ⟨s.key, index + 1⟩ calls (if each then iterations.tail else iterations)
      | .stopped => context.state.isFinished
  | .done, h => h
  | .broke, ⟨_, haround, h⟩ => by
    obtain rfl := Option.some.inj haround
    exact h
  | .continued, ⟨_, haround, h⟩ => by
    obtain rfl := Option.some.inj haround
    exact h
  | .stopped, h => h

namespace Library

variable {l : Library} {e : Engine} {b c : Body} {inLoop : Bool} {calls : List CallFrame}
  {iterations : List Iteration} {index position : Nat} {rest body : Block}
  {m r : Machine} {times : List (Option Reading)} {ticks : Nat}

/-- Out of ticks, nothing is done. -/
theorem follows_out {block : Block} (hrunning : m.context.state.isRunning) (hr : m.Agrees r)
    (htimes : times.length = 0) :
    (l.walk inLoop block 0 r).Follows e b calls iterations (Machine.pace e times m) := by
  rw [List.length_eq_zero_iff.1 htimes, Library.walk]
  exact ⟨m, rfl, hrunning, hr⟩

/-! ## Loops -/

section Loop

variable {tester : Tester}

/-- The body of a loop stands in the loop. -/
theorem Spot.ofLoop (h : l.Spot b inLoop)
    (htail : b.Tail index (.cons position (.loop tester body) rest)) :
    l.Spot (.ofLoop b.site position index tester body) true :=
  h.child (Body.mem_children_iff.2 ⟨_, htail.mem_entries, List.mem_singleton_self _⟩) rfl

/-- **The step that enters a loop and the one at the end of its body test
alike**, and go on in the body or after the loop. -/
theorem exists_paced_test (he : e.Serves l) (hl : l.Lawful) (h : l.Spot b inLoop)
    (htail : b.Tail index (.cons position (.loop tester body) rest))
    {place : Place}
    (hplace : place = ⟨b.key, index⟩ ∨ place = ⟨.child b.key position .body, body.width⟩)
    (hm : m.context.Poised place calls iterations) (hr : m.Agrees r) (time : Option Reading) :
    ∃ holds r' y, tester.holds r = (holds, r') ∧ y.Agrees r' ∧
      y.context.Poised (if holds then ⟨.child b.key position .body, 0⟩ else ⟨b.key, index + 1⟩)
        calls iterations ∧
      ∀ times, Machine.pace e (time :: times) m = Machine.pace e times y := by
  have htraced : Act.Traced True False tester.holds := by
    have hplain : (Command.loop tester body).isPlain := h.isPlain htail
    exact tester.traced fun _ => hplain
  have hbody := h.ofLoop htail
  rcases hplace with rfl | rfl
  · obtain ⟨holds, x, r', hholds, hx, hpoised, hpace⟩ :=
      Machine.exists_paced htraced rfl (h.step? he hl htail rfl) hm hr time
    cases holds with
    | true =>
      exact ⟨true, r', x.steer (x.context.goto ⟨.child b.key position .body, 0⟩), hholds,
        hx.goto _, hpoised.goto _, hpace .next _ rfl⟩
    | false => exact ⟨false, r', x, hholds, hx, hpoised, hpace .next x rfl⟩
  · obtain ⟨holds, x, r', hholds, hx, hpoised, hpace⟩ :=
      Machine.exists_paced htraced rfl (hbody.step?_terminal he hl) hm hr time
    cases holds with
    | true =>
      have hfirst : { x.context.place with index := 0 } = ⟨.child b.key position .body, 0⟩ := by
        rw [hpoised.place]
        rfl
      refine ⟨true, r', x.steer (x.context.goto { x.context.place with index := 0 }), hholds,
        hx.goto _, ?_, hpace .next _ rfl⟩
      rw [hfirst]
      exact hpoised.goto _
    | false =>
      exact ⟨false, r', x.steer (x.context.goto ⟨b.key, index + 1⟩), hholds, hx.goto _,
        hpoised.goto _, hpace .next _ rfl⟩

/-- **A loop**, before its first pass or a further one. -/
theorem follows_loop (ht : ∀ n < ticks, l.Tracks e n) (he : e.Serves l) (hl : l.Lawful)
    (h : l.Spot b inLoop)
    (htail : b.Tail index (.cons position (.loop tester body) (rest.pruned inLoop)))
    {place : Place}
    (hplace : place = ⟨b.key, index⟩ ∨ place = ⟨.child b.key position .body, body.width⟩)
    (hm : m.context.Poised place calls iterations) (hr : m.Agrees r)
    (htimes : times.length = ticks) :
    (l.walk inLoop (.cons position (.loop tester body) rest) ticks r).Follows e b calls iterations
      (Machine.pace e times m) := by
  -- by induction on the ticks: after a pass the loop is walked again with fewer
  induction ticks using Nat.strongRecOn generalizing m r times place with
  | ind ticks ih =>
    cases ticks with
    | zero => exact follows_out hm.running hr htimes
    | succ ticks =>
      obtain ⟨time, times, rfl⟩ := List.exists_cons_of_length_eq_add_one htimes
      have hticks : times.length = ticks := Nat.succ.inj htimes
      obtain ⟨holds, r', y, hholds, hy, hpoised, hpace⟩ :=
        exists_paced_test he hl h htail hplace hm hr time
      have hbody := h.ofLoop htail
      rw [Library.walk, hholds, hpace]
      cases holds with
      | false =>
        exact ((ht ticks (Nat.lt_succ_self _)).onRest h htail rfl hpoised hy hticks).widen
          (Nat.le_succ _)
      | true =>
        have hpass := (ht ticks (Nat.lt_succ_self _)).onBody hbody body.pruned_true.symm hpoised hy
          hticks
        refine (hpass.onward ?_).widen (Nat.le_succ _)
        intro exit left hleft r'' times' m' htimes' hpositive hlands hr''
        have hlands := hlands.of_looped
        have hless : left < ticks + 1 := Nat.lt_succ_of_le hleft
        have hfewer : ∀ n < left, l.Tracks e n := fun n hn => ht n (Nat.lt_trans hn hless)
        cases exit with
        | done | continued => exact ih left hless hfewer (.inr rfl) hlands hr'' htimes'
        | broke => exact (ht left hless).onRest h htail rfl hlands hr'' htimes'
        | stopped => exact ⟨times', m', htimes', by simp, rfl, hlands, hr''⟩

end Loop

/-! ## Iterations -/

section Each

variable {source : ListSource} {ref : VariableRef} {items : Iteration}

/-- The body of an iteration stands in a loop. -/
theorem Spot.ofEach (h : l.Spot b inLoop)
    (htail : b.Tail index (.cons position (.forEach source ref body) rest)) :
    l.Spot (.ofEach b.site position index ref body) true :=
  h.child (Body.mem_children_iff.2 ⟨_, htail.mem_entries, List.mem_singleton_self _⟩) rfl

/-- Control stands where the current item of a list says: in the body, with
the item bound, or after the iteration. -/
def Aims (b : Body) (position index : Nat) (ref : VariableRef) (calls : List CallFrame)
    (iterations : List Iteration) (items : Iteration) (r m : Machine) : Prop :=
  match items.current? with
  | none => m.context.Poised ⟨b.key, index + 1⟩ calls iterations ∧ m.Agrees r
  | some item => m.context.Poised ⟨.child b.key position .body, 0⟩ calls (items :: iterations) ∧
      m.Agrees (r.write ref item)

/-- The step that enters an iteration aims at its first item. -/
theorem exists_paced_enterEach (he : e.Serves l) (hl : l.Lawful) (h : l.Spot b inLoop)
    (htail : b.Tail index (.cons position (.forEach source ref body) rest))
    (hm : m.context.Poised ⟨b.key, index⟩ calls iterations) (hr : m.Agrees r)
    (time : Option Reading) :
    ∃ list r' y, Act.draw source.items r = (list, r') ∧
      Aims b position index ref calls iterations ⟨list.toArray, 0⟩ r' y ∧
      ∀ times, Machine.pace e (time :: times) m = Machine.pace e times y := by
  have htraced : Act.Traced True False (Act.draw source.items) := by
    have hplain : (Command.forEach source ref body).isPlain := h.isPlain htail
    exact Act.traced_draw fun _ _ _ hm => hm.listSource hplain
  obtain ⟨list, x, r', hlist, hx, hpoised, hpace⟩ :=
    Machine.exists_paced htraced rfl (h.step? he hl htail rfl) hm hr time
  cases list with
  | nil => exact ⟨[], r', x, hlist, ⟨hpoised, hx⟩, hpace .next x rfl⟩
  | cons first rest =>
    let items : Iteration := ⟨(first :: rest).toArray, 0⟩
    let y := (x.write ref first).steer
      ({ (x.write ref first).context with
        iterations := items :: (x.write ref first).context.iterations }.goto
          ⟨.child b.key position .body, 0⟩)
    refine ⟨first :: rest, r', y, hlist, ?_, hpace .next y rfl⟩
    have hwritten := hx.write ref first
    have hstill := hpoised.write ref first
    exact ⟨⟨hstill.running, rfl, hstill.calls, congrArg (items :: ·) hstill.iterations⟩,
      hwritten.id, hwritten.name, hwritten.attributes, hwritten.ambient, hwritten.world⟩

/-- The step at the end of an iteration's body aims at the next item. -/
theorem exists_paced_nextItem (he : e.Serves l) (hl : l.Lawful) (h : l.Spot b inLoop)
    (htail : b.Tail index (.cons position (.forEach source ref body) rest))
    (hm : m.context.Poised ⟨.child b.key position .body, body.width⟩ calls (items :: iterations))
    (hr : m.Agrees r) (time : Option Reading) :
    ∃ y, Aims b position index ref calls iterations items.next r y ∧
      ∀ times, Machine.pace e (time :: times) m = Machine.pace e times y := by
  obtain ⟨x, hx, hpoised, hpace⟩ :=
    Machine.exists_paced_now ((h.ofEach htail).step?_terminal he hl) hm hr time
  cases hnext : items.next.current? with
  | none =>
    have hlast : ∀ current ∈ x.context.iterations.head?, current.next.current? = none := by
      intro current hcurrent
      rw [hpoised.iterations] at hcurrent
      rw [← Option.some.inj hcurrent, hnext]
    refine ⟨_, ?_, hpace .next _ (Step.run_nextItem_none hlast)⟩
    rw [Aims, hnext]
    exact ⟨⟨hpoised.running, rfl, hpoised.calls, congrArg List.tail hpoised.iterations⟩,
      hx.id, hx.name, hx.attributes, hx.ambient, hx.world⟩
  | some item =>
    refine ⟨_, ?_, hpace .next _ (Step.run_nextItem_some hpoised.iterations hnext)⟩
    rw [Aims, hnext]
    have hwritten := hx.write ref item
    have hstill := hpoised.write ref item
    rw [Machine.write, Machine.modifyAt_eq] at hwritten hstill
    exact ⟨⟨hstill.running, congrArg (Place.mk · 0) (congrArg Place.program hstill.place),
      hstill.calls, rfl⟩,
      hwritten.id, hwritten.name, hwritten.attributes, hwritten.ambient, hwritten.world⟩

/-- **The items that are left of an iteration.** -/
theorem follows_items (ht : ∀ n ≤ ticks, l.Tracks e n) (he : e.Serves l) (hl : l.Lawful)
    (h : l.Spot b inLoop)
    (htail : b.Tail index (.cons position (.forEach source ref body) (rest.pruned inLoop)))
    (hm : Aims b position index ref calls iterations items r m) (htimes : times.length = ticks) :
    (l.walkItems inLoop ref body rest items ticks r).Follows e b calls iterations
      (Machine.pace e times m) := by
  -- by induction on the ticks: the next item is bound with fewer
  induction ticks using Nat.strongRecOn generalizing m r times items with
  | ind ticks ih =>
    rw [Aims] at hm
    rw [Library.walkItems]
    cases hitem : items.current? with
    | none =>
      rw [hitem] at hm
      exact (ht ticks le_rfl).onRest h htail rfl hm.1 hm.2 htimes
    | some item =>
      rw [hitem] at hm
      have hpass := (ht ticks le_rfl).onBody (h.ofEach htail) body.pruned_true.symm hm.1 hm.2
        htimes
      refine hpass.onward ?_
      intro exit left hleft r' times' m' htimes' hpositive hlands hr'
      have hlands := hlands.of_looped
      cases exit with
      | done | continued =>
        cases left with
        | zero =>
          rw [List.length_eq_zero_iff.1 htimes']
          exact ⟨m', rfl, hlands.running, hr'⟩
        | succ left =>
          obtain ⟨time, times', rfl⟩ := List.exists_cons_of_length_eq_add_one htimes'
          obtain ⟨y, hy, hpace⟩ := exists_paced_nextItem he hl h htail hlands hr' time
          rw [hpace]
          have hfewer : ∀ n ≤ left, l.Tracks e n := fun n hn => ht n (by omega)
          exact (ih left (by omega) hfewer hy (Nat.succ.inj htimes')).widen (Nat.le_succ _)
      | broke => exact (ht left hleft).onRest h htail rfl hlands hr' htimes'
      | stopped => exact ⟨times', m', htimes', by simp, rfl, hlands, hr'⟩

end Each

end Library

end Cutscene
