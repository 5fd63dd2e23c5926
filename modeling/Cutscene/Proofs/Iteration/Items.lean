import Cutscene.Proofs.Iteration.Region
/-!
# Iterations — every item once, in order

An iteration computes its list when it starts. Then its body is entered once
for every item, in the order of the list, each time right after the variable
has been set to that item; and when the body ends for the last time, control
goes on after the iteration with the stack as it was
(`Library.Holds.visits_items`). What the body does to the list or to the
variable does not matter, nor which iterations and calls it makes, as long as it
is straight.

The law is about a context's record, so about its own steps in a row: whatever
happens to it or to the world between two of them is left open.
-/

namespace Cutscene

/-! ## The two steps of an iteration -/

/-- The machine with a variable set to an item, at the start of a body, with
these iterations under way. -/
def Machine.enteringItem (m : Machine) (ref : VariableRef) (item : Value) (body : BodyKey)
    (iterations : List Iteration) : Machine :=
  let m := m.write ref item
  { m with context := { m.context with place := ⟨body, 0⟩, iterations } }

/-- Setting the variable touches no more of the context than its variables. -/
theorem Machine.context_enteringItem (m : Machine) (ref : VariableRef) (item : Value)
    (body : BodyKey) (iterations : List Iteration) :
    ∃ attributes, (m.enteringItem ref item body iterations).context =
      { m.context with place := ⟨body, 0⟩, iterations, attributes } := by
  refine ⟨(m.write ref item).context.attributes, ?_⟩
  rw [enteringItem, write, modifyAt_eq, context_after]

theorem Machine.past_of_not_isLate {step : Step} (h : step.isLate = false) (m : Machine) :
    m.past step = m.onward := by
  unfold past World.bind
  rw [h]
  rfl

namespace Step

variable {e : Engine} {source : ListSource} {ref : VariableRef} {body : BodyKey} {exit : Place}
  {m : Machine} {random : Random}

/-- Without an item the body is not entered and the variable is not set. -/
theorem run_enterEach_nil (h : source.items m m.world.random = ([], random)) :
    Step.run e (.enterEach source ref body) m = (.flow .next, m.rolled random) := by
  rw [Step.run, Act.draw_bind, h]
  rfl

/-- **An iteration starts** with its first item. -/
theorem run_enterEach_cons {first : Value} {rest : List Value}
    (h : source.items m m.world.random = (first :: rest, random)) :
    Step.run e (.enterEach source ref body) m =
      (.flow .next, (m.rolled random).enteringItem ref first body
        (⟨(first :: rest).toArray, 0⟩ :: m.context.iterations)) := by
  have kept : ((m.rolled random).write ref first).context.iterations = m.context.iterations := by
    rw [Machine.write, Machine.modifyAt_eq, Machine.context_after]
    rfl
  rw [Step.run, Act.draw_bind, h, Machine.enteringItem, ← kept]
  rfl

/-- At the end of the body it is entered again with the next item, if there is
one. -/
theorem run_nextItem_enteringItem {current : Iteration} {outer : List Iteration} {item : Value}
    (under : m.context.iterations = current :: outer) (next : current.next.current? = some item)
    (program : m.context.place.program = body) :
    Step.run e (.nextItem ref exit) m =
      (.flow .next, m.enteringItem ref item body (current.next :: outer)) := by
  rw [run_nextItem_some under next]
  have place : (m.write ref item).context.place = m.context.place := by
    rw [Machine.write, Machine.modifyAt_eq, Machine.context_after]
  rw [Machine.enteringItem, ← program, ← place, Machine.write, Machine.modifyAt_eq]

end Step

/-! ## Entering and leaving the body -/

namespace Executed

/-- Did the step enter the body, below so many calls? -/
def enters (body : BodyKey) (level : Nat) (x : Executed) : Bool :=
  x.after.context.place == ⟨body, 0⟩ && x.after.context.calls.length == level

/-- Did the step leave the body at its end, below so many calls, and not enter
it again? -/
def leaves (a : Body) (level : Nat) (x : Executed) : Bool :=
  x.before.context.place == a.ending && x.before.context.calls.length == level &&
    !x.enters a.key level

/-- The steps that entered the body, in the order in which they were executed. -/
def entries (body : BodyKey) (level : Nat) (done : List Executed) : List Executed :=
  (done.filter (·.enters body level)).reverse

variable {body : BodyKey} {level : Nat} {x : Executed} {done : List Executed}

theorem entries_cons_of_enters (h : x.enters body level) :
    entries body level (x :: done) = entries body level done ++ [x] := by
  rw [entries, List.filter_cons_of_pos h, List.reverse_cons]
  rfl

theorem entries_cons_of_not_enters (h : x.enters body level = false) :
    entries body level (x :: done) = entries body level done := by
  rw [entries, List.filter_cons_of_neg (by simp [h])]
  rfl

/-- The entries of the body are in step with the items: the first was made with
the first item, the next one with the next, each right after it set the variable
to that item. -/
def Binds (ref : VariableRef) (items : List Value) (body : BodyKey) (iterations : List Iteration)
    (entries : List Executed) : Prop :=
  ∀ (i : Nat) (x : Executed), entries[i]? = some x →
    ∃ item random, items[i]? = some item ∧
      x.after = (x.before.onward.rolled random).enteringItem ref item body
        (⟨items.toArray, i⟩ :: iterations)

variable {ref : VariableRef} {items : List Value} {iterations : List Iteration}
  {entries : List Executed}

theorem binds_nil : Binds ref items body iterations [] :=
  fun _ _ none => by simp at none

/-- One more entry, with the item that is next. -/
theorem Binds.concat (h : Binds ref items body iterations entries) {item : Value}
    {random : Random} (next : items[entries.length]? = some item)
    (after : x.after = (x.before.onward.rolled random).enteringItem ref item body
      (⟨items.toArray, entries.length⟩ :: iterations)) :
    Binds ref items body iterations (entries ++ [x]) := by
  intro i y hy
  rcases Nat.lt_trichotomy i entries.length with earlier | rfl | later
  · rw [List.getElem?_append_left earlier] at hy
    exact h i y hy
  · rw [List.getElem?_concat_length] at hy
    obtain rfl := Option.some.inj hy
    exact ⟨item, random, next, after⟩
  · rw [List.getElem?_eq_none (by rw [List.length_append]; exact later)] at hy
    cases hy

/-- There are no more entries than items. -/
theorem Binds.length_le (h : Binds ref items body iterations entries) :
    entries.length ≤ items.length := by
  by_contra more
  obtain ⟨item, -, next, -⟩ := h items.length _ (List.getElem?_eq_getElem (Nat.lt_of_not_le more))
  rw [List.getElem?_eq_none le_rfl] at next
  cases next

end Executed

/-- The iteration goes through the items: some of the steps done entered its
body, with the first of the items in order; and a context that has not finished
is in the midst of the body for the item entered last. -/
structure Library.GoesThrough (l : Library) (a : Body) (ref : VariableRef) (items : List Value)
    (calls : List CallFrame) (iterations : List Iteration) (done : List Executed) (c : Context) :
    Prop where
  entered : 0 < (Executed.entries a.key calls.length done).length
  binds : Executed.Binds ref items a.key iterations (Executed.entries a.key calls.length done)
  amid : c.state.isFinished = false → c.Amid l a calls
    (⟨items.toArray, (Executed.entries a.key calls.length done).length - 1⟩ :: iterations)

namespace Library.GoesThrough

variable {e : Engine} {l : Library} {a : Body} {ref : VariableRef} {items : List Value}
  {calls : List CallFrame} {iterations : List Iteration} {done : List Executed} {c c' : Context}

/-- Whoever stands where the context stands is as far. -/
theorem of_amid (h : l.GoesThrough a ref items calls iterations done c)
    (amid : ∀ {its}, c.Amid l a calls its → c'.Amid l a calls its)
    (live : c.state.isFinished = false) : l.GoesThrough a ref items calls iterations done c' :=
  ⟨h.entered, h.binds, fun _ => amid (h.amid live)⟩

/-- **Entering the body with the next item.** -/
theorem enter {x : Executed} {item : Value} {random : Random}
    (before : Executed.Binds ref items a.key iterations
      (Executed.entries a.key calls.length done))
    (next : items[(Executed.entries a.key calls.length done).length]? = some item)
    (level : x.before.context.calls = calls)
    (after : x.after = (x.before.onward.rolled random).enteringItem ref item a.key
      (⟨items.toArray, (Executed.entries a.key calls.length done).length⟩ :: iterations)) :
    x.enters a.key calls.length ∧
      l.GoesThrough a ref items calls iterations (x :: done) x.after.context := by
  obtain ⟨attributes, context⟩ := (x.before.onward.rolled random).context_enteringItem ref item
    a.key (⟨items.toArray, (Executed.entries a.key calls.length done).length⟩ :: iterations)
  rw [← after] at context
  have place : x.after.context.place = ⟨a.key, 0⟩ := by rw [context]
  have same : x.after.context.calls = calls := by
    rw [context]
    exact level
  have enters : x.enters a.key calls.length := by
    rw [Executed.enters, place, same, beq_self_eq_true, beq_self_eq_true, Bool.and_self]
  refine ⟨enters, ?_, ?_, fun _ => ?_⟩
  · rw [Executed.entries_cons_of_enters enters, List.length_append]
    exact Nat.succ_pos _
  · rw [Executed.entries_cons_of_enters enters]
    exact before.concat next after
  · rw [Executed.entries_cons_of_enters enters, List.length_append, List.length_singleton,
      Nat.add_sub_cancel]
    exact .start same (by rw [context]) place

/-- Entering it with the first. -/
theorem first {x : Executed} {item : Value} {rest : List Value} {random : Random}
    (level : x.before.context.calls = calls)
    (after : x.after = (x.before.onward.rolled random).enteringItem ref item a.key
      (⟨(item :: rest).toArray, 0⟩ :: iterations)) :
    l.GoesThrough a ref (item :: rest) calls iterations [x] x.after.context :=
  (enter Executed.binds_nil rfl level after).2

/-- **One step of a context in the midst of the body.** At the end of the body
it enters it with the next item, or, after the last one, leaves it; elsewhere
it stays in it. -/
theorem step (h : l.GoesThrough a ref items calls iterations done c) (ha : l.Holds a)
    (hl : l.Lawful) (straight : l.Straight a) (he : e.Serves l) {exit : Place}
    (terminal : a.terminal = .nextItem ref exit) (outside : exit ≠ ⟨a.key, 0⟩)
    (size : items.length < UInt64.size) {x : Executed} {step : Step} {o : Outcome}
    (executed : x.Of e step o) (before : x.before.context = c) :
    if x.leaves a calls.length then
      (Executed.entries a.key calls.length done).length = items.length ∧
        x.before.context.calls = calls ∧
        x.after = x.before.steer { x.before.context with place := exit, iterations }
    else l.GoesThrough a ref items calls iterations (x :: done) x.after.context := by
  subst before
  have amid := h.amid (RunState.isFinished_of_isRunning executed.running)
  by_cases ending : x.before.context.place = a.ending ∧
      x.before.context.calls.length = calls.length
  · obtain ⟨same, under⟩ := amid.of_ending ending.1 ending.2
    have here : e.step? x.before.context.place = some (.nextItem ref exit) := by
      rw [ending.1, Body.ending, he.step? hl ha, Body.step_terminal, terminal]
    obtain rfl := Option.some.inj (executed.here.symm.trans here)
    have run := executed.run
    rw [Machine.past_of_not_isLate rfl] at run
    have onward : x.before.onward.context.iterations = _ := under
    have program : x.before.onward.context.place.program = a.key :=
      congrArg Place.program ending.1
    -- the iteration goes on at the index that counts the entries so far
    have current : Iteration.next
        ⟨items.toArray, (Executed.entries a.key calls.length done).length - 1⟩ =
          ⟨items.toArray, (Executed.entries a.key calls.length done).length⟩ := by
      rw [Iteration.next, Nat.sub_add_cancel h.entered,
        Nat.mod_eq_of_lt (h.binds.length_le.trans_lt size)]
    cases next : items[(Executed.entries a.key calls.length done).length]? with
    | some item =>
      have more : (Iteration.next ⟨items.toArray,
          (Executed.entries a.key calls.length done).length - 1⟩).current? = some item := by
        rw [current]
        simpa [Iteration.current?] using next
      rw [Step.run_nextItem_enteringItem onward more program, current] at run
      obtain ⟨-, after⟩ := Prod.mk.inj run
      -- nothing was drawn, so the state of the generator is the same
      have entering : x.after =
          (x.before.onward.rolled x.before.world.random).enteringItem ref item a.key
            (⟨items.toArray, (Executed.entries a.key calls.length done).length⟩ :: iterations) :=
        after.symm
      obtain ⟨enters, goes⟩ := enter h.binds next same entering
      rw [Executed.leaves, enters, Bool.not_true, Bool.and_false, if_neg Bool.false_ne_true]
      exact goes
    | none =>
      have last : ∀ i ∈ x.before.onward.context.iterations.head?, i.next.current? = none := by
        intro i hi
        rw [onward] at hi
        obtain rfl := Option.some.inj hi
        rw [current]
        simpa [Iteration.current?] using next
      rw [Step.run_nextItem_none last] at run
      obtain ⟨-, after⟩ := Prod.mk.inj run
      have left : x.after = x.before.steer { x.before.context with place := exit, iterations } := by
        rw [← after]
        simp only [Machine.onward, Machine.steer, Context.goto, under, List.tail_cons]
      have leaves : x.leaves a calls.length := by
        rw [Executed.leaves, Executed.enters, left]
        simp [Machine.steer, ending.1, same, outside]
      rw [if_pos leaves]
      exact ⟨h.binds.length_le.antisymm (List.getElem?_eq_none_iff.1 next), same, left⟩
  · obtain ⟨id, vars, turn⟩ := executed.exists_turn
    obtain ⟨stays, beyond⟩ := amid.turn ha hl straight he (fun place level => ending ⟨place, level⟩)
      executed.here turn
    have enters : x.enters a.key calls.length = false := by
      rw [Executed.enters, Bool.and_eq_false_imp]
      exact fun place => beq_eq_false_iff_ne.2 fun level => beyond level (beq_iff_eq.1 place)
    have leaves : x.leaves a calls.length = false := by
      rw [Executed.leaves, Bool.and_eq_false_imp]
      intro both
      rw [Bool.and_eq_true, beq_iff_eq, beq_iff_eq] at both
      exact absurd both ending
    rw [leaves, if_neg Bool.false_ne_true]
    rw [← Executed.entries_cons_of_not_enters enters] at stays
    exact ⟨by rw [Executed.entries_cons_of_not_enters enters]; exact h.entered,
      by rw [Executed.entries_cons_of_not_enters enters]; exact h.binds, stays⟩

/-- **All the steps of a context from the first entry on**, until one leaves the
body. -/
theorem of_did {start : Executed} {later earlier : List Executed}
    (first : l.GoesThrough a ref items calls iterations [start] start.after.context)
    (ha : l.Holds a) (hl : l.Lawful) (straight : l.Straight a) (he : e.Serves l) {exit : Place}
    (terminal : a.terminal = .nextItem ref exit) (outside : exit ≠ ⟨a.key, 0⟩)
    (size : items.length < UInt64.size) (did : c.Did e (later ++ start :: earlier))
    (inside : ∀ x ∈ later, x.leaves a calls.length = false) :
    l.GoesThrough a ref items calls iterations (later ++ [start]) c := by
  generalize hdone : later ++ start :: earlier = done at did
  induction did generalizing later with
  | new h => simp at hdone
  | @step done x s o did executed ih =>
    cases later with
    | nil =>
      obtain ⟨rfl, rfl⟩ := List.cons.inj hdone
      exact first
    | cons last middle =>
      obtain ⟨rfl, rfl⟩ := List.cons.inj hdone
      obtain ⟨here, inside⟩ := List.forall_mem_cons.1 inside
      have goes := (ih inside rfl).step ha hl straight he terminal outside size executed rfl
      rwa [here, if_neg Bool.false_ne_true] at goes
  | pass did running here custom ih =>
    exact (ih inside hdone).of_amid (fun amid => amid.goto rfl)
      (RunState.isFinished_of_isRunning running)
  | stand did live same ih =>
    exact (ih inside hdone).of_amid (fun amid => amid.of_control same) live

end Library.GoesThrough

/-! ## The law -/

/-- The body of an iteration ends in the step that goes on with the next item. -/
theorem Entry.terminal_of_forEach {s : Site} {x : Entry} {source : ListSource} {ref : VariableRef}
    {block : Block} (command : x.command = .forEach source ref block) {a : Body}
    (ha : a ∈ x.children s) : a.key = .child s.key x.position .body ∧
      a.terminal = .nextItem ref ⟨s.key, x.index + 1⟩ := by
  rw [Entry.children, command] at ha
  obtain rfl := List.mem_singleton.1 ha
  exact ⟨rfl, rfl⟩

/-- **Every item once, in order.** Let custom handlers leave control as it is,
and let an iteration's body be straight, with all events called from it. Every
context that executes a step has a record; and whatever record a context has, if
the iteration's step is in it, with the list that it computed then, the following
holds. (A list is shorter than the numbers of a machine word go.)

If the list is empty, the step went on to the next one, and neither set the
variable nor entered the body. Otherwise, as long as no later step left the
body, the steps that entered it did so once for each of the first items, in
order, each right after it set the variable to that item, and the context is in
the midst of the body. And when a step leaves the body, it has been entered once
for every item, and the step goes on after the iteration, with the calls and the
iterations as they were before it, and changes nothing else. -/
theorem Library.Holds.visits_items {e : Engine} {l : Library} (he : e.Serves l) (hl : l.Lawful)
    (hk : e.KeepsControl) {b a : Body} {x : Entry} {source : ListSource} {ref : VariableRef}
    {block : Block} (hb : l.Holds b) (hx : x ∈ b.entries)
    (command : x.command = .forEach source ref block) (ha : a ∈ x.children b.site)
    (straight : l.Straight a) :
    (∀ s : Scheduler, s.Reachable e → ∀ op : Operation, ∀ y ∈ op.visits s,
      y.context.HasRecord e) ∧
    ∀ (c : Context) (later earlier : List Executed) (start : Executed) (items : List Value)
      (random : Random), c.Did e (later ++ start :: earlier) →
      start.before.context.place = ⟨b.key, x.index⟩ →
      source.items start.before.onward start.before.world.random = (items, random) →
      items.length < UInt64.size →
      (items = [] → start.after = start.before.onward.rolled random) ∧
      (items ≠ [] →
        ((∀ r ∈ later, r.leaves a start.before.context.calls.length = false) →
          l.GoesThrough a ref items start.before.context.calls start.before.context.iterations
            (later ++ [start]) c) ∧
        ∀ last middle, later = last :: middle →
          (∀ r ∈ middle, r.leaves a start.before.context.calls.length = false) →
          last.leaves a start.before.context.calls.length →
          (Executed.entries a.key start.before.context.calls.length
            (middle ++ [start])).length = items.length ∧
          last.before.context.calls = start.before.context.calls ∧
          last.after = last.before.steer
            { last.before.context with
              place := ⟨b.key, x.index + 1⟩
              iterations := start.before.context.iterations }) := by
  obtain ⟨key, terminal⟩ := Entry.terminal_of_forEach command ha
  have held : l.Holds a := hb.child (Body.mem_children_iff.2 ⟨x, hx, ha⟩)
  have outside : (⟨b.key, x.index + 1⟩ : Place) ≠ ⟨a.key, 0⟩ := fun same =>
    absurd (Place.mk.inj same).2 (Nat.succ_ne_zero _)
  have step : e.step? ⟨b.key, x.index⟩ = some (.enterEach source ref a.key) := by
    have width : 0 < x.command.width := by
      rw [command]
      exact Nat.one_pos
    have get := Body.step_entry hx width
    rw [Nat.add_zero] at get
    rw [he.step? hl hb, get, Entry.steps, command, key]
    rfl
  refine ⟨fun s hs op y hy => hs.exists_record he hl hk hy, ?_⟩
  intro c later earlier start items random did place list size
  obtain ⟨s, o, -, executed⟩ := did.of_append
  obtain rfl := Option.some.inj (executed.here.symm.trans (place ▸ step))
  have run := executed.run
  rw [Machine.past_of_not_isLate rfl] at run
  cases items with
  | nil =>
    rw [Step.run_enterEach_nil list] at run
    obtain ⟨-, after⟩ := Prod.mk.inj run
    exact ⟨fun _ => after.symm, fun no => absurd rfl no⟩
  | cons item rest =>
    rw [Step.run_enterEach_cons list] at run
    obtain ⟨-, after⟩ := Prod.mk.inj run
    have first : l.GoesThrough a ref (item :: rest) start.before.context.calls
      start.before.context.iterations [start] start.after.context := .first rfl after.symm
    refine ⟨fun no => absurd no (List.cons_ne_nil _ _), fun _ => ⟨fun inside => ?_, ?_⟩⟩
    · exact first.of_did held hl straight he terminal outside size did inside
    · rintro last middle rfl inside leaves
      have latest : c.Did e ([] ++ last :: (middle ++ start :: earlier)) := did
      obtain ⟨s, o, did, executed⟩ := latest.of_append
      have goes := first.of_did held hl straight he terminal outside size did inside
      have left := goes.step held hl straight he terminal outside size executed rfl
      rwa [leaves, if_pos rfl] at left

/-- An event that goes through a list of two, empties the list while it does,
has a custom instruction, and calls an event that pauses. -/
def Library.emptying : Library :=
  let var (key : String) : Json := .object [("type", .string "local"), ("key", .string key)]
  let text (value : String) : Json :=
    .object [("type", .string "string"), ("value", .string value)]
  let setBag (values : List Json) : Json :=
    .object [("variable", var "bag"), ("values", .array values)]
  let list : Json := .object [("type", .string "variable"), ("variable", var "bag")]
  let body : Json := .array
    [.object [("id", .string "setList"), ("params", setBag [])],
     .object [("id", .string "custom")],
     .object [("id", .string "callEvent"), ("params", .object [("event", .string "ask")])]]
  { events := .ofList
      [("shop", ⟨"shop",
        [⟨"setList", setBag [text "sword", text "shield"]⟩,
         ⟨"forEach", .object [("list", list), ("variable", var "item"), ("commands", body)]⟩],
        .empty⟩),
       ("ask", ⟨"ask", [⟨"pauseEvent", .null⟩], .empty⟩)] }

/-- The list, the variable and the block of the iteration that the command is. -/
def Command.each? : Command → Option (ListSource × VariableRef × Block)
  | .forEach source ref block => some (source, ref, block)
  | _ => none

theorem Command.eq_of_each? {c : Command} {each : ListSource × VariableRef × Block}
    (h : c.each? = some each) : c = .forEach each.1 each.2.1 each.2.2 := by
  cases c <;> simp [each?] at h
  rw [← h]

/-- The event executed until the body is left: ten steps after the list was set,
and two custom ones, and the body was entered twice. -/
theorem Library.Holds.visits_items_emptying :
    Engine.Serves (.handling .emptying .tells) .emptying ∧ Library.emptying.Lawful ∧
      (Engine.handling .emptying .tells).KeepsControl ∧
      ∃ b a x source ref block, Library.emptying.Holds b ∧ x ∈ b.entries ∧
        x.command = .forEach source ref block ∧ a ∈ x.children b.site ∧
        Library.emptying.Straight a ∧
        ∃ c last middle start earlier items random,
          Context.Did (.handling .emptying .tells) (last :: (middle ++ start :: earlier)) c ∧
          start.before.context.place = ⟨b.key, x.index⟩ ∧
          source.items start.before.onward start.before.world.random = (items, random) ∧
          items.length = 2 ∧ (∀ r ∈ middle, r.leaves a 0 = false) ∧ last.leaves a 0 ∧
          (Executed.entries a.key 0 (middle ++ [start])).length = 2 ∧
          last.after.context.place = ⟨b.key, x.index + 1⟩ ∧
          last.after.context.iterations = [] ∧ last.after.world.trace.length = 2 := by
  have he : Engine.Serves (.handling .emptying .tells) .emptying := .ofLibrary .emptying
  have hl : Library.emptying.Lawful := by decide +kernel
  have hk := Engine.keepsControl_tells .emptying
  have straight : ∀ b ∈ Library.emptying.bodies, ∀ y ∈ b.entries, y.command.isStraight := by
    decide +kernel
  obtain ⟨done, c, did, recorded⟩ : ∃ done c, Context.Did (.handling .emptying .tells) done c ∧
      done = (Machine.recorded (.handling .emptying .tells) 14 []
        ⟨.start ⟨1⟩ "shop" (.root "shop") .none, .fresh 0⟩).1 :=
    ⟨_, _, Machine.did_recorded hk 14 (.new ⟨_, _, _, _, rfl⟩) rfl, rfl⟩
  have found : Library.emptying.bodies.any fun b => b.entries.any fun x => x.command.each?.any
      fun each => (x.children b.site).any fun a => done.head?.any fun last =>
        (done.drop 10).head?.any fun start =>
          start.before.context.place == ⟨b.key, x.index⟩ &&
          start.before.context.calls.length == 0 && start.before.context.iterations.length == 0 &&
          (each.1.items start.before.onward start.before.world.random).1.length == 2 &&
          (done.tail.take 9).all (fun r => !r.leaves a 0) && last.leaves a 0 &&
          last.after.world.trace.length == 2 := by
    rw [recorded]
    decide +kernel
  obtain ⟨b, hb, found⟩ := List.any_eq_true.1 found
  obtain ⟨x, hx, found⟩ := List.any_eq_true.1 found
  obtain ⟨⟨source, ref, block⟩, each, found⟩ := (Option.any_eq_true _ _).1 found
  have command := Command.eq_of_each? each
  obtain ⟨a, ha, found⟩ := List.any_eq_true.1 found
  obtain ⟨last, latest, found⟩ := (Option.any_eq_true _ _).1 found
  obtain ⟨start, first, found⟩ := (Option.any_eq_true _ _).1 found
  simp only [Bool.and_eq_true, beq_iff_eq, List.all_eq_true, Bool.not_eq_true'] at found
  obtain ⟨⟨⟨⟨⟨⟨place, calls⟩, iterations⟩, two⟩, inside⟩, leaves⟩, told⟩ := found
  -- the record, cut at the step that started the iteration
  obtain ⟨earlier, cut⟩ : ∃ earlier, done.tail.drop 9 = start :: earlier := by
    rw [List.drop_tail]
    exact ⟨_, List.eq_cons_of_mem_head? first⟩
  rw [List.eq_cons_of_mem_head? latest, ← List.take_append_drop 9 done.tail, cut] at did
  have held := Library.holds_iff.2 hb
  have straight : Library.emptying.Straight a :=
    (held.child (Body.mem_children_iff.2 ⟨x, hx, ha⟩)).straight_of_bodies straight
  obtain ⟨items, random, list⟩ : ∃ items random,
      source.items start.before.onward start.before.world.random = (items, random) := ⟨_, _, rfl⟩
  rw [list] at two
  have size : items.length < UInt64.size := by
    rw [show items.length = 2 from two]
    decide
  obtain ⟨-, law⟩ := held.visits_items he hl hk hx command ha straight
  obtain ⟨-, entered⟩ :=
    law _ (last :: done.tail.take 9) earlier start items random did place list size
  obtain ⟨-, left⟩ := entered fun none => by simp [none] at two
  rw [calls] at left
  obtain ⟨count, -, after⟩ := left last _ rfl inside leaves
  refine ⟨he, hl, hk, b, a, x, source, ref, block, held, hx, command, ha,
    straight, _, last, _, start, earlier, items, random, did, place, list, two, inside, leaves,
    count.trans two, ?_, ?_, told⟩
  · rw [after]
    rfl
  · rw [after]
    exact List.eq_nil_of_length_eq_zero iterations

end Cutscene
