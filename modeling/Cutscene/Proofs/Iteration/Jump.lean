import Cutscene.Proofs.Iteration.Depth
import Cutscene.Proofs.Program.Resolve
import Cutscene.Proofs.Scheduler.Sustain
import Mathlib.Data.Finset.Card
/-!
# Iterations — what a jump drops

A jump counts: it drops as many iterations as its body is deeper than its
label's. The iterations that it leaves are those around it and not around the
label. The two are the same as long as the jump leaves no iteration or enters
none, so for every jump outward, inward or within a body
(`Library.Lawful.jump_drops`). A jump from one iteration into another that
stands beside it leaves one and enters one; it drops none, and the label's
body goes on with the items of the body it came from
(`Library.exists_iteration_kept`).
-/

namespace Cutscene

namespace Library

variable {l : Library}

/-! ## Iterations left and entered -/

/-- The bodies of iterations around what stands under the first key that are
not around what stands under the second. -/
def leaving (l : Library) (origin target : BodyKey) : Finset BodyKey :=
  (l.eaches origin).toFinset \ (l.eaches target).toFinset

/-- The iterations around both keys are counted on either side. -/
theorem depth_eq_card_leaving (origin target : BodyKey) :
    l.depth origin = (l.leaving origin target).card +
      ((l.eaches origin).toFinset ∩ (l.eaches target).toFinset).card := by
  rw [leaving, Finset.card_sdiff_add_card_inter, List.toFinset_card_of_nodup (nodup_eaches origin),
    depth]

/-- **The difference in depth** is what a jump leaves, less what it enters. -/
theorem depth_sub_depth (origin target : BodyKey) :
    l.depth origin - l.depth target =
      (l.leaving origin target).card - (l.leaving target origin).card := by
  have left := l.depth_eq_card_leaving origin target
  have entered := l.depth_eq_card_leaving target origin
  rw [Finset.inter_comm] at entered
  omega

/-- The difference is what is left, if nothing is entered or nothing left. -/
theorem depth_sub_depth_eq_iff (origin target : BodyKey) :
    l.depth origin - l.depth target = (l.leaving origin target).card ↔
      l.leaving origin target = ∅ ∨ l.leaving target origin = ∅ := by
  rw [depth_sub_depth, ← Finset.card_eq_zero, ← Finset.card_eq_zero]
  omega

/-! ## Jumps -/

/-- **A jump drops the iterations by which it is deeper than its label.**
Executed with one iteration under way for each body around it, it goes on
behind the label; it takes the innermost iterations off, the rest of them and
those below stay as they are, and nothing else changes. They are as many as it
leaves, unless it leaves some and enters others. -/
theorem Lawful.jump_drops (hl : l.Lawful) {engine : Engine} (he : engine.Serves l)
    {u b b' : Body} {e e' : Entry} {name : String} (hu : l.HoldsUnit u) (hb : u.Inside b)
    (hmem : e ∈ b.entries) (hcommand : e.command = .jump .plain name)
    (hlast : u.lastLabel? name = some (b', e')) :
    ∃ dropped, dropped = (l.leaving b.key b'.key).card - (l.leaving b'.key b.key).card ∧
      (dropped = (l.leaving b.key b'.key).card ↔
        l.leaving b.key b'.key = ∅ ∨ l.leaving b'.key b.key = ∅) ∧
      ∀ (m : Machine) (inner outer : List Iteration), m.context.state.isRunning →
        m.context.place = ⟨b.key, e.index⟩ → m.context.iterations = inner ++ outer →
        inner.length = l.depth b.key → ∀ spawn budget,
        Machine.steps engine spawn (budget + 1) m = Machine.steps engine spawn budget
          { m with
            context :=
              { m.context with
                place := ⟨b'.key, e'.index⟩
                iterations := inner.drop dropped ++ outer } } := by
  refine ⟨l.depth b.key - l.depth b'.key, depth_sub_depth _ _, depth_sub_depth_eq_iff _ _, ?_⟩
  intro m inner outer running place iterations enough spawn budget
  have hholds : l.Holds b := hu.1.inside hb
  have hholds' : l.Holds b' := hu.1.inside (Body.command_of_lastLabel? hlast).1
  -- the layout has counted the depths at the jump and at its label
  have label : b.site.labels.get? name = some (Body.mark (b', e')) := by
    rw [hb.labels_eq, hu.2.get?_labels, hlast]
    rfl
  have jump : b.site.jump .plain name =
      .jump ⟨b'.key, e'.index⟩ (l.depth b.key - l.depth b'.key) := by
    unfold Site.jump
    rw [label, hholds.depth_eq hl, ← hholds'.depth_eq hl]
    rfl
  have here : engine.step? m.context.place =
      some (.jump ⟨b'.key, e'.index⟩ (l.depth b.key - l.depth b'.key)) := by
    have step := Body.step_entry hmem (k := 0) (by rw [hcommand]; exact Nat.one_pos)
    rw [Nat.add_zero, Entry.steps, hcommand] at step
    rw [place, he.step? hl hholds, step, ← jump]
    rfl
  rw [Machine.steps_of_run running here rfl]
  have kept : m.context.iterations.drop (l.depth b.key - l.depth b'.key) =
      inner.drop (l.depth b.key - l.depth b'.key) ++ outer := by
    rw [iterations, List.drop_append_of_le_length (by omega)]
  rw [← kept]
  rfl

end Library

/-- Two events that go through lists. One jumps out of the inner list into the
outer, the other out of one list into the next. -/
def Library.straddling : Library :=
  let var (key : String) : Json := .object [("type", .string "local"), ("key", .string key)]
  let item (text : String) : Json := .object [("type", .string "string"), ("value", .string text)]
  let fill (key : String) (items : List String) : Instruction :=
    ⟨"setList", .object [("variable", var key), ("values", .array (items.map item))]⟩
  let forEach (list : String) (commands : List Instruction) : Instruction :=
    ⟨"forEach", .object
      [("list", .object [("type", .string "variable"), ("variable", var list)]),
       ("variable", var "item"), ("commands", .ofList Instruction.encode commands)]⟩
  let jump : Instruction := ⟨"jumpTo", .object [("label", .string "over")]⟩
  let label : Instruction := ⟨"label", .object [("name", .string "over")]⟩
  let log (text : String) : Instruction := ⟨"log", .object [("message", .string text)]⟩
  { events := .ofList
      [("out", ⟨"out", [fill "as" ["a1", "a2"], fill "bs" ["b1"],
        forEach "as" [forEach "bs" [jump], label]], .empty⟩),
       ("across", ⟨"across", [fill "as" ["a1", "a2"], fill "bs" ["b1"],
        forEach "as" [jump], forEach "bs" [label, log "in"], log "out"], .empty⟩)] }

/-- The jump out of the inner list drops its iteration and keeps the outer one. -/
theorem Library.Lawful.jump_drops_straddling :
    Library.straddling.Lawful ∧ Engine.Serves (.ofLibrary .straddling) .straddling ∧
      ∃ m ∈ (Operation.start "out" .none).visits (.fresh (.ofLibrary .straddling) 0),
      m.context.iterations.length = 2 ∧ ∃ n,
        Machine.steps (.ofLibrary .straddling) (fun _ => none) 1 m = some n ∧
        n.context.iterations = m.context.iterations.drop 1 := by
  have hl : Library.straddling.Lawful := by decide +kernel
  have he := Engine.Serves.ofLibrary .straddling
  obtain ⟨d, hd, jumps, lands⟩ : ∃ d, Library.straddling.get? "out" = some d ∧
      (d.body Library.straddling.environment).document.any (fun x =>
        decide (x.1.key = .child (.child (.root "out") 2 .body) 0 .body ∧ x.2.index = 0) &&
          (x.2.pending? x.1.site).any fun j => j.sort == .plain && j.label == "over") ∧
      ((d.body Library.straddling.environment).lastLabel? "over").any
        (fun x => x.1.key == .child (.root "out") 2 .body) :=
    ⟨_, rfl, by decide +kernel, by decide +kernel⟩
  obtain ⟨⟨b, e⟩, hmem, jumps⟩ := List.any_eq_true.1 jumps
  simp only [Bool.and_eq_true, decide_eq_true_eq] at jumps
  obtain ⟨⟨key, index⟩, command⟩ := jumps
  obtain ⟨j, hj, checks⟩ := (Option.any_eq_true _ _).1 command
  have hcommand := Entry.command_of_pending? hj
  rw [Bool.and_eq_true, beq_iff_eq, beq_iff_eq] at checks
  rw [checks.1, checks.2] at hcommand
  obtain ⟨⟨b', e'⟩, hlast, key'⟩ := (Option.any_eq_true _ _).1 lands
  replace key' : b'.key = .child (.root "out") 2 .body := by simpa using key'
  obtain ⟨hb, hentry⟩ := Body.mem_document_iff.1 hmem
  obtain ⟨dropped, count, -, law⟩ :=
    hl.jump_drops he ⟨.event hd, _, _, rfl⟩ hb hentry hcommand hlast
  rw [key, key'] at count
  have one : dropped = 1 := count.trans (by decide +kernel)
  have two : Library.straddling.depth b.key = 2 := by
    rw [key]
    decide +kernel
  have visited : ((Operation.start "out" .none).visits (.fresh (.ofLibrary .straddling) 0)).any
      fun m => m.context.state.isRunning && m.context.iterations.length == 2 &&
        m.context.place == ⟨.child (.child (.root "out") 2 .body) 0 .body, 0⟩ := by
    decide +kernel
  obtain ⟨m, hm, checks⟩ := List.any_eq_true.1 visited
  simp only [Bool.and_eq_true, beq_iff_eq] at checks
  obtain ⟨⟨running, length⟩, place⟩ := checks
  refine ⟨hl, he, m, hm, length, _, law m m.context.iterations [] running ?_ ?_ ?_ _ 0, ?_⟩
  · rw [place, key, index]
  · rw [List.append_nil]
  · rw [length, two]
  · rw [one, List.append_nil]

/-- What the call logs, if it does. -/
def HostCall.logged? : HostCall → Option String
  | .log message => some message
  | _ => none

/-- Calls that all log are known by what they log. -/
theorem HostCall.eq_logs {calls : List HostCall} {messages : List String}
    (h : calls.map logged? = messages.map some) : calls = messages.map .log := by
  induction calls generalizing messages with
  | nil =>
    rw [List.map_eq_nil_iff.1 h.symm]
    rfl
  | cons call calls ih =>
    cases messages with
    | nil => simp at h
    | cons message messages =>
      simp only [List.map_cons, List.cons.injEq] at h
      rw [List.map_cons, ← ih h.2]
      cases call <;> simp [logged?] at h
      rw [h.1]

/-- **An iteration that is left is kept.** The jump leaves the iteration of the
first list and enters the body of the second from beside it. The iteration under
way stays, so that body takes its items for its own and runs for both of them. -/
theorem Library.exists_iteration_kept :
    Library.straddling.Lawful ∧
    (Library.straddling.leaving (.child (.root "across") 2 .body)
      (.child (.root "across") 3 .body)).card = 1 ∧
    (∃ m ∈ (Operation.start "across" .none).visits (.fresh (.ofLibrary .straddling) 0),
      m.context.place = ⟨.child (.root "across") 2 .body, 0⟩ ∧
      m.context.iterations.length = 1 ∧ ∃ n,
        Machine.steps (.ofLibrary .straddling) (fun _ => none) 1 m = some n ∧
        n.context.place = ⟨.child (.root "across") 3 .body, 0⟩ ∧
        n.context.iterations.length = 1) ∧
    ∃ r s, (Operation.start "across" .none).run (.fresh (.ofLibrary .straddling) 0) = some (r, s) ∧
      s.world.trace = [.log "out", .log "in", .log "in"] := by
  have visited : ((Operation.start "across" .none).visits
      (.fresh (.ofLibrary .straddling) 0)).any fun m =>
        m.context.place == ⟨.child (.root "across") 2 .body, 0⟩ &&
        m.context.iterations.length == 1 &&
        (Machine.steps (.ofLibrary .straddling) (fun _ => none) 1 m).any fun n =>
          n.context.place == ⟨.child (.root "across") 3 .body, 0⟩ &&
          n.context.iterations.length == 1 := by
    decide +kernel
  obtain ⟨m, hm, checks⟩ := List.any_eq_true.1 visited
  simp only [Bool.and_eq_true, beq_iff_eq, Option.any_eq_true] at checks
  obtain ⟨⟨place, length⟩, n, hn, place', length'⟩ := checks
  have logged : ((Operation.start "across" .none).run (.fresh (.ofLibrary .straddling) 0)).any
      fun x => x.2.world.trace.map HostCall.logged? == ["out", "in", "in"].map some := by
    decide +kernel
  obtain ⟨⟨r, s⟩, run, texts⟩ := (Option.any_eq_true _ _).1 logged
  have trace := HostCall.eq_logs (beq_iff_eq.1 texts)
  exact ⟨by decide +kernel, by decide +kernel,
    ⟨m, hm, place, length, n, hn, place', length'⟩, r, s, run, trace⟩

end Cutscene
