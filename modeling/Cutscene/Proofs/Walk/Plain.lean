import Cutscene.Proofs.Call.Parameters
import Cutscene.Proofs.Program.Child
import Cutscene.Proofs.Walk.Tree
/-!
# Walking — plain events

An event is plain when it and all that it calls make only commands that run to
their end by themselves and do not look at the clock (`Library.IsPlain`): logs,
changes of variables, conditions, switches, loops, iterations with the leaps
that belong to them, stops and calls that are waited for. A plain action other
than a stop always goes on (`Action.run_fst_of_isQuiet`).

`Body.Tail` is what is left of a body from one of its steps on.
-/

namespace Cutscene

/-! ## Plain commands -/

/-- Is the action a log or a change of a variable? -/
def Action.isQuiet : Action → Bool
  | .setBoolean .. | .setNumber .. | .setText .. | .setObject .. | .setList .. | .pushItem ..
  | .removeItem .. | .deleteVariable _ | .log _ => true
  | _ => false

/-- Does the action stop the event? -/
def Action.isStop : Action → Bool
  | .stopEvent => true
  | _ => false

/-- Is the command a plain one? What stands in its bodies is not asked. -/
def Command.isPlain : Command → Bool
  | .action a => (a.isQuiet || a.isStop) && a.isTimeless
  | .ifElse branches _ => branches.guards.all (·.tester.isTimeless)
  | .switch subject cases _ =>
    subject.isTimeless && cases.guards.all (·.candidates.all ValueOperand.isTimeless)
  | .loop tester _ => tester.isTimeless
  | .forEach source _ _ => source.isTimeless
  | .breakLoop | .continueLoop => true
  | .call _ params => areTimeless params
  | _ => false

/-- The event and all that it calls make only plain commands. -/
def Library.IsPlain (l : Library) (name : String) : Prop :=
  ∀ b, l.Holds b → Relation.ReflTransGen l.Calls name b.key.event →
    ∀ e ∈ b.entries, e.command.isPlain

namespace Library.IsPlain

variable {l : Library}

theorem of_bodies (h : ∀ b ∈ l.bodies, ∀ e ∈ b.entries, e.command.isPlain) (name : String) :
    l.IsPlain name :=
  fun b hb _ => h b (Library.holds_iff.1 hb)

/-- What a plain event calls is plain. -/
theorem called {caller callee : String} (h : l.IsPlain caller) (hcalls : l.Calls caller callee) :
    l.IsPlain callee :=
  fun b hb hreach => h b hb (.head hcalls hreach)

end Library.IsPlain

namespace Action

variable {a : Action}

/-- Whether the host takes its time makes no difference to a plain action. -/
theorem run_eq (h : a.isQuiet || a.isStop) (deferred : HostCall → Bool) :
    a.run deferred = a.run fun _ => false := by
  cases a <;> first | rfl | simp [isQuiet, isStop] at h

theorem withSome_fst {α : Type} {o : Option α} {body : α → Act Flow} {m : Machine}
    (h : ∀ x, (body x m).1 = .next) : (Act.withSome o body m).1 = .next := by
  cases o with
  | none => rfl
  | some x => exact h x

/-- A log or a change of a variable always goes on. -/
theorem run_fst_of_isQuiet (h : a.isQuiet) (m : Machine) :
    (a.run (fun _ => false) m).1 = .next := by
  cases a with
  | setBoolean ref update operand => exact withSome_fst (o := operand.compute m) fun _ => rfl
  | setNumber ref update operand => exact withSome_fst fun _ => rfl
  | setText ref update operand => exact withSome_fst fun _ => rfl
  | setObject ref desc kind => exact withSome_fst (o := m.resolve (some kind) desc) fun _ => rfl
  | setList ref items => rfl
  | pushItem ref item => exact withSome_fst fun _ => rfl
  | removeItem ref item => exact withSome_fst fun _ => rfl
  | deleteVariable ref => rfl
  | log message => rfl
  | _ => simp [isQuiet] at h

/-- **A log or a change of a variable is traced.** -/
theorem traced (h : a.isQuiet) (ht : a.isTimeless) :
    Act.Traced True False (a.run fun _ => false) := by
  intro m
  obtain ⟨es, halt, hfits, hrun, hsame⟩ := a.ends (fun _ => false) (fun _ : True => ht) False.elim m
  have hhalt : halt = none := by
    have hnext := run_fst_of_isQuiet h m
    rw [hrun] at hnext
    cases halt with
    | none => rfl
    | some halt => simp [Halt.flow] at hnext
  subst hhalt
  refine ⟨es, hfits, ?_, fun ht m' hm => ?_⟩
  · rw [hrun]
    rfl
  · rw [hsame ht m' hm, hrun]
    rfl

end Action

/-! ## What is left of a body -/

/-- The block is what is left of the body from the step with an index on. -/
inductive Body.Tail (b : Body) : Nat → Block → Prop
  | whole : Tail b 0 b.block
  | next {index position : Nat} {command : Command} {rest : Block}
      (h : Tail b index (.cons position command rest)) : Tail b (index + command.width) rest

namespace Body.Tail

variable {b : Body} {index position : Nat} {command : Command} {rest : Block}

theorem entries_suffix (h : b.Tail index rest) : rest.entries index <:+ b.entries := by
  induction h with
  | whole => exact List.suffix_refl _
  | next h ih => exact (List.suffix_cons _ _).trans ih

/-- The first command left is an entry of the body. -/
theorem mem_entries (h : b.Tail index (.cons position command rest)) :
    ⟨position, index, command⟩ ∈ b.entries :=
  h.entries_suffix.subset List.mem_cons_self

/-- Where nothing is left, the body's last step stands. -/
theorem index_eq (h : b.Tail index .nil) : index = b.block.width := by
  suffices hwidth : ∀ {index : Nat} {rest : Block}, b.Tail index rest →
      index + rest.width = b.block.width from hwidth h
  intro index rest h
  induction h with
  | whole => exact Nat.zero_add _
  | next h ih =>
    rw [Block.width] at ih
    omega

end Body.Tail

end Cutscene
