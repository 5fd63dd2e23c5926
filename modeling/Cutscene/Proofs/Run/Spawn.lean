import Cutscene.Run.Advance
import Mathlib.Order.WellFounded
/-!
# Running — contexts that spawn each other

A step that spawns a context advances it on the spot, with a budget of its
own. The budget therefore bounds the steps that one context executes, and
nothing bounds how deeply contexts spawn each other: `Engine.spawnDepth` is
where a run is given up, not a limit that control heeds.

A `Plan` is what advances machines one after the other. An advance is one,
over the contexts that it spawns (`Machine.plan`), whatever depth it is given.
An advance has a result at some depth just if no chain of contexts spawns each
other forever from it (`Machine.returns_iff`).
-/

namespace Cutscene

/-- Something that advances machines: it is done, or it advances one and goes
on with what became of it. -/
inductive Plan (α : Type) where
  | done (result : α)
  | advance (m : Machine) (next : Machine → Plan α)

namespace Plan

variable {α β : Type}

/-- What comes of the plan, given what comes of a machine that is advanced. -/
def run (adv : Machine → Option Machine) : Plan α → Option α
  | done a => some a
  | advance m next =>
    match adv m with
    | none => none
    | some m => (next m).run adv

/-- The machines that the plan advances, in order. -/
def advanced (adv : Machine → Option Machine) : Plan α → List Machine
  | done _ => []
  | advance m next =>
    m :: match adv m with
      | none => []
      | some m => (next m).advanced adv

/-- The plan, and then one that depends on its result. -/
def bind : Plan α → (α → Plan β) → Plan β
  | done a, next => next a
  | advance m rest, next => .advance m fun m => (rest m).bind next

/-- The plan with its result changed. -/
def map (f : α → β) (p : Plan α) : Plan β := p.bind fun a => .done (f a)

theorem run_bind (adv : Machine → Option Machine) (p : Plan α) (next : α → Plan β) :
    (p.bind next).run adv = (p.run adv).bind fun a => (next a).run adv := by
  induction p with
  | done a => rfl
  | advance m rest ih =>
    simp only [bind, run]
    cases adv m with
    | none => rfl
    | some m => exact ih m

theorem run_map (adv : Machine → Option Machine) (f : α → β) (p : Plan α) :
    (p.map f).run adv = (p.run adv).map f := by
  rw [map, run_bind]
  cases p.run adv <;> rfl

theorem advanced_bind (adv : Machine → Option Machine) (p : Plan α) (next : α → Plan β) :
    (p.bind next).advanced adv = p.advanced adv ++
      match p.run adv with
      | none => []
      | some a => (next a).advanced adv := by
  induction p with
  | done a => rfl
  | advance m rest ih =>
    simp only [bind, run, advanced, List.cons_append]
    cases adv m with
    | none => rfl
    | some m => exact congrArg _ (ih m)

theorem advanced_map (adv : Machine → Option Machine) (f : α → β) (p : Plan α) :
    (p.map f).advanced adv = p.advanced adv := by
  rw [map, advanced_bind]
  cases p.run adv <;> exact List.append_nil _

/-- **A plan has a result if every machine that it advances has one.** -/
theorem isSome_run_iff {adv : Machine → Option Machine} {p : Plan α} :
    (p.run adv).isSome ↔ ∀ m ∈ p.advanced adv, (adv m).isSome := by
  induction p with
  | done a => simp [run, advanced]
  | advance m next ih =>
    simp only [run, advanced, List.forall_mem_cons]
    cases adv m with
    | none => simp
    | some m' => simpa using ih m'

/-! ## More results

`Extends adv adv'`: whatever has a result under `adv` has the same one under
`adv'`. -/

/-- Every result of the one is a result of the other. -/
def Extends (adv adv' : Machine → Option Machine) : Prop :=
  ∀ ⦃m m' : Machine⦄, adv m = some m' → adv' m = some m'

section Extends

variable {adv adv' : Machine → Option Machine}

theorem run_extends (h : Extends adv adv') {p : Plan α} {a : α} (hp : p.run adv = some a) :
    p.run adv' = some a := by
  induction p with
  | done b => exact hp
  | advance m next ih =>
    rw [run] at hp ⊢
    split at hp
    · simp at hp
    · rename_i m' hm'
      rw [h hm']
      exact ih m' hp

theorem mem_advanced_extends (h : Extends adv adv') {p : Plan α} {x : Machine}
    (hx : x ∈ p.advanced adv) : x ∈ p.advanced adv' := by
  induction p with
  | done b => exact hx
  | advance m next ih =>
    rw [advanced] at hx ⊢
    rcases List.mem_cons.1 hx with rfl | hx
    · exact List.mem_cons_self
    · split at hx
      · simp at hx
      · rename_i m' hm'
        rw [h hm']
        exact List.mem_cons_of_mem _ (ih m' hx)

/-- A plan with a result advances the same machines when more have one. -/
theorem advanced_extends (h : Extends adv adv') {p : Plan α} (hp : (p.run adv).isSome) :
    p.advanced adv' = p.advanced adv := by
  induction p with
  | done b => rfl
  | advance m next ih =>
    rw [run] at hp
    rw [advanced, advanced]
    split at hp
    · simp at hp
    · rename_i m' hm'
      rw [h hm']
      exact congrArg _ (ih m' hp)

end Extends

/-! ## Results that come with depth -/

/-- What has a result at a depth keeps it at every greater one. -/
def Deepens (adv : Nat → Machine → Option Machine) : Prop :=
  ∀ ⦃depth depth' : Nat⦄, depth ≤ depth' → Extends (adv depth) (adv depth')

section Deepens

variable {adv : Nat → Machine → Option Machine} {p : Plan α}

theorem isSome_run_deepens (h : Deepens adv) {depth depth' : Nat} (hle : depth ≤ depth')
    (hp : (p.run (adv depth)).isSome) : (p.run (adv depth')).isSome := by
  obtain ⟨a, ha⟩ := Option.isSome_iff_exists.1 hp
  exact Option.isSome_iff_exists.2 ⟨a, run_extends (h hle) ha⟩

/-- Whatever a plan advances at any depth, it advances at one where it has a
result. -/
theorem mem_advanced_of_isSome (h : Deepens adv) {depth depth' : Nat} {x : Machine}
    (hp : (p.run (adv depth)).isSome) (hx : x ∈ p.advanced (adv depth')) :
    x ∈ p.advanced (adv depth) := by
  have hdeep : x ∈ p.advanced (adv (max depth depth')) :=
    mem_advanced_extends (h (Nat.le_max_right _ _)) hx
  rwa [advanced_extends (h (Nat.le_max_left _ _)) hp] at hdeep

/-- **A plan has a result at some depth just if every machine that it ever
advances has one at some depth.** -/
theorem exists_isSome_run_iff (h : Deepens adv) :
    (∃ depth, (p.run (adv depth)).isSome) ↔
      ∀ depth, ∀ m ∈ p.advanced (adv depth), ∃ depth', (adv depth' m).isSome := by
  constructor
  · rintro ⟨depth, hp⟩ depth' m hm
    exact ⟨depth, isSome_run_iff.1 hp m (mem_advanced_of_isSome h hp hm)⟩
  intro hall
  induction p with
  | done a => exact ⟨0, rfl⟩
  | advance m next ih =>
    have hfirst : m ∈ (Plan.advance m next).advanced (adv 0) := by
      rw [advanced]
      exact List.mem_cons_self
    obtain ⟨d, hd⟩ := hall 0 m hfirst
    obtain ⟨m', hm'⟩ := Option.isSome_iff_exists.1 hd
    -- what the rest advances is advanced by the whole plan, where `m` has its result
    have hrest : ∀ depth, ∀ x ∈ (next m').advanced (adv depth),
        ∃ depth', (adv depth' x).isSome := by
      intro depth x hx
      refine hall (max depth d) x ?_
      rw [advanced, h (Nat.le_max_right depth d) hm']
      exact List.mem_cons_of_mem _ (mem_advanced_extends (h (Nat.le_max_left _ _)) hx)
    obtain ⟨d', hd'⟩ := ih m' hrest
    refine ⟨max d d', ?_⟩
    rw [run, h (Nat.le_max_left _ _) hm']
    exact isSome_run_deepens h (Nat.le_max_right _ _) hd'

end Deepens

end Plan

namespace Machine

open Plan

/-- What an advance does within a budget: it advances the contexts that its
steps spawn. -/
def plan (e : Engine) : Nat → Machine → Plan Machine
  | 0, m => .done m
  | budget + 1, m =>
    if !m.context.state.isRunning then .done m
    else
      match e.step? m.context.place with
      | none => .done { m with context := m.context.finish }
      | some step =>
        match step.run e (m.past step) with
        | (.flow flow, m) => plan e budget (m.settle flow)
        | (.spawn child, m) =>
          .advance ⟨child, m.world⟩ fun done =>
            plan e budget { m with world := done.world.adopt done.context }

theorem steps_eq_run (e : Engine) (spawn : Machine → Option Machine) (budget : Nat)
    (m : Machine) :
    steps e spawn budget m = (m.plan e budget).run spawn := by
  induction budget generalizing m with
  | zero => rfl
  | succ budget ih =>
    rw [steps, plan]
    split
    · rfl
    cases e.step? m.context.place with
    | none => rfl
    | some step =>
      simp only
      rcases step.run e (m.past step) with ⟨flow | child, m'⟩
      · exact ih _
      · simp only [run]
        cases spawn ⟨child, m'.world⟩ with
        | none => rfl
        | some done => exact ih _

/-- Advances a context that was spawned, with so many contexts left to spawn
one another. -/
def advanceBelow (e : Engine) : Nat → Machine → Option Machine
  | 0 => fun _ => none
  | depth + 1 => advanceWithin e depth

theorem advanceWithin_eq_run (e : Engine) (depth : Nat) (m : Machine) :
    advanceWithin e depth m = (m.plan e e.stepBudget).run (advanceBelow e depth) := by
  cases depth <;> exact steps_eq_run ..

/-- **An advance keeps its result when contexts may spawn each other more
deeply.** -/
theorem deepens_advanceWithin (e : Engine) : Deepens (advanceWithin e) := by
  intro depth depth' hle m m' hm
  rw [advanceWithin_eq_run] at hm ⊢
  refine run_extends ?_ hm
  clear hm m m'
  induction depth generalizing depth' with
  | zero => exact fun _ _ hm => by simp [advanceBelow] at hm
  | succ depth ih =>
    obtain ⟨depth', rfl⟩ : ∃ n, depth' = n + 1 := ⟨depth' - 1, by omega⟩
    intro m m' hm
    rw [advanceBelow, advanceWithin_eq_run] at hm ⊢
    exact run_extends (ih (Nat.le_of_succ_le_succ hle)) hm

theorem deepens_advanceBelow (e : Engine) : Deepens (advanceBelow e) := by
  intro depth depth' hle m m' hm
  cases depth with
  | zero => simp [advanceBelow] at hm
  | succ depth =>
    obtain ⟨depth', rfl⟩ : ∃ n, depth' = n + 1 := ⟨depth' - 1, by omega⟩
    exact deepens_advanceWithin e (Nat.le_of_succ_le_succ hle) hm

/-- The advance of the machine spawns the other one: a context at its start,
in the world as it then is. -/
def Spawns (e : Engine) (m child : Machine) : Prop :=
  ∃ depth, child ∈ (m.plan e e.stepBudget).advanced (advanceBelow e depth)

/-- Machines that spawn each other without end, from this one on. -/
def SpawnsForever (e : Engine) (m : Machine) : Prop :=
  ∃ chain : Nat → Machine, chain 0 = m ∧ ∀ n, (chain n).Spawns e (chain (n + 1))

/-- The advance of the machine has a result, if contexts may spawn each other
deeply enough. -/
def Returns (e : Engine) (m : Machine) : Prop := ∃ depth, (advanceWithin e depth m).isSome

theorem exists_isSome_advanceBelow_iff {e : Engine} {m : Machine} :
    (∃ depth, (advanceBelow e depth m).isSome) ↔ m.Returns e := by
  constructor
  · rintro ⟨depth, h⟩
    cases depth with
    | zero => simp [advanceBelow] at h
    | succ depth => exact ⟨depth, h⟩
  · exact fun ⟨depth, h⟩ => ⟨depth + 1, h⟩

/-- An advance has a result if those of what it spawns have. -/
theorem returns_of_spawns {e : Engine} {m : Machine}
    (h : ∀ child, m.Spawns e child → child.Returns e) : m.Returns e := by
  have hresult : ∃ depth, ((m.plan e e.stepBudget).run (advanceBelow e depth)).isSome :=
    (exists_isSome_run_iff (deepens_advanceBelow e)).2 fun depth child hchild =>
      exists_isSome_advanceBelow_iff.2 (h child ⟨depth, hchild⟩)
  obtain ⟨depth, hdepth⟩ := hresult
  exact ⟨depth, by rwa [advanceWithin_eq_run]⟩

/-- What an advance with a result spawns has one at a smaller depth. -/
theorem isSome_advanceBelow_of_spawns {e : Engine} {depth : Nat} {m child : Machine}
    (h : (advanceWithin e depth m).isSome) (hchild : m.Spawns e child) :
    (advanceBelow e depth child).isSome := by
  rw [advanceWithin_eq_run] at h
  obtain ⟨depth', hchild⟩ := hchild
  exact isSome_run_iff.1 h child (mem_advanced_of_isSome (deepens_advanceBelow e) h hchild)

/-- An advance has a result just if spawning is well-founded from it. -/
theorem returns_iff_acc {e : Engine} {m : Machine} :
    m.Returns e ↔ Acc (fun child m => m.Spawns e child) m := by
  constructor
  · rintro ⟨depth, h⟩
    -- by induction on the depth: a spawned machine has its result at a smaller one
    induction depth generalizing m with
    | zero =>
      refine .intro m fun child hchild => ?_
      have hnone := isSome_advanceBelow_of_spawns h hchild
      simp [advanceBelow] at hnone
    | succ depth ih =>
      exact .intro m fun child hchild => ih (isSome_advanceBelow_of_spawns h hchild)
  · intro h
    induction h with
    | intro m _ ih => exact returns_of_spawns ih

/-- **An advance has a result, at some depth, just if nothing spawns forever
from its machine.** -/
theorem returns_iff {e : Engine} {m : Machine} : m.Returns e ↔ ¬ m.SpawnsForever e := by
  rw [returns_iff_acc, ← not_iff_not, not_not]
  exact not_acc_iff_exists_descending_chain

end Machine

end Cutscene
