import Cutscene.Program.Layout
import Mathlib.Data.List.Nodup
import Mathlib.Logic.Relation
/-!
# Programs — the bodies of a unit

A `Body` is one list of commands together with the site it is laid out at
and the step it ends in. `Block.children` lists the bodies that the commands
of a block hold directly, and `Body.Within` is its closure. What
`Block.programs` makes is one program for every body within
(`mem_programs_iff`), so a property of all programs of a unit is an induction
along `Within`, with no recursion over the four sorts of syntax.
-/

namespace Cutscene

/-- A list of commands, where it stands, and the step its program ends in. -/
structure Body where
  site : Site
  block : Block
  terminal : Step

namespace Body

/-- The key of the body's program. -/
def key (b : Body) : BodyKey := b.site.key

/-- The body's program. -/
def program (b : Body) : Program := b.block.program b.site b.terminal

@[simp] theorem program_key (b : Body) : b.program.key = b.key := rfl

end Body

/-- The body that a unit consists of. -/
def Block.unit (key : BodyKey) (body : Block) : Body := ⟨.ofUnit key body, body, .leave⟩

/-! ## Bodies held directly -/

/-- The bodies of guarded bodies. -/
def Arms.children {sort : ArmSort} (s : Site) (position index : Nat) (resume : Place) :
    Arms sort → List Body
  | .nil => []
  | .cons _ body rest =>
    ⟨s.child position (sort.slot index), body, .resume resume⟩ ::
      rest.children s position (index + 1) resume

/-- The body of a body that may be absent. -/
def OptionalBlock.children (s : Site) (resume : Place) : OptionalBlock → List Body
  | .absent => []
  | .present body => [⟨s, body, .resume resume⟩]

/-- The bodies that a command holds. -/
def Command.children (s : Site) (position index : Nat) : Command → List Body
  | .ifElse branches otherwise =>
    branches.children s position 0 ⟨s.key, index + 1⟩ ++
      otherwise.children (s.child position .otherwise) ⟨s.key, index + 1⟩
  | .switch _ cases default =>
    cases.children s position 0 ⟨s.key, index + 1⟩ ++
      default.children (s.child position .default) ⟨s.key, index + 1⟩
  | .choices options => options.children s position 0 ⟨s.key, index + 2⟩
  | .loop tester body =>
    [⟨s.looped position index false body, body, .repeatLoop tester ⟨s.key, index + 1⟩⟩]
  | .forEach _ ref body =>
    [⟨s.looped position index true body, body, .nextItem ref ⟨s.key, index + 1⟩⟩]
  | .independent body => [Block.unit (.child s.key position .independent) body]
  | _ => []

/-- The bodies that the commands of a block hold. -/
def Block.children (s : Site) (index : Nat) : Block → List Body
  | .nil => []
  | .cons position command rest =>
    command.children s position index ++ rest.children s (index + command.width)

/-- The bodies that a body holds. -/
def Body.children (b : Body) : List Body := b.block.children b.site 0

/-- The programs of a body and of all bodies nested in it. -/
def Body.programs (b : Body) : List Program := b.program :: b.block.programs b.site 0

theorem Arms.programs_eq {sort : ArmSort} (s : Site) (position index : Nat) (resume : Place) :
    (arms : Arms sort) → arms.programs s position index resume =
      (arms.children s position index resume).flatMap Body.programs
  | .nil => rfl
  | .cons _ _ rest => by
    rw [Arms.programs, Arms.children, List.flatMap_cons,
      Arms.programs_eq s position (index + 1) resume rest]
    rfl

theorem OptionalBlock.programs_eq (s : Site) (resume : Place) (b : OptionalBlock) :
    b.programs s resume = (b.children s resume).flatMap Body.programs := by
  cases b with
  | absent => rfl
  | present body => simp [OptionalBlock.programs, OptionalBlock.children, Body.programs,
      Body.program]

theorem Command.programs_eq (s : Site) (position index : Nat) (c : Command) :
    c.programs s position index = (c.children s position index).flatMap Body.programs := by
  cases c with
  | ifElse branches otherwise =>
    simp only [Command.programs, Command.children, Arms.programs_eq,
      OptionalBlock.programs_eq, List.flatMap_append]
  | switch subject cases default =>
    simp only [Command.programs, Command.children, Arms.programs_eq,
      OptionalBlock.programs_eq, List.flatMap_append]
  | choices options => simp only [Command.programs, Command.children, Arms.programs_eq]
  | loop tester body => simp [Command.programs, Command.children, Body.programs, Body.program]
  | forEach source ref body =>
    simp [Command.programs, Command.children, Body.programs, Body.program]
  | independent body =>
    simp [Command.programs, Command.children, Body.programs, Body.program, Block.unit]
  | _ => rfl

theorem Block.programs_eq (s : Site) (index : Nat) :
    (b : Block) → b.programs s index = (b.children s index).flatMap Body.programs
  | .nil => rfl
  | .cons position command rest => by
    rw [Block.programs, Block.children, List.flatMap_append, Command.programs_eq,
      Block.programs_eq s (index + command.width) rest]

/-- The programs of a body are its own and those of the bodies it holds. -/
theorem Body.programs_eq (b : Body) :
    b.programs = b.program :: b.children.flatMap Body.programs := by
  rw [Body.programs, Block.programs_eq, Body.children]

/-! ## Bodies held at any depth -/

namespace Body

/-- The second body is the first or nested in it, at any depth. -/
def Within : Body → Body → Prop := Relation.ReflTransGen fun outer inner => inner ∈ outer.children

theorem Within.refl (b : Body) : Within b b := Relation.ReflTransGen.refl

theorem Within.step {a b c : Body} (h : Within a b) (hc : c ∈ b.children) : Within a c :=
  Relation.ReflTransGen.tail h hc

theorem Within.head {a b c : Body} (hb : b ∈ a.children) (h : Within b c) : Within a c :=
  Relation.ReflTransGen.head hb h

end Body

theorem Arms.sizeOf_children_lt {sort : ArmSort} {s : Site} {position : Nat} {resume : Place}
    {b : Body} : (arms : Arms sort) → {index : Nat} →
      b ∈ arms.children s position index resume → sizeOf b.block < sizeOf arms
  | .nil, _, h => by simp [Arms.children] at h
  | .cons guard body rest, index, h => by
    simp only [Arms.children, List.mem_cons] at h
    simp only [Arms.cons.sizeOf_spec]
    rcases h with rfl | h
    · simp only
      omega
    · have := Arms.sizeOf_children_lt rest h
      omega

theorem OptionalBlock.sizeOf_children_lt {s : Site} {resume : Place} {o : OptionalBlock}
    {b : Body} (h : b ∈ o.children s resume) : sizeOf b.block < sizeOf o := by
  cases o with
  | absent => simp [OptionalBlock.children] at h
  | present body =>
    obtain rfl := List.mem_singleton.1 h
    simp

theorem Command.sizeOf_children_lt {s : Site} {position index : Nat} {c : Command} {b : Body}
    (h : b ∈ c.children s position index) : sizeOf b.block < sizeOf c := by
  cases c with
  | ifElse branches otherwise =>
    simp only [Command.ifElse.sizeOf_spec]
    rcases List.mem_append.1 h with h | h
    · have := Arms.sizeOf_children_lt branches h
      omega
    · have := OptionalBlock.sizeOf_children_lt h
      omega
  | switch subject cases default =>
    simp only [Command.switch.sizeOf_spec]
    rcases List.mem_append.1 h with h | h
    · have := Arms.sizeOf_children_lt cases h
      omega
    · have := OptionalBlock.sizeOf_children_lt h
      omega
  | choices options =>
    simp only [Command.choices.sizeOf_spec]
    have := Arms.sizeOf_children_lt options h
    omega
  | loop tester body =>
    obtain rfl := List.mem_singleton.1 h
    simp only [Command.loop.sizeOf_spec]
    omega
  | forEach source ref body =>
    obtain rfl := List.mem_singleton.1 h
    simp only [Command.forEach.sizeOf_spec]
    omega
  | independent body =>
    obtain rfl := List.mem_singleton.1 h
    simp [Block.unit]
  | _ => simp [Command.children] at h

theorem Block.sizeOf_children_lt {s : Site} {b : Body} : (block : Block) → {index : Nat} →
    b ∈ block.children s index → sizeOf b.block < sizeOf block
  | .nil, _, h => by simp [Block.children] at h
  | .cons position command rest, index, h => by
    simp only [Block.cons.sizeOf_spec]
    rcases List.mem_append.1 h with h | h
    · have := Command.sizeOf_children_lt h
      omega
    · have := Block.sizeOf_children_lt rest h
      omega

namespace Body

/-- A body held is smaller than the one that holds it. -/
theorem sizeOf_children_lt {a b : Body} (h : b ∈ a.children) : sizeOf b.block < sizeOf a.block :=
  Block.sizeOf_children_lt a.block h

/-- Induction over bodies, from those held to the one that holds them. -/
theorem induction_children {motive : Body → Prop}
    (h : ∀ a, (∀ b ∈ a.children, motive b) → motive a) (a : Body) : motive a := by
  -- the syntax is mutual over four sorts, so the induction is on the size of the block
  suffices hn : ∀ n (a : Body), sizeOf a.block < n → motive a from hn _ a (Nat.lt_succ_self _)
  intro n
  induction n with
  | zero => exact fun a ha => absurd ha (Nat.not_lt_zero _)
  | succ n ih => exact fun a ha => h a fun b hb => ih b (by have := sizeOf_children_lt hb; omega)

/-- **The programs of a body are those of the bodies within.** -/
theorem mem_programs_iff {a : Body} {p : Program} :
    p ∈ a.programs ↔ ∃ b, Within a b ∧ b.program = p := by
  induction a using induction_children with
  | h a ih =>
    rw [programs_eq, List.mem_cons, List.mem_flatMap]
    constructor
    · rintro (rfl | ⟨c, hc, hp⟩)
      · exact ⟨a, .refl a, rfl⟩
      · obtain ⟨b, hb, rfl⟩ := (ih c hc).1 hp
        exact ⟨b, .head hc hb, rfl⟩
    · rintro ⟨b, hb, rfl⟩
      rcases Relation.ReflTransGen.cases_head hb with rfl | ⟨c, hc, hb⟩
      · exact .inl rfl
      · exact .inr ⟨c, hc, (ih c hc).2 ⟨b, hb, rfl⟩⟩

/-- The body and all bodies nested in it. -/
def all (a : Body) : List Body := a :: a.children.attach.flatMap fun ⟨b, _h⟩ => b.all
termination_by sizeOf a.block
decreasing_by exact sizeOf_children_lt _h

theorem mem_all_iff {a b : Body} : b ∈ a.all ↔ a.Within b := by
  induction a using induction_children with
  | h a ih =>
    rw [all, List.mem_cons, List.mem_flatMap]
    constructor
    · rintro (rfl | ⟨⟨c, hc⟩, -, hb⟩)
      · exact .refl b
      · exact .head hc ((ih c hc).1 hb)
    · intro hb
      rcases Relation.ReflTransGen.cases_head hb with rfl | ⟨c, hc, hb⟩
      · exact .inl rfl
      · exact .inr ⟨⟨c, hc⟩, List.mem_attach _ _, (ih c hc).2 hb⟩

end Body

end Cutscene
