import Cutscene.Proofs.Program.Body
/-!
# Programs — the commands of a block

`Block.entries` lists a block's commands with their positions and the indexes
of their first steps. The steps and the bodies of a block are those of its
entries, so a step of a program is the terminal or belongs to one entry
(`Body.step_cases`), and a body held belongs to one entry
(`Body.mem_children_iff`).
-/

namespace Cutscene

/-- A command of a block, its position, and the index of its first step. -/
structure Entry where
  position : Nat
  index : Nat
  command : Command

namespace Entry

/-- The steps of the command. -/
def steps (s : Site) (e : Entry) : List Step := e.command.steps s e.position

/-- The bodies that the command holds. -/
def children (s : Site) (e : Entry) : List Body := e.command.children s e.position e.index

end Entry

/-- The commands of a block whose first step has an index. -/
def Block.entries (index : Nat) : Block → List Entry
  | .nil => []
  | .cons position command rest =>
    ⟨position, index, command⟩ :: rest.entries (index + command.width)

/-- The commands of a body. -/
def Body.entries (b : Body) : List Entry := b.block.entries 0

theorem Command.length_steps (s : Site) (position : Nat) (c : Command) :
    (c.steps s position).length = c.width := by
  cases c with
  | breakLoop => simp only [Command.steps]; split <;> rfl
  | continueLoop => simp only [Command.steps]; split <;> rfl
  | _ => rfl

theorem Block.length_steps (s : Site) : (b : Block) → (b.steps s).length = b.width
  | .nil => rfl
  | .cons position command rest => by
    rw [Block.steps, List.length_append, Command.length_steps, Block.length_steps s rest,
      Block.width]

theorem Block.steps_eq (s : Site) (index : Nat) :
    (b : Block) → b.steps s = (b.entries index).flatMap (Entry.steps s)
  | .nil => rfl
  | .cons position command rest => by
    rw [Block.steps, Block.steps_eq s (index + command.width) rest]
    rfl

theorem Block.children_eq (s : Site) (index : Nat) :
    (b : Block) → b.children s index = (b.entries index).flatMap (Entry.children s)
  | .nil => rfl
  | .cons position command rest => by
    rw [Block.children, Block.children_eq s (index + command.width) rest]
    rfl

/-- An entry's steps stand among those of the block. -/
theorem Block.index_le {e : Entry} : (b : Block) → {index : Nat} → e ∈ b.entries index →
    index ≤ e.index ∧ e.index + e.command.width ≤ index + b.width
  | .nil, _, h => by simp [Block.entries] at h
  | .cons position command rest, index, h => by
    rw [Block.entries, List.mem_cons] at h
    rw [Block.width]
    rcases h with rfl | h
    · simp only
      omega
    · have := Block.index_le rest h
      omega

/-- The steps of an entry stand at its index. -/
theorem Block.getElem?_steps {s : Site} {e : Entry} : (b : Block) → {index : Nat} →
    e ∈ b.entries index → ∀ k < e.command.width,
      (b.steps s)[e.index - index + k]? = (e.steps s)[k]?
  | .nil, _, h => by simp [Block.entries] at h
  | .cons position command rest, index, h => by
    intro k hk
    rw [Block.entries, List.mem_cons] at h
    rw [Block.steps]
    rcases h with rfl | h
    · rw [Nat.sub_self, Nat.zero_add,
        List.getElem?_append_left (by rw [Command.length_steps]; exact hk)]
      rfl
    · have hle := Block.index_le rest h
      rw [List.getElem?_append_right (by rw [Command.length_steps]; omega),
        Command.length_steps, ← Block.getElem?_steps rest h k hk]
      congr 1
      omega

/-- A step of a block belongs to one of its entries. -/
theorem Block.exists_entry {s : Site} {i : Nat} {step : Step} : (b : Block) → (index : Nat) →
    (b.steps s)[i]? = some step →
      ∃ e ∈ b.entries index, ∃ k < e.command.width, index + i = e.index + k ∧
        (e.steps s)[k]? = some step
  | .nil, _, h => by simp [Block.steps] at h
  | .cons position command rest, index, h => by
    rw [Block.steps] at h
    rcases Nat.lt_or_ge i command.width with hi | hi
    · rw [List.getElem?_append_left (by rw [Command.length_steps]; exact hi)] at h
      exact ⟨⟨position, index, command⟩, List.mem_cons_self, i, hi, rfl, h⟩
    · rw [List.getElem?_append_right (by rw [Command.length_steps]; exact hi),
        Command.length_steps] at h
      obtain ⟨e, he, k, hk, hindex, hget⟩ := Block.exists_entry rest (index + command.width) h
      exact ⟨e, List.mem_cons_of_mem _ he, k, hk, by omega, hget⟩

namespace Body

theorem size_program (b : Body) : b.program.steps.size = b.block.width + 1 := by
  simp [program, Block.program, Block.length_steps]

theorem step_terminal (b : Body) : b.program.steps[b.block.width]? = some b.terminal := by
  simp [program, Block.program, ← Block.length_steps b.site b.block]

/-- An entry's steps end where the terminal stands or before. -/
theorem index_add_width_le {b : Body} {e : Entry} (he : e ∈ b.entries) :
    e.index + e.command.width ≤ b.block.width := by
  have := (Block.index_le b.block he).2
  omega

/-- The steps of an entry stand in the body's program at its index. -/
theorem step_entry {b : Body} {e : Entry} (he : e ∈ b.entries) {k : Nat}
    (hk : k < e.command.width) :
    b.program.steps[e.index + k]? = (e.steps b.site)[k]? := by
  have hget := Block.getElem?_steps (s := b.site) b.block he k hk
  have hwidth := index_add_width_le he
  rw [Nat.sub_zero] at hget
  rw [← hget, program, Block.program, List.getElem?_toArray,
    List.getElem?_append_left (by rw [Block.length_steps]; omega)]

/-- **A step of a program is the terminal or belongs to an entry.** -/
theorem step_cases {b : Body} {i : Nat} {step : Step} (h : b.program.steps[i]? = some step) :
    (i = b.block.width ∧ step = b.terminal) ∨
      ∃ e ∈ b.entries, ∃ k < e.command.width, i = e.index + k ∧
        (e.steps b.site)[k]? = some step := by
  rw [program, Block.program, List.getElem?_toArray] at h
  -- the terminal comes after the steps of the block
  rcases Nat.lt_or_ge i b.block.width with hi | hi
  · rw [List.getElem?_append_left (by rw [Block.length_steps]; exact hi)] at h
    obtain ⟨e, he, k, hk, hindex, hget⟩ := Block.exists_entry b.block 0 h
    exact .inr ⟨e, he, k, hk, by omega, hget⟩
  · rw [List.getElem?_append_right (by rw [Block.length_steps]; exact hi), Block.length_steps] at h
    obtain ⟨hlt, hget⟩ := List.getElem?_eq_some_iff.1 h
    simp only [List.length_singleton] at hlt
    refine .inl ⟨by omega, ?_⟩
    rw [← hget, List.getElem_singleton]

/-- A body held belongs to an entry. -/
theorem mem_children_iff {b c : Body} :
    c ∈ b.children ↔ ∃ e ∈ b.entries, c ∈ e.children b.site := by
  rw [children, Block.children_eq, List.mem_flatMap]
  rfl

end Body

end Cutscene
