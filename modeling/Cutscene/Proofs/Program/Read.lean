import Cutscene.Program.Reading
import Cutscene.Proofs.Program.Entry
/-!
# Programs — blocks that were read

A block that was read from instructions holds blocks that were read from
instructions (`Block.Read.within`), because the body of a command is made by
the reading that made the command. Such a block counts its instructions, so
it repeats no position (`Block.Read.distinct`).
-/

namespace Cutscene

/-- No two commands of the block have one position. -/
def Block.Distinct (b : Block) : Prop := ((b.entries 0).map Entry.position).Nodup

/-- The block was read from instructions. -/
def Block.Read (env : Environment) (b : Block) : Prop :=
  ∃ (inLoop : Bool) (is : List Instruction),
    b = .ofCommands (is.map (Command.ofInstruction? env inLoop))

theorem Block.positions_sublist (commands : List (Option Command × Nat)) (index : Nat) :
    List.Sublist (((commands.foldr (fun (command, position) rest =>
        match command with
        | some command => Block.cons position command rest
        | none => rest) .nil).entries index).map Entry.position) (commands.map (·.2)) := by
  induction commands generalizing index with
  | nil => exact List.Sublist.refl _
  | cons pair commands ih =>
    obtain ⟨command, position⟩ := pair
    cases command with
    | none => exact (ih index).cons _
    | some command => exact (ih (index + command.width)).cons_cons _

/-- **A block of commands repeats no position.** -/
theorem Block.distinct_ofCommands (commands : List (Option Command)) :
    (Block.ofCommands commands).Distinct := by
  refine (Block.positions_sublist commands.zipIdx 0).nodup ?_
  rw [List.zipIdx_map_snd]
  exact List.nodup_range' ..

theorem Arms.children_block {sort : ArmSort} {s : Site} {position : Nat} {resume : Place}
    {b : Body} : (arms : List (Guard sort × Block)) → {index : Nat} →
      b ∈ (Arms.ofList arms).children s position index resume → ∃ arm ∈ arms, b.block = arm.2
  | [], _, h => by simp [Arms.ofList, Arms.children] at h
  | arm :: arms, index, h => by
    rw [Arms.ofList, List.foldr_cons, Arms.children, List.mem_cons] at h
    rcases h with rfl | h
    · exact ⟨arm, List.mem_cons_self, rfl⟩
    · obtain ⟨arm', harm, hb⟩ := Arms.children_block arms h
      exact ⟨arm', List.mem_cons_of_mem _ harm, hb⟩

theorem OptionalBlock.children_block {s : Site} {resume : Place} {b : Body} {o : Option Block}
    (h : b ∈ (OptionalBlock.ofOption o).children s resume) : o = some b.block := by
  cases o with
  | none => simp [OptionalBlock.ofOption, OptionalBlock.children] at h
  | some body =>
    obtain rfl := List.mem_singleton.1 h
    rfl

/-! ## What instructions are read as -/

theorem Json.exists_of_oneOf? {α : Type} {names : List (String × α)} {j : Json} {a : α}
    (h : Json.oneOf? names j = some a) : ∃ name, (name, a) ∈ names := by
  unfold Json.oneOf? at h
  split at h
  · exact ⟨_, Json.mem_of_lookup h⟩
  · exact ⟨_, Json.mem_of_lookup h⟩
  · simp at h

theorem Json.Record.orElse_oneOf? {α : Type} {r : Json.Record} {field : String}
    {names : List (String × α)} {default a : α}
    (h : r.orElse field (Json.oneOf? names) default = some a) :
    a = default ∨ ∃ name, (name, a) ∈ names := by
  unfold Json.Record.orElse at h
  split at h
  · exact .inl (Option.some.inj h).symm
  · exact .inr (Json.exists_of_oneOf? h)

/-- A jump that was read is one to a label or a return. -/
theorem Program.jump?_cases {params : Json} {c : Command} (h : Program.jump? params = some c) :
    (∃ sort label, c = .jump sort label) ∨ c = .returnJump := by
  simp only [Program.jump?, bind, Option.bind_eq_some_iff] at h
  obtain ⟨r, -, label, -, h⟩ := h
  rcases Json.Record.orElse_oneOf? h with rfl | ⟨name, hname⟩
  · exact .inl ⟨_, _, rfl⟩
  · simp only [List.mem_cons, Prod.mk.injEq, List.not_mem_nil, or_false] at hname
    rcases hname with ⟨-, rfl⟩ | ⟨-, rfl⟩ | ⟨-, rfl⟩
    · exact .inl ⟨_, _, rfl⟩
    · exact .inl ⟨_, _, rfl⟩
    · exact .inr rfl

/-- A call that was read is one of an event that there is. -/
theorem Program.call?_cases {isEvent : String → Bool} {params : Json} {c : Command}
    (h : Program.call? isEvent params = some c) :
    ∃ event arguments, isEvent event ∧
      (c = .call event arguments ∨ c = .callAsync event arguments) := by
  simp only [Program.call?, bind, Option.bind_eq_some_iff] at h
  obtain ⟨r, -, event, -, make, hmake, arguments, -, h⟩ := h
  split at h
  case isFalse => simp at h
  case isTrue hevent =>
    obtain rfl := Option.some.inj h
    refine ⟨event, arguments, hevent, ?_⟩
    rcases Json.Record.orElse_oneOf? hmake with rfl | ⟨name, hname⟩
    · exact .inl rfl
    · simp only [List.mem_cons, Prod.mk.injEq, List.not_mem_nil, or_false] at hname
      rcases hname with ⟨-, rfl⟩ | ⟨-, rfl⟩
      · exact .inl rfl
      · exact .inr rfl

theorem Program.custom?_cases {id : String} {params : Json} {c : Command}
    (h : Program.custom? id params = some c) : ∃ arguments, c = .custom id arguments := by
  unfold Program.custom? at h
  split at h <;>
    simp only [bind, Option.bind_eq_some_iff, pure, Option.some.injEq] at h
  · obtain ⟨text, -, arguments, -, rfl⟩ := h
    exact ⟨arguments, rfl⟩
  · obtain ⟨r, -, text, -, arguments, -, rfl⟩ := h
    exact ⟨arguments, rfl⟩

/-- The bodies of a command that was read from an instruction were read. -/
theorem Command.read_children {env : Environment} {inLoop : Bool} {i : Instruction}
    {c : Command} (h : Command.ofInstruction? env inLoop i = some c) {s : Site}
    {position index : Nat} {b : Body} (hb : b ∈ c.children s position index) :
    b.block.Read env := by
  -- the three shapes in which a command holds bodies: one, guarded ones, one that may be absent
  have hread : ∀ (inLoop : Bool) (is : Program.Nested i.params),
      (Block.ofCommands (is.1.attach.map fun j =>
        Command.ofInstruction? env inLoop j.1)).Read env := fun inLoop is =>
    ⟨inLoop, is.1, by rw [List.attach_map_val (f := Command.ofInstruction? env inLoop)]⟩
  have harms : ∀ {sort : ArmSort} {inLoop : Bool}
      {list : List (Guard sort × Program.Nested i.params)} {resume : Place},
      b ∈ (Arms.ofList (list.map fun arm =>
        (arm.1, Block.ofCommands (arm.2.1.attach.map fun j =>
          Command.ofInstruction? env inLoop j.1)))).children s position 0 resume →
        b.block.Read env := by
    intro sort inLoop list resume hb
    obtain ⟨arm, harm, hblock⟩ := Arms.children_block _ hb
    obtain ⟨given, -, rfl⟩ := List.mem_map.1 harm
    rw [hblock]
    exact hread _ _
  have hoptional : ∀ {inLoop : Bool} {o : Option (Program.Nested i.params)} {site : Site}
      {resume : Place},
      b ∈ (OptionalBlock.ofOption (o.map fun is =>
        Block.ofCommands (is.1.attach.map fun j =>
          Command.ofInstruction? env inLoop j.1))).children site resume →
        b.block.Read env := by
    intro inLoop o site resume hb
    obtain ⟨is, -, hblock⟩ := Option.map_eq_some_iff.1 (OptionalBlock.children_block hb)
    rw [← hblock]
    exact hread _ _
  rw [Command.ofInstruction?] at h
  split at h
  · simp at h
  · simp only at h
    split at h
    case h_1 =>
      obtain ⟨⟨list, otherwise⟩, -, rfl⟩ := Option.map_eq_some_iff.1 h
      exact (List.mem_append.1 hb).elim harms hoptional
    case h_2 =>
      obtain ⟨⟨subject, list, otherwise⟩, -, rfl⟩ := Option.map_eq_some_iff.1 h
      exact (List.mem_append.1 hb).elim harms hoptional
    case h_3 =>
      obtain ⟨list, -, rfl⟩ := Option.map_eq_some_iff.1 h
      exact harms hb
    case h_4 =>
      obtain ⟨⟨tester, is⟩, -, rfl⟩ := Option.map_eq_some_iff.1 h
      obtain rfl := List.mem_singleton.1 hb
      exact hread _ _
    case h_5 =>
      obtain ⟨⟨source, ref, is⟩, -, rfl⟩ := Option.map_eq_some_iff.1 h
      obtain rfl := List.mem_singleton.1 hb
      exact hread _ _
    case h_6 =>
      obtain ⟨is, -, rfl⟩ := Option.map_eq_some_iff.1 h
      obtain rfl := List.mem_singleton.1 hb
      exact hread _ _
    -- no other instruction holds a body
    case h_7 | h_8 =>
      split at h
      · obtain rfl := Option.some.inj h
        simp [Command.children] at hb
      · simp at h
    case h_9 =>
      obtain ⟨name, -, rfl⟩ := Option.map_eq_some_iff.1 h
      simp [Command.children] at hb
    case h_10 =>
      rcases Program.jump?_cases h with ⟨sort, label, rfl⟩ | rfl <;>
        simp [Command.children] at hb
    case h_11 =>
      obtain ⟨event, arguments, -, rfl | rfl⟩ := Program.call?_cases h <;>
        simp [Command.children] at hb
    case h_12 =>
      split at h
      · obtain ⟨action, -, rfl⟩ := Option.map_eq_some_iff.1 h
        simp [Command.children] at hb
      · obtain ⟨arguments, rfl⟩ := Program.custom?_cases h
        simp [Command.children] at hb

theorem Block.exists_command {commands : List (Option Command)} {e : Entry} {index : Nat}
    (h : e ∈ (Block.ofCommands commands).entries index) : some e.command ∈ commands := by
  suffices hs : ∀ (list : List (Option Command × Nat)) (index : Nat),
      e ∈ (list.foldr (fun (command, position) rest =>
        match command with
        | some command => Block.cons position command rest
        | none => rest) .nil).entries index → some e.command ∈ list.map (·.1) by
    have := hs _ _ h
    rwa [List.zipIdx_map_fst] at this
  intro list
  induction list with
  | nil => exact fun _ h => by simp [Block.entries] at h
  | cons pair list ih =>
    intro index h
    obtain ⟨command, position⟩ := pair
    cases command with
    | none => exact List.mem_cons_of_mem _ (ih index h)
    | some command =>
      rcases List.mem_cons.1 h with rfl | h
      · exact List.mem_cons_self
      · exact List.mem_cons_of_mem _ (ih _ h)

/-- **Whatever is nested in a block that was read was read.** -/
theorem Block.Read.within {env : Environment} {a b : Body} (ha : a.block.Read env)
    (h : a.Within b) : b.block.Read env := by
  induction h with
  | refl => exact ha
  | tail _ hc ih =>
    obtain ⟨inLoop, is, hb⟩ := ih
    obtain ⟨e, he, hc⟩ := Body.mem_children_iff.1 hc
    rw [Body.entries, hb] at he
    obtain ⟨i, -, hi⟩ := List.mem_map.1 (Block.exists_command he)
    exact Command.read_children hi hc

theorem Block.Read.distinct {env : Environment} {b : Block} (h : b.Read env) :
    b.Distinct := by
  obtain ⟨inLoop, is, rfl⟩ := h
  exact Block.distinct_ofCommands _

end Cutscene
