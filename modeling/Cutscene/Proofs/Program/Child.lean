import Cutscene.Proofs.Program.Held
/-!
# Programs — bodies held, case by case

`Entry.Child` sorts the bodies that a command holds into four: one that is
chosen among others, which goes on after its command; the body of a loop; the
body of an iteration; and a unit of its own. Along it, `Library.block?` finds
the block of every body held (`Library.Holds.block?`), and every label of a
unit stands in a body within that unit (`Body.exists_label`).
-/

namespace Cutscene

/-! ## The blocks under the keys of a library -/

/-- The guarded body with an index. -/
def Arms.body? {sort : ArmSort} : Arms sort → Nat → Option Block
  | .nil, _ => none
  | .cons _ body _, 0 => some body
  | .cons _ _ rest, index + 1 => rest.body? index

/-- The body that a command has in a slot. -/
def Command.body? : Command → Slot → Option Block
  | .ifElse branches _, .branch index => branches.body? index
  | .ifElse _ (.present body), .otherwise => some body
  | .switch _ cases _, .case index => cases.body? index
  | .switch _ _ (.present body), .default => some body
  | .choices options, .choice index => options.body? index
  | .loop _ body, .body => some body
  | .forEach _ _ body, .body => some body
  | .independent body, .independent => some body
  | _, _ => none

/-- The command at a position. -/
def Block.command? (position : Nat) : Block → Option Command
  | .nil => none
  | .cons p command rest => if p = position then some command else rest.command? position

/-- The block under a key: an event's own, or one in a slot of a command. -/
def Library.block? (l : Library) : BodyKey → Option Block
  | .root name => (l.get? name).map fun d => .ofInstructions l.environment d.commands
  | .child parent position slot =>
    ((l.block? parent).bind (·.command? position)).bind (·.body? slot)

/-- Is it the slot of a body that is chosen among others? -/
def Slot.isArm : Slot → Bool
  | .body | .independent => false
  | _ => true

/-! ## The four sorts of bodies held -/

/-- A body that a command of a body at a site holds. -/
inductive Entry.Child (s : Site) (e : Entry) : Body → Prop
  | arm {slot : Slot} {body : Block} (hslot : slot.isArm)
      (hbody : e.command.body? slot = some body) :
    Child s e ⟨s.child e.position slot, body, .resume ⟨s.key, e.index + e.command.width⟩⟩
  | loop {tester : Tester} {body : Block} (h : e.command = .loop tester body) :
    Child s e ⟨s.looped e.position e.index false body, body,
      .repeatLoop tester ⟨s.key, e.index + 1⟩⟩
  | forEach {source : ListSource} {ref : VariableRef} {body : Block}
      (h : e.command = .forEach source ref body) :
    Child s e ⟨s.looped e.position e.index true body, body, .nextItem ref ⟨s.key, e.index + 1⟩⟩
  | independent {body : Block} (h : e.command = .independent body) :
    Child s e (Block.unit (.child s.key e.position .independent) body)

theorem Arms.exists_body? {sort : ArmSort} {s : Site} {position : Nat} {resume : Place} {b : Body} :
    (arms : Arms sort) → {index : Nat} → b ∈ arms.children s position index resume →
      ∃ i body, arms.body? i = some body ∧
        b = ⟨s.child position (sort.slot (index + i)), body, .resume resume⟩
  | .nil, _, h => by simp [Arms.children] at h
  | .cons guard body rest, index, h => by
    rw [Arms.children, List.mem_cons] at h
    rcases h with rfl | h
    · exact ⟨0, body, rfl, rfl⟩
    · obtain ⟨i, body', hbody, rfl⟩ := Arms.exists_body? rest h
      refine ⟨i + 1, body', hbody, ?_⟩
      rw [show index + (i + 1) = index + 1 + i by omega]

/-- **A body that a command holds is of one of the four sorts.** -/
theorem Entry.child_of_mem {s : Site} {e : Entry} {b : Body} (h : b ∈ e.children s) :
    e.Child s b := by
  obtain ⟨position, index, command⟩ := e
  have harms : ∀ {sort : ArmSort} {arms : Arms sort} {resume : Place},
      b ∈ arms.children s position 0 resume → ∃ i body, arms.body? i = some body ∧
        b = ⟨s.child position (sort.slot i), body, .resume resume⟩ := by
    intro sort arms resume h
    obtain ⟨i, body, hbody, hb⟩ := Arms.exists_body? arms h
    rw [Nat.zero_add] at hb
    exact ⟨i, body, hbody, hb⟩
  have hoptional : ∀ {o : OptionalBlock} {site : Site} {resume : Place},
      b ∈ o.children site resume → ∃ body, o = .present body ∧
        b = ⟨site, body, .resume resume⟩ := by
    intro o site resume h
    cases o with
    | absent => simp [OptionalBlock.children] at h
    | present body => exact ⟨body, rfl, List.mem_singleton.1 h⟩
  cases command with
  | ifElse branches otherwise =>
    rcases List.mem_append.1 h with h | h
    · obtain ⟨i, body, hbody, rfl⟩ := harms h
      exact .arm rfl hbody
    · obtain ⟨body, rfl, rfl⟩ := hoptional h
      exact .arm rfl rfl
  | switch subject cases default =>
    rcases List.mem_append.1 h with h | h
    · obtain ⟨i, body, hbody, rfl⟩ := harms h
      exact .arm rfl hbody
    · obtain ⟨body, rfl, rfl⟩ := hoptional h
      exact .arm rfl rfl
  | choices options =>
    obtain ⟨i, body, hbody, rfl⟩ := harms h
    exact .arm rfl hbody
  | loop tester body =>
    obtain rfl := List.mem_singleton.1 h
    exact .loop rfl
  | forEach source ref body =>
    obtain rfl := List.mem_singleton.1 h
    exact .forEach rfl
  | independent body =>
    obtain rfl := List.mem_singleton.1 h
    exact .independent rfl
  | _ => simp [Entry.children, Command.children] at h

namespace Entry.Child

variable {s : Site} {e : Entry} {b : Body}

/-- The body's key, and the body in its command's slot. -/
theorem key (h : e.Child s b) :
    ∃ slot, b.key = .child s.key e.position slot ∧ e.command.body? slot = some b.block := by
  cases h with
  | arm hslot hbody => exact ⟨_, rfl, hbody⟩
  | loop h => exact ⟨.body, rfl, by rw [h]; rfl⟩
  | forEach h => exact ⟨.body, rfl, by rw [h]; rfl⟩
  | independent h => exact ⟨.independent, rfl, by rw [h]; rfl⟩

end Entry.Child

theorem Block.command?_of_mem {e : Entry} : (b : Block) → {index : Nat} →
    ((b.entries index).map Entry.position).Nodup → e ∈ b.entries index →
      b.command? e.position = some e.command
  | .nil, _, _, h => by simp [Block.entries] at h
  | .cons position command rest, index, hnodup, h => by
    rw [Block.entries, List.map_cons, List.nodup_cons] at hnodup
    rw [Block.command?]
    rcases List.mem_cons.1 h with rfl | h
    · rw [if_pos rfl]
    · have hmem : e.position ∈ (rest.entries (index + command.width)).map Entry.position :=
        List.mem_map.2 ⟨e, h, rfl⟩
      have hne : position ≠ e.position := fun heq => hnodup.1 (heq ▸ hmem)
      rw [if_neg hne]
      exact Block.command?_of_mem rest hnodup.2 h

/-- **The block of a body held is the one under its key.** -/
theorem Library.Holds.block? {l : Library} (hl : l.Lawful) {b : Body} (h : l.Holds b) :
    l.block? b.key = some b.block := by
  refine h.induction (motive := fun b => l.block? b.key = some b.block) ?_ ?_
  · intro name d h
    show (l.get? d.name).map _ = _
    rw [hl.name_eq h, h]
    rfl
  · intro b c hb ih hc
    obtain ⟨e, he, hc⟩ := Body.mem_children_iff.1 hc
    obtain ⟨slot, hkey, hbody⟩ := (Entry.child_of_mem hc).key
    rw [hkey, Library.block?, show l.block? b.site.key = _ from ih, Option.bind_some,
      Block.command?_of_mem _ hb.distinct he, Option.bind_some, hbody]

/-! ## Labels -/

/-- The labels in a body and in what is nested in it, up to other units. -/
def Body.labels (b : Body) : List (String × Label) := b.block.labels b.key b.site.depth 0

theorem Arms.exists_labels {sort : ArmSort} {s : Site} {position : Nat} {resume : Place}
    {label : String × Label} : (arms : Arms sort) → {index : Nat} →
      label ∈ arms.labels s.key s.depth position index →
        ∃ b ∈ arms.children s position index resume, label ∈ b.labels
  | .nil, _, h => by simp [Arms.labels] at h
  | .cons guard body rest, index, h => by
    rw [Arms.labels, List.mem_append] at h
    rcases h with h | h
    · exact ⟨_, List.mem_cons_self, h⟩
    · obtain ⟨b, hb, hlabel⟩ := Arms.exists_labels rest h
      exact ⟨b, List.mem_cons_of_mem _ hb, hlabel⟩

theorem OptionalBlock.exists_labels {s : Site} {resume : Place} {label : String × Label}
    {o : OptionalBlock} (h : label ∈ o.labels s.key s.depth) :
    ∃ b ∈ o.children s resume, label ∈ b.labels := by
  cases o with
  | absent => simp [OptionalBlock.labels] at h
  | present body => exact ⟨_, List.mem_singleton_self _, h⟩

/-- A label in a command is the command, or stands in a body that it holds. -/
theorem Command.exists_labels {s : Site} {position index : Nat} {label : String × Label}
    {c : Command} (h : label ∈ c.labels s.key s.depth position index) :
    (c = .label label.1 ∧ label.2 = ⟨⟨s.key, index⟩, s.depth⟩) ∨
      ∃ b ∈ c.children s position index, label ∈ b.labels := by
  cases c with
  | label name =>
    obtain rfl := List.mem_singleton.1 h
    exact .inl ⟨rfl, rfl⟩
  | ifElse branches otherwise =>
    rcases List.mem_append.1 h with h | h
    · obtain ⟨b, hb, hlabel⟩ := Arms.exists_labels (s := s) branches h
      exact .inr ⟨b, List.mem_append_left _ hb, hlabel⟩
    · obtain ⟨b, hb, hlabel⟩ :=
        OptionalBlock.exists_labels (s := s.child position .otherwise) h
      exact .inr ⟨b, List.mem_append_right _ hb, hlabel⟩
  | switch subject cases default =>
    rcases List.mem_append.1 h with h | h
    · obtain ⟨b, hb, hlabel⟩ := Arms.exists_labels (s := s) cases h
      exact .inr ⟨b, List.mem_append_left _ hb, hlabel⟩
    · obtain ⟨b, hb, hlabel⟩ := OptionalBlock.exists_labels (s := s.child position .default) h
      exact .inr ⟨b, List.mem_append_right _ hb, hlabel⟩
  | choices options =>
    obtain ⟨b, hb, hlabel⟩ := Arms.exists_labels (s := s) options h
    exact .inr ⟨b, hb, hlabel⟩
  | loop tester body => exact .inr ⟨_, List.mem_singleton_self _, h⟩
  | forEach source ref body => exact .inr ⟨_, List.mem_singleton_self _, h⟩
  | _ => simp [Command.labels] at h

theorem Block.exists_labels {key : BodyKey} {depth : Nat} {label : String × Label} :
    (b : Block) → {index : Nat} → label ∈ b.labels key depth index →
      ∃ e ∈ b.entries index, label ∈ e.command.labels key depth e.position e.index
  | .nil, _, h => by simp [Block.labels] at h
  | .cons position command rest, index, h => by
    rw [Block.labels, List.mem_append] at h
    rcases h with h | h
    · exact ⟨_, List.mem_cons_self, h⟩
    · obtain ⟨e, he, hlabel⟩ := Block.exists_labels rest h
      exact ⟨e, List.mem_cons_of_mem _ he, hlabel⟩

/-- **A label of a unit stands in a body within the unit.** -/
theorem Body.exists_label {a : Body} {label : String × Label} (h : label ∈ a.labels) :
    ∃ b, a.Within b ∧ ∃ e ∈ b.entries, e.command = .label label.1 ∧
      label.2 = ⟨⟨b.key, e.index⟩, b.site.depth⟩ := by
  induction a using induction_children with
  | h a ih =>
    obtain ⟨e, he, hlabel⟩ := Block.exists_labels a.block h
    rcases Command.exists_labels (s := a.site) hlabel with ⟨hc, hplace⟩ | ⟨c, hc, hlabel⟩
    · exact ⟨a, .refl a, e, he, hc, hplace⟩
    · have hchild : c ∈ a.children := mem_children_iff.2 ⟨e, he, hc⟩
      obtain ⟨b, hb, hrest⟩ := ih c hchild hlabel
      exact ⟨b, .head hchild hb, hrest⟩

namespace Library.Holds

variable {l : Library} {b : Body}

/-- The labels at a body's site are those of a unit that is held, of the same
event. -/
theorem exists_unit (h : l.Holds b) :
    ∃ u, l.Holds u ∧ u.key.event = b.key.event ∧ b.site.labels = .ofList u.labels := by
  refine h.induction (motive := fun b =>
    ∃ u, l.Holds u ∧ u.key.event = b.key.event ∧ b.site.labels = .ofList u.labels) ?_ ?_
  · exact fun h => ⟨_, .event h, rfl, rfl⟩
  · intro b c hb ⟨u, hu, hevent, hlabels⟩ hc
    obtain ⟨e, he, hc'⟩ := Body.mem_children_iff.1 hc
    cases Entry.child_of_mem hc' with
    -- only a body of its own begins a new unit
    | independent hcommand => exact ⟨_, hb.child hc, rfl, rfl⟩
    | _ => exact ⟨u, hu, hevent, hlabels⟩

/-- **A label that is found at a body's site stands in a body held**, of the
same event. -/
theorem exists_label (h : l.Holds b) {name : String} {label : Label}
    (hlabel : b.site.labels.get? name = some label) :
    ∃ x, l.Holds x ∧ x.key.event = b.key.event ∧ ∃ e ∈ x.entries, e.command = .label name ∧
      label = ⟨⟨x.key, e.index⟩, x.site.depth⟩ := by
  obtain ⟨u, hu, hevent, hlabels⟩ := h.exists_unit
  rw [hlabels] at hlabel
  obtain ⟨x, hx, e, he, hcommand, hplace⟩ :=
    Body.exists_label (Table.mem_of_get?_ofList hlabel)
  obtain ⟨name', d, hd, hw⟩ := hu
  exact ⟨x, ⟨name', d, hd, hw.trans hx⟩, hx.below.1.symm.trans hevent, e, he, hcommand, hplace⟩

end Library.Holds

end Cutscene
