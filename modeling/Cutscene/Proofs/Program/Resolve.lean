import Cutscene.Proofs.Program.Held
import Cutscene.Proofs.Program.Unit
import Cutscene.Run.Advance
/-!
# Programs — where jumps land

A jump lands on the last label of its name in its unit
(`Library.Lawful.jumps_land`): at the first step after the label, or at the
step its body ends in. Without such a label it only goes on.

Where a label stands is known when all of its unit is laid out, so a unit can
be laid out with placeholders first (`Body.bare`), its jumps noted in the order
of the document (`Body.pending`) and put in their places afterwards
(`resolve`). This makes the programs of the unit
(`Body.programs_eq_resolve`), and it changes nothing but placeholders.
-/

namespace Cutscene

/-! ## Steps after a command -/

/-- A command's first step comes after the steps of the commands before it. -/
theorem Block.index_eq {s : Site} {before after : List Entry} {e : Entry} :
    (b : Block) → {index : Nat} → b.entries index = before ++ e :: after →
      e.index = index + (before.flatMap (Entry.steps s)).length
  | .nil, _, h => by simp [Block.entries] at h
  | .cons position command rest, index, h => by
    rw [Block.entries] at h
    cases before with
    | nil =>
      obtain ⟨rfl, -⟩ := List.cons.inj h
      rfl
    | cons e' before =>
      obtain ⟨rfl, hrest⟩ := List.cons.inj h
      rw [Block.index_eq (s := s) rest hrest, List.flatMap_cons, List.length_append, Entry.steps,
        Command.length_steps]
      simp only
      omega

namespace Body

/-- **At a label stands the first step after it**, or the terminal. -/
theorem step_after_label {b : Body} {before after : List Entry} {e : Entry} {name : String}
    (h : b.entries = before ++ e :: after) (he : e.command = .label name) :
    b.program.steps[e.index]? = (after.flatMap (Entry.steps b.site) ++ [b.terminal]).head? := by
  have hindex := Block.index_eq (s := b.site) b.block h
  have hnone : e.steps b.site = [] := by rw [Entry.steps, he]; rfl
  have hsteps : b.block.steps b.site =
      before.flatMap (Entry.steps b.site) ++ after.flatMap (Entry.steps b.site) := by
    rw [Block.steps_eq b.site 0, show b.block.entries 0 = _ from h, List.flatMap_append,
      List.flatMap_cons, hnone, List.nil_append]
  rw [program, Block.program, List.getElem?_toArray, hsteps, hindex, Nat.zero_add,
    List.append_assoc, List.getElem?_append_right (Nat.le_refl _), Nat.sub_self,
    List.head?_eq_getElem?]

end Body

/-! ## Placeholders -/

/-- The site with no labels known. -/
def Site.bare (s : Site) : Site := { s with labels := .empty }

/-- The body with no labels known: its jumps, and those of the bodies inside,
are placeholders. -/
def Body.bare (b : Body) : Body := { b with site := b.site.bare }

/-- A jump whose label is looked for. -/
structure PendingJump where
  sort : JumpSort
  label : String
  place : Place
  depth : Nat

/-- The step of the jump, where there is its label. -/
def PendingJump.step? (labels : Table String Label) (j : PendingJump) : Option Step :=
  (labels.get? j.label).map fun target =>
    match j.sort with
    | .plain => .jump target.place (j.depth - target.depth)
    | .saved => .saveJump target.place

theorem Site.jump_eq (s : Site) (sort : JumpSort) (label : String) (place : Place) :
    s.jump sort label =
      ((⟨sort, label, place, s.depth⟩ : PendingJump).step? s.labels).getD .idle := by
  unfold Site.jump PendingJump.step?
  cases s.labels.get? label <;> cases sort <;> rfl

/-- The jump that the command is. -/
def Entry.pending? (s : Site) (e : Entry) : Option PendingJump :=
  match e.command with
  | .jump sort label => some ⟨sort, label, ⟨s.key, e.index⟩, s.depth⟩
  | _ => none

theorem Entry.command_of_pending? {s : Site} {e : Entry} {j : PendingJump}
    (h : e.pending? s = some j) : e.command = .jump j.sort j.label := by
  unfold pending? at h
  split at h
  · rename_i sort label hcommand
    obtain rfl := Option.some.inj h
    exact hcommand
  · simp at h

/-- The jumps of a unit, in the order of the document. -/
def Body.pending (a : Body) : List PendingJump :=
  a.document.filterMap fun x => x.2.pending? x.1.site

/-- The program with a jump put in its place, if it is one of the program and
there is its label. -/
def Program.patch (labels : Table String Label) (p : Program) (j : PendingJump) : Program :=
  match j.step? labels with
  | none => p
  | some step =>
    if p.key = j.place.program then
      { p with steps := p.steps.setIfInBounds j.place.index step }
    else p

/-- The programs with jumps put in their places, one after the other. -/
def resolve (labels : Table String Label) (jumps : List PendingJump) (programs : List Program) :
    List Program :=
  jumps.foldl (fun programs j => programs.map (·.patch labels j)) programs

/-- The program with jumps put in their places. -/
def Program.resolve (labels : Table String Label) (jumps : List PendingJump) (p : Program) :
    Program :=
  jumps.foldl (Program.patch labels) p

theorem resolve_eq_map (labels : Table String Label) (jumps : List PendingJump)
    (programs : List Program) :
    resolve labels jumps programs = programs.map (Program.resolve labels jumps) := by
  induction jumps generalizing programs with
  | nil => exact (List.map_id _).symm
  | cons j jumps ih =>
    rw [resolve, List.foldl_cons]
    exact (ih _).trans (List.map_map ..)

section

variable {labels : Table String Label} {jumps : List PendingJump} {p : Program} {j : PendingJump}
variable {i : Nat} {step : Step}

@[simp] theorem Program.key_patch : (p.patch labels j).key = p.key := by
  unfold Program.patch
  split
  · rfl
  · split <;> rfl

@[simp] theorem Program.size_patch : (p.patch labels j).steps.size = p.steps.size := by
  unfold Program.patch
  split
  · rfl
  · split
    · exact Array.size_setIfInBounds
    · rfl

theorem Program.patch_of_ne (h : p.key ≠ j.place.program) : p.patch labels j = p := by
  unfold Program.patch
  split
  · rfl
  · rw [if_neg h]

theorem Program.getElem?_patch_of_ne (h : j.place ≠ ⟨p.key, i⟩) :
    (p.patch labels j).steps[i]? = p.steps[i]? := by
  unfold Program.patch
  split
  · rfl
  split
  · rename_i hkey
    refine Array.getElem?_setIfInBounds_ne fun hindex => h ?_
    rw [hkey, ← hindex]
  · rfl

theorem Program.getElem?_patch (hj : j.step? labels = some step) (hplace : j.place = ⟨p.key, i⟩)
    (hi : i < p.steps.size) : (p.patch labels j).steps[i]? = some step := by
  rw [Program.patch, hj, hplace]
  simp only [if_true]
  rw [Array.getElem?_setIfInBounds_self_of_lt hi]

theorem Program.key_resolve : (p.resolve labels jumps).key = p.key := by
  induction jumps generalizing p with
  | nil => rfl
  | cons j jumps ih => exact ih.trans Program.key_patch

theorem Program.size_resolve : (p.resolve labels jumps).steps.size = p.steps.size := by
  induction jumps generalizing p with
  | nil => rfl
  | cons j jumps ih => exact ih.trans Program.size_patch

/-- A program without any of the jumps stays as it is. -/
theorem Program.resolve_of_ne (h : ∀ j ∈ jumps, p.key ≠ j.place.program) :
    p.resolve labels jumps = p := by
  induction jumps with
  | nil => rfl
  | cons j jumps ih =>
    rw [Program.resolve, List.foldl_cons, Program.patch_of_ne (h j List.mem_cons_self)]
    exact ih fun j hj => h j (List.mem_cons_of_mem _ hj)

/-- **A slot stays as it is or gets a jump** that is to stand there. -/
theorem Program.getElem?_resolve (labels : Table String Label) (jumps : List PendingJump)
    (hi : i < p.steps.size) :
    ((p.resolve labels jumps).steps[i]? = p.steps[i]? ∧
      ∀ j ∈ jumps, j.place = ⟨p.key, i⟩ → j.step? labels = none) ∨
    ∃ j ∈ jumps, j.place = ⟨p.key, i⟩ ∧ ∃ step, j.step? labels = some step ∧
      (p.resolve labels jumps).steps[i]? = some step := by
  induction jumps generalizing p with
  | nil => exact .inl ⟨rfl, nofun⟩
  | cons j jumps ih =>
    rcases ih (p := p.patch labels j) (by rwa [size_patch]) with ⟨heq, hnone⟩ | ⟨j', hj', hplace, h⟩
    · rw [key_patch] at hnone
      by_cases hplace : j.place = ⟨p.key, i⟩
      · cases hstep : j.step? labels with
        | none =>
          have hpatch : p.patch labels j = p := by rw [patch, hstep]
          refine .inl ⟨heq.trans (by rw [hpatch]), fun j' hj' h => ?_⟩
          rcases List.mem_cons.1 hj' with rfl | hj'
          · exact hstep
          · exact hnone j' hj' h
        | some step =>
          exact .inr ⟨j, List.mem_cons_self, hplace, step, hstep,
            heq.trans (getElem?_patch hstep hplace hi)⟩
      · refine .inl ⟨heq.trans (getElem?_patch_of_ne hplace), fun j' hj' h => ?_⟩
        rcases List.mem_cons.1 hj' with rfl | hj'
        · exact absurd h hplace
        · exact hnone j' hj' h
    · rw [key_patch] at hplace
      exact .inr ⟨j', List.mem_cons_of_mem _ hj', hplace, h⟩

end

/-! ## The bodies of a unit apart from those of others -/

/-- How many units the body stands in, below its event. -/
def BodyKey.units : BodyKey → Nat
  | .root _ => 0
  | .child parent _ slot => parent.units + if slot = .independent then 1 else 0

namespace Body

theorem Inside.units_eq {u b : Body} (h : u.Inside b) : b.key.units = u.key.units := by
  induction h with
  | refl => rfl
  | tail _ hc ih =>
    obtain ⟨e, he, hc⟩ := hc
    unfold Entry.inner at hc
    split at hc
    · simp at hc
    rename_i hunit
    rw [← ih]
    cases Entry.child_of_mem hc with
    | independent h => exact absurd (by rw [h]; rfl) hunit
    | arm hslot hbody =>
      rename_i slot body
      cases slot <;> first | rfl | simp [Slot.isArm] at hslot
    | _ => rfl

theorem Within.units_le {a b : Body} (h : a.Within b) : a.key.units ≤ b.key.units := by
  induction h with
  | refl => exact Nat.le_refl _
  | tail _ hc ih =>
    obtain ⟨position, slot, hkey⟩ := key_of_mem_children hc
    rw [hkey]
    exact Nat.le_trans ih (Nat.le_add_right _ _)

/-- The programs of a body are those of the body and of all bodies within, in
order. -/
theorem programs_eq_map_all (a : Body) : a.programs = a.all.map program := by
  induction a using induction_children with
  | h a ih =>
    rw [programs_eq, all, List.map_cons]
    simp only [List.flatMap_subtype, List.unattach_attach, List.map_flatMap]
    rw [List.flatMap_congr fun c hc => ih c hc]

/-- Two bodies within one body are the same if they have one key. -/
theorem eq_of_key_eq {a b c : Body} (h : ∀ x, a.Within x → x.block.Distinct) (hb : a.Within b)
    (hc : a.Within c) (hkey : b.key = c.key) : b = c := by
  have hnodup : (a.all.map key).Nodup := by
    have hnodup := nodup_keys h
    rw [programs_eq_map_all, List.map_map] at hnodup
    exact hnodup
  exact List.inj_on_of_nodup_map hnodup (mem_all_iff.2 hb) (mem_all_iff.2 hc) hkey

end Body

/-! ## Placeholders and what is put in their places -/

theorem Arms.children_bare {sort : ArmSort} (s : Site) (position : Nat) (resume : Place) :
    (arms : Arms sort) → (index : Nat) → arms.children s.bare position index resume =
      (arms.children s position index resume).map Body.bare
  | .nil, _ => rfl
  | .cons _ _ rest, index => by
    rw [Arms.children, Arms.children_bare s position resume rest (index + 1)]
    rfl

theorem OptionalBlock.children_bare (s : Site) (resume : Place) (o : OptionalBlock) :
    o.children s.bare resume = (o.children s resume).map Body.bare := by
  cases o <;> rfl

/-- With no labels known, a command holds the same bodies, those of its unit
with no labels known. -/
theorem Entry.children_bare (s : Site) (e : Entry) :
    e.children s.bare =
      if e.command.isIndependent then e.children s else (e.children s).map Body.bare := by
  obtain ⟨position, index, command⟩ := e
  cases command with
  | ifElse branches otherwise =>
    show branches.children s.bare position 0 _ ++
      otherwise.children (s.child position .otherwise).bare _ = List.map _ (_ ++ _)
    rw [Arms.children_bare, OptionalBlock.children_bare, List.map_append]
    rfl
  | switch subject cases default =>
    show cases.children s.bare position 0 _ ++
      default.children (s.child position .default).bare _ = List.map _ (_ ++ _)
    rw [Arms.children_bare, OptionalBlock.children_bare, List.map_append]
    rfl
  | choices options => exact Arms.children_bare s position _ options 0
  | _ => rfl

/-- A command that is no jump has the same steps with no labels known. -/
theorem Entry.steps_bare {s : Site} {e : Entry} (h : e.pending? s = none) :
    e.steps s.bare = e.steps s := by
  obtain ⟨position, index, command⟩ := e
  cases command with
  | jump sort label => simp [Entry.pending?] at h
  | _ => rfl

namespace Body

variable {u b : Body}

theorem mem_pending_iff {j : PendingJump} :
    j ∈ u.pending ↔ ∃ b, u.Inside b ∧ ∃ e ∈ b.entries, e.pending? b.site = some j := by
  rw [pending, List.mem_filterMap]
  constructor
  · rintro ⟨⟨b, e⟩, hmem, hj⟩
    obtain ⟨hinside, he⟩ := mem_document_iff.1 hmem
    exact ⟨b, hinside, e, he, hj⟩
  · rintro ⟨b, hinside, e, he, hj⟩
    exact ⟨(b, e), mem_document_iff.2 ⟨hinside, he⟩, hj⟩

/-- A jump stands in its body's program: the jump to its label, if there is
one. -/
theorem step_pending {e : Entry} {j : PendingJump} (he : e ∈ b.entries)
    (hj : e.pending? b.site = some j) :
    j.place = ⟨b.key, e.index⟩ ∧
      b.program.steps[e.index]? = some ((j.step? b.site.labels).getD .idle) := by
  unfold Entry.pending? at hj
  split at hj
  case h_2 => simp at hj
  rename_i sort label hcommand
  obtain rfl := Option.some.inj hj
  refine ⟨rfl, ?_⟩
  have hstep := step_entry he (k := 0) (by rw [hcommand]; exact Nat.one_pos)
  rw [Nat.add_zero] at hstep
  rw [hstep, Entry.steps, hcommand, ← Site.jump_eq]
  rfl

/-- Where no jump is to be put, the placeholders are as in the program. -/
theorem getElem?_program_bare {i : Nat}
    (h : ∀ e ∈ b.entries, ∀ j, e.pending? b.site = some j → j.place = ⟨b.key, i⟩ →
      j.step? b.site.labels = none) :
    b.bare.program.steps[i]? = b.program.steps[i]? := by
  cases hstep : b.program.steps[i]? with
  | none =>
    rw [Array.getElem?_eq_none_iff, size_program] at hstep
    rw [Array.getElem?_eq_none_iff, size_program]
    exact hstep
  | some step =>
    rcases step_cases hstep with ⟨rfl, rfl⟩ | ⟨e, he, k, hk, rfl, hget⟩
    · exact b.bare.step_terminal
    cases hj : e.pending? b.site with
    | none => rw [step_entry (b := b.bare) he hk, ← hget, ← Entry.steps_bare hj]; rfl
    | some j =>
      -- a jump without its label, which is a placeholder in the program too
      obtain ⟨hplace, hprogram⟩ := step_pending he hj
      obtain ⟨-, hbare⟩ := step_pending (b := b.bare) (j := j) he hj
      obtain rfl : k = 0 := by
        unfold Entry.pending? at hj
        split at hj
        · rename_i sort label hcommand
          rw [hcommand] at hk
          exact Nat.lt_one_iff.1 hk
        · simp at hj
      rw [Nat.add_zero] at hstep ⊢
      rw [hbare, ← hstep, hprogram, h e he j hj hplace]
      rfl

/-- **A body's program is its program of placeholders, with the jumps of the
unit put in their places.** -/
theorem Inside.program_eq (h : u.Inside b) (hu : ∀ x, u.Within x → x.block.Distinct) :
    b.bare.program.resolve u.site.labels u.pending = b.program := by
  have hsize : b.bare.program.steps.size = b.program.steps.size := by
    rw [size_program, size_program]
    rfl
  -- a jump of the unit with a place in this program is one of the body
  have hown : ∀ j ∈ u.pending, ∀ i, j.place = ⟨b.key, i⟩ →
      b.program.steps[i]? = some ((j.step? u.site.labels).getD .idle) := by
    intro j hj i hplace
    obtain ⟨x, hx, e, he, hj⟩ := mem_pending_iff.1 hj
    obtain ⟨hplace', hstep⟩ := step_pending he hj
    rw [hplace, Place.mk.injEq] at hplace'
    obtain ⟨hkey, rfl⟩ := hplace'
    obtain rfl := eq_of_key_eq hu h.within hx.within hkey
    rwa [h.labels_eq] at hstep
  have hsteps : (b.bare.program.resolve u.site.labels u.pending).steps = b.program.steps := by
    refine Array.ext_getElem? fun i => ?_
    rcases Nat.lt_or_ge i b.bare.program.steps.size with hi | hi
    · rcases Program.getElem?_resolve u.site.labels u.pending hi with
        ⟨heq, hnone⟩ | ⟨j, hj, hplace, step, hstep, heq⟩
      · rw [heq]
        refine getElem?_program_bare fun e he j hj hplace => ?_
        rw [h.labels_eq]
        exact hnone j (mem_pending_iff.2 ⟨b, h, e, he, hj⟩) hplace
      · rw [heq, hown j hj i hplace, hstep]
        rfl
    · rw [Array.getElem?_eq_none (by rwa [Program.size_resolve]),
        Array.getElem?_eq_none (by rwa [← hsize])]
  calc b.bare.program.resolve u.site.labels u.pending
      = ⟨(b.bare.program.resolve u.site.labels u.pending).key,
          (b.bare.program.resolve u.site.labels u.pending).steps⟩ := rfl
    _ = b.program := by rw [Program.key_resolve, hsteps]; rfl

/-- A unit of its own that a body of the unit holds has no place of a jump of
the unit. -/
theorem Inside.resolve_unit (h : u.Inside b) {e : Entry} (he : e ∈ b.entries)
    (hunit : e.command.isIndependent) {c : Body} (hc : c ∈ e.children b.site) {p : Program}
    (hp : p ∈ c.programs) : p.resolve u.site.labels u.pending = p := by
  obtain ⟨position, index, command⟩ := e
  cases command with
  | independent body =>
    obtain rfl := List.mem_singleton.1 hc
    refine Program.resolve_of_ne fun j hj heq => ?_
    obtain ⟨x, hx, e', he', hj⟩ := mem_pending_iff.1 hj
    obtain ⟨hplace, -⟩ := step_pending he' hj
    obtain ⟨y, hy, rfl⟩ := mem_programs_iff.1 hp
    -- the place of the jump is in fewer units than the program
    have hle : b.key.units + 1 ≤ y.key.units := hy.units_le
    have hkey : y.key = x.key := by rw [← program_key, heq, hplace]
    rw [hkey, hx.units_eq, h.units_eq] at hle
    exact Nat.not_succ_le_self _ hle
  | _ => simp [Command.isIndependent] at hunit

/-- **The programs of a unit are those laid out with placeholders, with the
jumps of the unit put in their places.** -/
theorem programs_eq_resolve (hu : ∀ x, u.Within x → x.block.Distinct) :
    u.programs = resolve u.site.labels u.pending u.bare.programs := by
  suffices h : ∀ b, u.Inside b →
      b.programs = b.bare.programs.map (Program.resolve u.site.labels u.pending) by
    rw [resolve_eq_map]
    exact h u (.refl u)
  intro b
  induction b using induction_children with
  | h b ih =>
    intro hb
    have hchildren : b.bare.children = b.entries.flatMap (Entry.children b.site.bare) :=
      Block.children_eq b.bare.site 0 b.block
    rw [programs_eq, programs_eq b.bare, List.map_cons, hb.program_eq hu, hchildren, children,
      Block.children_eq _ 0]
    refine congrArg _ ?_
    rw [List.map_flatMap, List.flatMap_assoc, List.flatMap_assoc]
    refine List.flatMap_congr fun e he => ?_
    rw [Entry.children_bare]
    split
    -- another unit, which no jump of this one stands in
    · rename_i hunit
      refine List.flatMap_congr fun c hc => ?_
      rw [List.map_congr_left fun p hp => hb.resolve_unit he hunit hc hp, List.map_id']
    · rename_i hunit
      rw [List.flatMap_map]
      refine List.flatMap_congr fun c hc => ?_
      have hinner : c ∈ e.inner b.site := by rwa [Entry.inner, if_neg hunit]
      exact ih c (mem_children_iff.2 ⟨e, he, hc⟩) (hb.tail ⟨e, he, hinner⟩)

theorem Inside.bare (h : u.Inside b) : u.bare.Inside b.bare := by
  induction h with
  | refl => exact .refl _
  | tail _ hc ih =>
    obtain ⟨e, he, hc⟩ := hc
    refine ih.tail ⟨e, he, ?_⟩
    unfold Entry.inner at hc ⊢
    split at hc
    · simp at hc
    rename_i hunit
    rw [if_neg hunit]
    show _ ∈ e.children (Site.bare _)
    rw [Entry.children_bare, if_neg hunit]
    exact List.mem_map_of_mem hc

/-- The places of the jumps of a unit that have their labels. -/
def resolved (u : Body) : List Place :=
  (u.pending.filter fun j => (u.lastLabel? j.label).isSome).map (·.place)

/-- The body is that of a unit. -/
def IsUnit (u : Body) : Prop := ∃ key block, u = Block.unit key block

theorem IsUnit.get?_labels (h : u.IsUnit) (name : String) :
    u.site.labels.get? name = (u.lastLabel? name).map mark := by
  obtain ⟨key, block, rfl⟩ := h
  exact Body.get?_labels (Block.unit key block) name

theorem IsUnit.mem_resolved_iff (h : u.IsUnit) {place : Place} :
    place ∈ u.resolved ↔ ∃ j ∈ u.pending, j.place = place ∧ ∃ step,
      j.step? u.site.labels = some step := by
  have hstep : ∀ j : PendingJump, (u.lastLabel? j.label).isSome ↔
      ∃ step, j.step? u.site.labels = some step := by
    intro j
    rw [← Option.isSome_iff_exists, PendingJump.step?, Option.isSome_map, h.get?_labels,
      Option.isSome_map]
  simp only [resolved, List.mem_map, List.mem_filter, hstep]
  constructor
  · rintro ⟨j, ⟨hj, hstep⟩, hplace⟩
    exact ⟨j, hj, hplace, hstep⟩
  · rintro ⟨j, hj, hplace, hstep⟩
    exact ⟨j, ⟨hj, hstep⟩, hplace⟩

end Body

/-- The second program has the key and the steps of the first, but for the
steps at given places. -/
structure Program.Alike (places : List Place) (p p' : Program) : Prop where
  key_eq : p'.key = p.key
  size_eq : p'.steps.size = p.steps.size
  step_eq : ∀ i, ⟨p.key, i⟩ ∉ places → p'.steps[i]? = p.steps[i]?

/-- **Only the places of jumps that have their labels are changed.** -/
theorem Body.IsUnit.alike {u : Body} (h : u.IsUnit) (hu : ∀ x, u.Within x → x.block.Distinct) :
    List.Forall₂ (Program.Alike u.resolved) u.bare.programs u.programs := by
  rw [Body.programs_eq_resolve hu, resolve_eq_map, List.forall₂_map_right_iff,
    List.forall₂_same]
  intro p hp
  refine ⟨Program.key_resolve, Program.size_resolve, fun i hi => ?_⟩
  rcases Nat.lt_or_ge i p.steps.size with hlt | hge
  · rcases Program.getElem?_resolve u.site.labels u.pending hlt with
      ⟨heq, -⟩ | ⟨j, hj, hplace, step, hstep, -⟩
    · exact heq
    · exact absurd (h.mem_resolved_iff.2 ⟨j, hj, hplace, step, hstep⟩) hi
  · rw [Array.getElem?_eq_none hge, Array.getElem?_eq_none (by rwa [Program.size_resolve])]

/-! ## Landing -/

theorem Site.run_jump_none (engine : Engine) {s : Site} {sort : JumpSort} {name : String}
    (h : s.labels.get? name = none) (m : Machine) :
    (s.jump sort name).run engine m = (.flow .next, m) := by
  unfold Site.jump
  rw [h]
  rfl

theorem Site.run_jump (engine : Engine) {s : Site} {sort : JumpSort} {name : String}
    {target : Label} (h : s.labels.get? name = some target) (m : Machine) :
    ((s.jump sort name).run engine m).1 = .flow .next ∧
      ((s.jump sort name).run engine m).2.context.place = target.place := by
  unfold Site.jump
  rw [h]
  cases sort <;> exact ⟨rfl, rfl⟩

/-- The library holds the body, which is that of a unit. -/
def Library.HoldsUnit (l : Library) (u : Body) : Prop := l.Holds u ∧ u.IsUnit

namespace Library.Holds

variable {l : Library} {u b : Body}

/-- **Every body held stands in a unit.** -/
theorem exists_inside (h : l.Holds b) : ∃ u, l.HoldsUnit u ∧ u.Inside b := by
  refine h.induction (motive := fun b => ∃ u, l.HoldsUnit u ∧ u.Inside b) ?_ ?_
  · exact fun h => ⟨_, ⟨.event h, _, _, rfl⟩, .refl _⟩
  · intro b c hb ⟨u, hu, hinside⟩ hc
    obtain ⟨e, he, hc'⟩ := Body.mem_children_iff.1 hc
    by_cases hunit : e.command.isIndependent
    · have hchild : c.IsUnit := by
        obtain ⟨position, index, command⟩ := e
        cases command with
        | independent body => exact ⟨_, _, List.mem_singleton.1 hc'⟩
        | _ => simp [Command.isIndependent] at hunit
      exact ⟨c, ⟨hb.child hc, hchild⟩, .refl c⟩
    · exact ⟨u, hu, hinside.tail ⟨e, he, by rwa [Entry.inner, if_neg hunit]⟩⟩

end Library.Holds

/-- **Jumps land where their labels are.** Every body is in a unit, and in a
unit a jump goes to the last label of its name in the order of the document:
to the first step after the label, or to the step that the label's body ends
in. Without such a label it only goes on. Laid out with placeholders, the unit
has the same programs but for its jumps that have their labels. -/
theorem Library.Lawful.jumps_land {l : Library} (hl : l.Lawful) {engine : Engine}
    (he : engine.Serves l) :
    (∀ b, l.Holds b → ∃ u, l.HoldsUnit u ∧ u.Inside b) ∧
    ∀ u, l.HoldsUnit u →
      (∀ b e sort name, u.Inside b → e ∈ b.entries → e.command = .jump sort name →
        (b.bare.program ∈ u.bare.programs ∧ b.bare.program.steps[e.index]? = some .idle) ∧
        ∃ step, engine.step? ⟨b.key, e.index⟩ = some step ∧
          match u.lastLabel? name with
          | none => ∀ m, step.run engine m = (.flow .next, m)
          | some (b', e') =>
            (∀ m, (step.run engine m).1 = .flow .next ∧
              (step.run engine m).2.context.place = ⟨b'.key, e'.index⟩) ∧
            ∀ before after, b'.entries = before ++ e' :: after →
              engine.step? ⟨b'.key, e'.index⟩ =
                (after.flatMap (Entry.steps b'.site) ++ [b'.terminal]).head?) ∧
      List.Forall₂ (Program.Alike u.resolved) u.bare.programs u.programs := by
  refine ⟨fun b hb => hb.exists_inside, fun u ⟨hu, hunit⟩ =>
    ⟨fun b e sort name hb hmem hcommand => ?_, ?_⟩⟩
  case refine_2 =>
    obtain ⟨name, d, hd, hw⟩ := hu
    exact hunit.alike fun x hx => Library.Holds.distinct ⟨name, d, hd, hw.trans hx⟩
  have hstep : ∀ {b : Body}, e ∈ b.entries →
      b.program.steps[e.index]? = some (b.site.jump sort name) := by
    intro b hmem
    have hget := Body.step_entry hmem (k := 0) (by rw [hcommand]; exact Nat.one_pos)
    rw [Nat.add_zero, Entry.steps, hcommand] at hget
    exact hget
  refine ⟨⟨Body.mem_programs_iff.2 ⟨_, hb.bare.within, rfl⟩, hstep (b := b.bare) hmem⟩,
    b.site.jump sort name, ?_, ?_⟩
  · rw [he.step? hl (hu.inside hb), hstep hmem]
  have hlabels : b.site.labels.get? name = (u.lastLabel? name).map Body.mark := by
    rw [hb.labels_eq, hunit.get?_labels]
  split
  · rename_i hnone
    rw [hnone] at hlabels
    exact Site.run_jump_none engine hlabels
  · rename_i b' e' hlast
    rw [hlast] at hlabels
    obtain ⟨hb', -, hlabel⟩ := Body.command_of_lastLabel? hlast
    refine ⟨fun m => Site.run_jump engine hlabels m, fun before after hentries => ?_⟩
    rw [he.step? hl (hu.inside hb'), Body.step_after_label hentries hlabel]

/-- An event with a loop that jumps out of it, ahead of two labels of the name
and of a body of its own with a third. -/
def Library.landing : Library :=
  let target : Json := .object [("name", .string "over")]
  let body (is : List Instruction) : Json :=
    .object [("commands", .ofList Instruction.encode is)]
  { events := .ofList
      [("main", ⟨"main",
        [⟨"loop", body [⟨"jumpTo", .object [("label", .string "over")]⟩]⟩, ⟨"label", target⟩,
         ⟨"pauseEvent", .null⟩, ⟨"independent", body [⟨"label", target⟩]⟩, ⟨"label", target⟩,
         ⟨"stopEvent", .null⟩], .empty⟩)] }

/-- The jump leaves the loop for the step after the second label of its unit. -/
theorem Library.Lawful.jumps_land_landing :
    Library.landing.Lawful ∧ Engine.Serves (.ofLibrary .landing) .landing ∧
      ∃ step, (Engine.ofLibrary .landing).step? ⟨.child (.root "main") 0 .body, 0⟩ = some step ∧
        ∀ m, (step.run (.ofLibrary .landing) m).2.context.place = ⟨.root "main", 3⟩ := by
  have hl : Library.landing.Lawful := by decide +kernel
  have he := Engine.Serves.ofLibrary .landing
  obtain ⟨d, hd, hevent⟩ : ∃ d, Library.landing.get? "main" = some d ∧
      (d.body Library.landing.environment).document.any (fun x =>
        decide (x.1.key = .child (.root "main") 0 .body ∧ x.2.index = 0) &&
          match x.2.command with
          | .jump .plain name => name == "over"
          | _ => false) ∧
      ((d.body Library.landing.environment).lastLabel? "over").map (fun x => (x.1.key, x.2.index)) =
        some (.root "main", 3) :=
    ⟨_, rfl, by decide +kernel, by decide +kernel⟩
  obtain ⟨hjump, hlast⟩ := hevent
  obtain ⟨⟨b, e⟩, hmem, hjump⟩ := List.any_eq_true.1 hjump
  simp only [Bool.and_eq_true, decide_eq_true_eq] at hjump
  obtain ⟨⟨hkey, hindex⟩, hcommand⟩ := hjump
  split at hcommand
  case h_2 => simp at hcommand
  rename_i name hcommand'
  obtain rfl : name = "over" := by simpa using hcommand
  obtain ⟨hb, hentry⟩ := Body.mem_document_iff.1 hmem
  obtain ⟨-, step, hstep, hland⟩ := ((hl.jumps_land he).2 _ ⟨.event hd, _, _, rfl⟩).1 b e .plain
    "over" hb hentry hcommand'
  rw [hkey, hindex] at hstep
  refine ⟨hl, he, step, hstep, fun m => ?_⟩
  split at hland
  · rename_i hnone
    simp [hnone] at hlast
  · rename_i b' e' hsome
    rw [hsome] at hlast
    have hplace := (hland.1 m).2
    rw [hplace]
    simpa using hlast

end Cutscene
