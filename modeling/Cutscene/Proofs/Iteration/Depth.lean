import Cutscene.Proofs.Program.Child
import Cutscene.Proofs.Run.Turn
import Mathlib.Data.List.Perm.Subperm
/-!
# Iterations — the depth of a body

`Library.eaches` lists the bodies of iterations around what stands under a
key, as far as its unit reaches, and `Library.depth` counts them. Both read
the instructions only. `Library.Holds.depth_eq` says that the layout, which
counts while it descends, arrives at the same number, and
`Library.Holds.fits` that every step of a program leads where the depths
require: into an iteration one deeper, out of it one less deep, elsewhere to
the same depth.
-/

namespace Cutscene

/-! ## The iterations around a body -/

/-- Is the body under the key that of an iteration? -/
def Library.isEach (l : Library) : BodyKey → Bool
  | .child parent position .body =>
    match (l.block? parent).bind (·.command? position) with
    | some (.forEach ..) => true
    | _ => false
  | _ => false

/-- The keys of the iterations' bodies around what stands under a key and in
its unit, the innermost first. -/
def Library.eaches (l : Library) : BodyKey → List BodyKey
  | .root _ => []
  | .child parent position slot =>
    if slot = .independent then []
    else if l.isEach (.child parent position slot) then
      .child parent position slot :: l.eaches parent
    else l.eaches parent

/-- How many iterations there are around what stands under a key. -/
def Library.depth (l : Library) (key : BodyKey) : Nat := (l.eaches key).length

namespace Library

variable {l : Library}

theorem path_length_of_mem_eaches {key k : BodyKey} (h : k ∈ l.eaches key) :
    k.path.length ≤ key.path.length := by
  induction key with
  | root event => simp [eaches] at h
  | child parent position slot ih =>
    rw [eaches] at h
    simp only [BodyKey.path_child, List.length_cons]
    split at h
    · simp at h
    split at h
    · rcases List.mem_cons.1 h with rfl | h
      · simp
      · have := ih h
        omega
    · have := ih h
      omega

/-- No iteration is listed twice. -/
theorem nodup_eaches (key : BodyKey) : (l.eaches key).Nodup := by
  induction key with
  | root event => exact List.nodup_nil
  | child parent position slot ih =>
    rw [eaches]
    split
    · exact List.nodup_nil
    split
    · refine List.nodup_cons.2 ⟨fun h => ?_, ih⟩
      have := path_length_of_mem_eaches h
      simp only [BodyKey.path_child, List.length_cons] at this
      omega
    · exact ih

/-- What stands in all iterations of something else is no less deep. -/
theorem depth_le_of_subset {key key' : BodyKey} (h : l.eaches key ⊆ l.eaches key') :
    l.depth key ≤ l.depth key' :=
  (List.subperm_of_subset (nodup_eaches key) h).length_le

theorem depth_root (name : String) : l.depth (.root name) = 0 := rfl

theorem depth_independent (parent : BodyKey) (position : Nat) :
    l.depth (.child parent position .independent) = 0 := by
  simp [depth, eaches]

theorem depth_arm (parent : BodyKey) (position : Nat) {slot : Slot} (h : slot.isArm) :
    l.depth (.child parent position slot) = l.depth parent := by
  cases slot <;> simp [Slot.isArm] at h <;> simp [depth, eaches, isEach]

/-- A command's body is an iteration's if the command is an iteration. -/
theorem isEach_body {b : Body} (hl : l.Lawful) (hb : l.Holds b) {e : Entry} (he : e ∈ b.entries) :
    l.isEach (.child b.key e.position .body) =
      match e.command with
      | .forEach .. => true
      | _ => false := by
  rw [isEach, hb.block? hl, Option.bind_some, Block.command?_of_mem _ hb.distinct he]
  cases e.command <;> rfl

theorem depth_loop {b : Body} (hl : l.Lawful) (hb : l.Holds b) {e : Entry} (he : e ∈ b.entries)
    {tester : Tester} {body : Block} (h : e.command = .loop tester body) :
    l.depth (.child b.key e.position .body) = l.depth b.key := by
  have hnot : l.isEach (.child b.key e.position .body) = false := by
    rw [isEach_body hl hb he, h]
  simp [depth, eaches, hnot]

theorem depth_forEach {b : Body} (hl : l.Lawful) (hb : l.Holds b) {e : Entry} (he : e ∈ b.entries)
    {source : ListSource} {ref : VariableRef} {body : Block}
    (h : e.command = .forEach source ref body) :
    l.depth (.child b.key e.position .body) = l.depth b.key + 1 := by
  have hyes : l.isEach (.child b.key e.position .body) = true := by
    rw [isEach_body hl hb he, h]
  simp [depth, eaches, hyes]

end Library

/-! ## What the layout counts -/

/-- The innermost loop at a site fits the depths: its terminal is as deep as
the site's body, and its exit is less deep by one if it goes through a list. -/
def Site.LoopFits (d : BodyKey → Nat) (s : Site) : Prop :=
  ∀ around, s.loop = some around → d around.terminal.program = d s.key ∧
    d around.exit.program + (if around.each then 1 else 0) = d s.key

namespace Library.Holds

variable {l : Library} {b : Body}

/-- **The layout counts the iterations around a body.** -/
theorem depth_eq (h : l.Holds b) (hl : l.Lawful) : b.site.depth = l.depth b.key := by
  refine h.induction (motive := fun b => b.site.depth = l.depth b.key) ?_ ?_
  · exact fun h => rfl
  · intro b c hb ih hc
    obtain ⟨e, he, hc⟩ := Body.mem_children_iff.1 hc
    cases Entry.child_of_mem hc with
    | arm hslot hbody => exact ih.trans (depth_arm _ _ hslot).symm
    | loop h => exact ih.trans (depth_loop hl hb he h).symm
    | forEach h => exact (congrArg (· + 1) ih).trans (depth_forEach hl hb he h).symm
    | independent h => exact (depth_independent _ _).symm

theorem loopFits (h : l.Holds b) (hl : l.Lawful) : b.site.LoopFits l.depth := by
  refine h.induction (motive := fun b => b.site.LoopFits l.depth) ?_ ?_
  · exact fun h around haround => by simp [EventDef.body, Block.unit, Site.ofUnit] at haround
  · intro b c hb ih hc
    obtain ⟨e, he, hc⟩ := Body.mem_children_iff.1 hc
    cases Entry.child_of_mem hc with
    | arm hslot hbody =>
      intro around haround
      show _ = l.depth (.child b.site.key e.position _) ∧
        _ = l.depth (.child b.site.key e.position _)
      rw [depth_arm _ _ hslot]
      exact ih around haround
    | loop h =>
      rintro around haround
      obtain rfl := Option.some.inj haround
      exact ⟨rfl, (depth_loop hl hb he h).symm⟩
    | forEach h =>
      rintro around haround
      obtain rfl := Option.some.inj haround
      exact ⟨rfl, (depth_forEach hl hb he h).symm⟩
    | independent h =>
      exact fun around haround => by simp [Block.unit, Site.ofUnit] at haround

end Library.Holds

/-! ## Where steps lead -/

/-- A step of the body under a key leads where the depths require. -/
def Step.Fits (d : BodyKey → Nat) (key : BodyKey) : Step → Prop
  | .enterChoice bodies => ∀ body ∈ bodies, d body = d key
  | .enterEach _ _ body => d body = d key + 1
  | .nextItem _ exit => d exit.program + 1 = d key
  | .leaveLoop each exit => d exit.program + (if each then 1 else 0) = d key
  | .jump target drop => d target.program ≤ d key ∧ drop = d key - d target.program
  | .saveJump _ => False
  | .spawn body => d body = 0
  | .leave => d key = 0
  | step => ∀ place, step.Leads place → d place.program = d key

/-- The command of a body is no jump that keeps its origin; and if it is a jump
to a label, every iteration around the label is around the body. -/
def Command.JumpsInward (l : Library) (b : Body) : Command → Prop
  | .jump .saved _ => False
  | .jump .plain name => ∀ label ∈ b.site.labels.get? name,
      l.eaches label.place.program ⊆ l.eaches b.key
  | _ => True

instance (l : Library) (b : Body) : (c : Command) → Decidable (c.JumpsInward l b)
  | .jump .saved _ => inferInstanceAs (Decidable False)
  | .jump .plain name => inferInstanceAs (Decidable (∀ label ∈ b.site.labels.get? name,
      l.eaches label.place.program ⊆ l.eaches b.key))
  | .action .. | .custom .. | .ifElse .. | .switch .. | .choices .. | .loop .. | .forEach ..
  | .breakLoop | .continueLoop | .label .. | .returnJump | .independent .. | .call ..
  | .callAsync .. => inferInstanceAs (Decidable True)

/-- No jump of the library keeps its origin, and an iteration around a label is
around every jump to it. -/
def Library.JumpsInward (l : Library) : Prop :=
  ∀ b, l.Holds b → ∀ e ∈ b.entries, e.command.JumpsInward l b

instance (l : Library) : Decidable l.JumpsInward :=
  decidable_of_iff (∀ b ∈ l.bodies, ∀ e ∈ b.entries, e.command.JumpsInward l b)
    (forall_congr' fun _ => by rw [Library.holds_iff])

theorem Arms.key_of_mem_keyed {sort : ArmSort} {key : BodyKey} {position : Nat} {arms : Arms sort}
    {arm : Guard sort × BodyKey} (h : arm ∈ arms.keyed key position) :
    ∃ i, arm.2 = .child key position (sort.slot i) := by
  obtain ⟨⟨guard, i⟩, -, rfl⟩ := List.mem_map.1 h
  exact ⟨i, rfl⟩

namespace Library

variable {l : Library} {b : Body}

theorem depth_keyed {sort : ArmSort} {key : BodyKey} {position : Nat} {arms : Arms sort}
    {arm : Guard sort × BodyKey} (h : arm ∈ arms.keyed key position) :
    l.depth arm.2 = l.depth key := by
  obtain ⟨i, hkey⟩ := Arms.key_of_mem_keyed h
  rw [hkey, depth_arm _ _ (by cases sort <;> rfl)]

theorem depth_optional {key : BodyKey} {position : Nat} {slot : Slot} (hslot : slot.isArm)
    {o : OptionalBlock} {body : BodyKey} (h : o.key? (.child key position slot) = some body) :
    l.depth body = l.depth key := by
  cases o with
  | absent => simp [OptionalBlock.key?] at h
  | present block =>
    obtain rfl := Option.some.inj h
    exact depth_arm _ _ hslot

/-- A body that a command may choose is as deep as the command: it is one of its
guarded ones, or the other one. -/
theorem depth_chosen {sort : ArmSort} {key : BodyKey} {position : Nat} {arms : Arms sort}
    {slot : Slot} (hslot : slot.isArm) {o : OptionalBlock} {body : BodyKey}
    (h : body ∈ (arms.keyed key position).map (·.2) ∨
      o.key? (.child key position slot) = some body) : l.depth body = l.depth key := by
  rcases h with h | h
  · obtain ⟨arm, harm, rfl⟩ := List.mem_map.1 h
    exact depth_keyed harm
  · exact depth_optional hslot h

/-- The step that a body's program ends in fits. -/
theorem Holds.terminal_fits (h : l.Holds b) (hl : l.Lawful) :
    b.terminal.Fits l.depth b.key := by
  refine h.induction (motive := fun b => b.terminal.Fits l.depth b.key) ?_ ?_
  · exact fun h => depth_root _
  · intro b c hb ih hc
    obtain ⟨e, he, hc⟩ := Body.mem_children_iff.1 hc
    cases Entry.child_of_mem hc with
    | arm hslot hbody =>
      rintro place rfl
      exact (depth_arm _ _ hslot).symm
    | loop h =>
      rintro place rfl
      exact (depth_loop hl hb he h).symm
    | forEach h => exact (depth_forEach hl hb he h).symm
    | independent h => exact depth_independent _ _

/-- The steps of a command fit. -/
theorem Holds.entry_fits (h : l.Holds b) (hl : l.Lawful) {e : Entry} (he : e ∈ b.entries)
    (hinward : e.command.JumpsInward l b) {step : Step} (hstep : step ∈ e.steps b.site) :
    step.Fits l.depth b.key := by
  have hloop := h.loopFits hl
  cases hcommand : e.command <;> simp only [Entry.steps, hcommand, Command.steps] at hstep
  case ifElse branches otherwise =>
    rw [List.mem_singleton.1 hstep]
    rintro place ⟨body, hbody, rfl⟩
    rw [List.map_map] at hbody
    exact depth_chosen rfl hbody
  case switch subject cases default =>
    rw [List.mem_singleton.1 hstep]
    rintro place ⟨body, hbody, rfl⟩
    rw [List.map_map] at hbody
    exact depth_chosen rfl hbody
  case choices options =>
    simp only [List.mem_cons, List.not_mem_nil, or_false] at hstep
    rcases hstep with rfl | rfl
    · exact fun place hplace => hplace.elim
    · intro body hbody
      obtain ⟨arm, harm, rfl⟩ := List.mem_map.1 hbody
      exact depth_keyed harm
  case loop tester body =>
    rw [List.mem_singleton.1 hstep]
    rintro place rfl
    exact depth_loop hl h he hcommand
  case forEach source ref body =>
    rw [List.mem_singleton.1 hstep]
    exact depth_forEach hl h he hcommand
  case breakLoop =>
    cases hsite : b.site.loop with
    | none =>
      rw [hsite] at hstep
      rw [List.mem_singleton.1 hstep]
      exact fun place hplace => hplace.elim
    | some around =>
      rw [hsite] at hstep
      rw [List.mem_singleton.1 hstep]
      exact (hloop around hsite).2
  case continueLoop =>
    cases hsite : b.site.loop with
    | none =>
      rw [hsite] at hstep
      rw [List.mem_singleton.1 hstep]
      exact fun place hplace => hplace.elim
    | some around =>
      rw [hsite] at hstep
      rw [List.mem_singleton.1 hstep]
      rintro place rfl
      exact (hloop around hsite).1
  case label name => simp at hstep
  case jump sort name =>
    rw [List.mem_singleton.1 hstep]
    unfold Site.jump
    rw [hcommand] at hinward
    cases hlabel : b.site.labels.get? name with
    | none => exact fun place hplace => hplace.elim
    | some label =>
      cases sort with
      | saved => exact hinward.elim
      | plain =>
        obtain ⟨x, hx, -, e', -, -, rfl⟩ := h.exists_label hlabel
        have hle := depth_le_of_subset (hinward _ hlabel)
        exact ⟨hle, by simp only; rw [h.depth_eq hl, hx.depth_eq hl]⟩
  case independent body =>
    rw [List.mem_singleton.1 hstep]
    exact depth_independent _ _
  -- the other commands make one step, which sends control nowhere
  all_goals
    rw [List.mem_singleton.1 hstep]
    exact fun place hplace => hplace.elim

/-- **Every step of a program leads where the depths require.** -/
theorem Holds.fits (h : l.Holds b) (hl : l.Lawful) (hj : l.JumpsInward) {i : Nat} {step : Step}
    (hstep : b.program.steps[i]? = some step) : step.Fits l.depth b.key := by
  rcases Body.step_cases hstep with ⟨-, rfl⟩ | ⟨e, he, k, -, -, hk⟩
  · exact h.terminal_fits hl
  · exact h.entry_fits hl he (hj b h e he) (List.mem_of_getElem? hk)

end Library

end Cutscene
