import Cutscene.Proofs.Program.Child
/-!
# Programs — the commands of a unit

Labels and jumps belong together within a unit: an event, or a body that is
spawned on its own. `Body.document` lists the commands of a unit in the order
of the instructions, each with the body it stands in, and leaves out what
stands in other units (`Body.mem_document_iff`).

The labels of a unit are those of its document (`Body.labels_eq`), so what is
found under a name is the last label of that name
(`Body.get?_labels`), wherever in the unit it stands.
-/

namespace Cutscene

/-- Does the command start a body as a unit of its own? -/
def Command.isIndependent : Command → Bool
  | .independent _ => true
  | _ => false

/-- The bodies of the unit that the command holds. -/
def Entry.inner (s : Site) (e : Entry) : List Body :=
  if e.command.isIndependent then [] else e.children s

namespace Body

theorem mem_children_of_inner {a b : Body} {e : Entry} (he : e ∈ a.entries)
    (hb : b ∈ e.inner a.site) : b ∈ a.children := by
  unfold Entry.inner at hb
  split at hb
  · simp at hb
  · exact mem_children_iff.2 ⟨e, he, hb⟩

/-- The second body is the first or nested in it, within one unit. -/
def Inside : Body → Body → Prop :=
  Relation.ReflTransGen fun outer inner => ∃ e ∈ outer.entries, inner ∈ e.inner outer.site

theorem Inside.refl (b : Body) : Inside b b := Relation.ReflTransGen.refl

theorem Inside.within {a b : Body} (h : a.Inside b) : a.Within b := by
  induction h with
  | refl => exact .refl a
  | tail _ hc ih =>
    obtain ⟨e, he, hc⟩ := hc
    exact ih.step (mem_children_of_inner he hc)

/-- The commands of a body and of all bodies nested in it within its unit, in
the order of the instructions, each with the body that it stands in. -/
def document (a : Body) : List (Body × Entry) :=
  a.entries.attach.flatMap fun ⟨e, _he⟩ =>
    (a, e) :: (e.inner a.site).attach.flatMap fun ⟨b, _hb⟩ => b.document
termination_by sizeOf a.block
decreasing_by exact sizeOf_children_lt (mem_children_of_inner _he _hb)

theorem document_eq (a : Body) :
    a.document = a.entries.flatMap fun e => (a, e) :: (e.inner a.site).flatMap document := by
  rw [document]
  simp only [List.flatMap_subtype, List.unattach_attach]

/-- The document has the commands of the bodies inside. -/
theorem mem_document_iff {a b : Body} {e : Entry} :
    (b, e) ∈ a.document ↔ a.Inside b ∧ e ∈ b.entries := by
  induction a using induction_children with
  | h a ih =>
    rw [document_eq, List.mem_flatMap]
    constructor
    · rintro ⟨e', he', hmem⟩
      rcases List.mem_cons.1 hmem with heq | hmem
      · obtain ⟨rfl, rfl⟩ := Prod.mk.inj heq
        exact ⟨.refl b, he'⟩
      · obtain ⟨c, hc, hmem⟩ := List.mem_flatMap.1 hmem
        obtain ⟨hinside, he⟩ := (ih c (mem_children_of_inner he' hc)).1 hmem
        exact ⟨.head ⟨e', he', hc⟩ hinside, he⟩
    · rintro ⟨hinside, he⟩
      rcases Relation.ReflTransGen.cases_head hinside with rfl | ⟨c, ⟨e', he', hc⟩, hinside⟩
      · exact ⟨e, he, List.mem_cons_self⟩
      · have hmem := (ih c (mem_children_of_inner he' hc)).2 ⟨hinside, he⟩
        exact ⟨e', he', List.mem_cons_of_mem _ (List.mem_flatMap.2 ⟨c, hc, hmem⟩)⟩

end Body

/-- A library holds what is inside a body that it holds. -/
theorem Library.Holds.inside {l : Library} {a b : Body} (h : l.Holds a) (hb : a.Inside b) :
    l.Holds b := by
  obtain ⟨name, d, hd, ha⟩ := h
  exact ⟨name, d, hd, ha.trans hb.within⟩

/-! ## Labels -/

/-- The label that the command is. -/
def Entry.label? (s : Site) (e : Entry) : Option (String × Label) :=
  match e.command with
  | .label name => some (name, ⟨⟨s.key, e.index⟩, s.depth⟩)
  | _ => none

theorem Arms.labels_eq {sort : ArmSort} (s : Site) (position : Nat) (resume : Place) :
    (arms : Arms sort) → (index : Nat) → arms.labels s.key s.depth position index =
      (arms.children s position index resume).flatMap Body.labels
  | .nil, _ => rfl
  | .cons _ _ rest, index => by
    rw [Arms.labels, Arms.children, List.flatMap_cons,
      Arms.labels_eq s position resume rest (index + 1)]
    rfl

theorem OptionalBlock.labels_eq (s : Site) (resume : Place) (o : OptionalBlock) :
    o.labels s.key s.depth = (o.children s resume).flatMap Body.labels := by
  cases o with
  | absent => rfl
  | present body => exact (List.append_nil _).symm

/-- The labels in a command are its own and those of the bodies that it holds. -/
theorem Entry.labels_eq (s : Site) (e : Entry) :
    e.command.labels s.key s.depth e.position e.index =
      (e.label? s).toList ++ (e.inner s).flatMap Body.labels := by
  obtain ⟨position, index, command⟩ := e
  cases command with
  | ifElse branches otherwise =>
    show _ = (branches.children s position 0 ⟨s.key, index + 1⟩ ++
      otherwise.children (s.child position .otherwise) ⟨s.key, index + 1⟩).flatMap Body.labels
    rw [List.flatMap_append, ← Arms.labels_eq, ← OptionalBlock.labels_eq]
    rfl
  | switch subject cases default =>
    show _ = (cases.children s position 0 ⟨s.key, index + 1⟩ ++
      default.children (s.child position .default) ⟨s.key, index + 1⟩).flatMap Body.labels
    rw [List.flatMap_append, ← Arms.labels_eq, ← OptionalBlock.labels_eq]
    rfl
  | choices options => exact Arms.labels_eq s position ⟨s.key, index + 2⟩ options 0
  | loop tester body => exact (List.append_nil _).symm
  | forEach source ref body => exact (List.append_nil _).symm
  | _ => rfl

theorem Block.labels_eq (s : Site) : (b : Block) → (index : Nat) →
    b.labels s.key s.depth index = (b.entries index).flatMap fun e =>
      e.command.labels s.key s.depth e.position e.index
  | .nil, _ => rfl
  | .cons position command rest, index => by
    rw [Block.labels, Block.labels_eq s rest (index + command.width)]
    rfl

namespace Body

/-- **The labels of a unit are those of its document.** -/
theorem labels_eq (a : Body) : a.labels = a.document.filterMap fun x => x.2.label? x.1.site := by
  induction a using induction_children with
  | h a ih =>
    show a.block.labels a.site.key a.site.depth 0 = _
    rw [document_eq, Block.labels_eq, List.filterMap_flatMap]
    refine List.flatMap_congr fun e he => ?_
    have hinner : (e.inner a.site).flatMap labels = ((e.inner a.site).flatMap document).filterMap
        fun x => x.2.label? x.1.site := by
      rw [List.filterMap_flatMap]
      exact List.flatMap_congr fun b hb => ih b (mem_children_of_inner he hb)
    rw [Entry.labels_eq, List.filterMap_cons, hinner]
    cases e.label? a.site <;> rfl

/-- The last label of a name in the unit, with the body that it stands in. -/
def lastLabel? (a : Body) (name : String) : Option (Body × Entry) :=
  (a.document.filter fun x => (x.2.label? x.1.site).any (·.1 = name)).getLast?

/-- Where the label stands, and in how many iterations. -/
def mark (x : Body × Entry) : Label := ⟨⟨x.1.key, x.2.index⟩, x.1.site.depth⟩

theorem command_of_lastLabel? {a b : Body} {name : String} {e : Entry}
    (h : a.lastLabel? name = some (b, e)) :
    a.Inside b ∧ e ∈ b.entries ∧ e.command = .label name := by
  obtain ⟨hmem, hname⟩ := List.mem_filter.1 (List.mem_of_getLast? h)
  obtain ⟨hinside, he⟩ := mem_document_iff.1 hmem
  refine ⟨hinside, he, ?_⟩
  unfold Entry.label? at hname
  split at hname
  · rename_i name' hcommand
    rw [hcommand]
    simpa using hname
  · simp at hname

/-- **What is found under a name is the last label of the name** in the unit. -/
theorem get?_labels (a : Body) (name : String) :
    (Table.ofList a.labels).get? name = (a.lastLabel? name).map mark := by
  have hmark : ∀ l : List (Body × Entry),
      (l.filterMap fun x => x.2.label? x.1.site).filter (·.1 = name) =
        (l.filter fun x => (x.2.label? x.1.site).any (·.1 = name)).map fun x => (name, mark x) := by
    intro l
    induction l with
    | nil => rfl
    | cons x l ih =>
      cases hlabel : x.2.label? x.1.site with
      | none => simp [hlabel, ih]
      | some label =>
        have hplace : label.2 = mark x := by
          unfold Entry.label? at hlabel
          split at hlabel
          · exact (Option.some.inj hlabel) ▸ rfl
          · simp at hlabel
        by_cases hname : label.1 = name
        · subst hname
          simp [hlabel, ih, ← hplace]
        · simp [hlabel, hname, ih]
  rw [Table.get?_ofList, labels_eq, hmark, List.getLast?_map, Option.map_map]
  rfl

/-- The labels at a site are those of its unit. -/
theorem Inside.labels_eq {u b : Body} (h : u.Inside b) : b.site.labels = u.site.labels := by
  induction h with
  | refl => rfl
  | tail _ hc ih =>
    obtain ⟨e, he, hc⟩ := hc
    unfold Entry.inner at hc
    split at hc
    · simp at hc
    rename_i hunit
    rw [← ih]
    cases Entry.child_of_mem hc with
    | independent h => exact absurd (by rw [h]; rfl) hunit
    | _ => rfl

end Body

end Cutscene
