import Cutscene.Proofs.Program.Held
/-!
# Programs — keys along the instructions

The keys of an event's programs can be told from its instructions alone
(`EventDef.keys`): every instruction holds lists of instructions in slots
(`Instruction.lists`), and each such list has a program under the position
and the slot. What an instruction does otherwise has no part in it, and
neither has the language of the scripts (`Program.map_branches?`).

So an instruction that is switched off, or replaced by one that makes no
command (`Silenced`), takes the keys below it away and leaves all others as
they are (`Silenced.keysFrom_eq`). In a library, the text of a key finds the
one program under it (`Library.Lawful.keys_identify`).
-/

namespace Cutscene

open Program

theorem flatMap_attach_zipIdx {α β : Type} (f : α → Nat → List β) (l : List α) (first : Nat) :
    ((l.attach.zipIdx first).flatMap fun x => f x.1.1 x.2) =
      (l.zipIdx first).flatMap fun x => f x.1 x.2 := by
  have hmap : (l.attach.zipIdx first).map (Prod.map Subtype.val id) = l.zipIdx first := by
    rw [← List.zipIdx_map, List.attach_map_subtype_val]
  rw [← hmap, List.flatMap_map]
  rfl

theorem map_mapM {α β γ : Type} (f : α → Option β) (p : β → γ) (l : List α) :
    (l.mapM f).map (List.map p) = l.mapM fun a => (f a).map p := by
  induction l with
  | nil => rfl
  | cons a l ih =>
    rw [List.mapM_cons, List.mapM_cons, ← ih]
    cases f a with
    | none => rfl
    | some b => cases l.mapM f <;> rfl

/-! ## Whatever the language of the scripts -/

section

variable (scripts scripts' : Script.Language)

/-- A condition is read in every language or in none. -/
theorem Condition.map_decode? (j : Json) :
    (Condition.decode? scripts j).map (fun _ => ()) =
      (Condition.decode? scripts' j).map fun _ => () := by
  unfold Condition.decode?
  cases j.variant? "type" [] with
  | none => rfl
  | some tagged =>
    obtain ⟨tag, content⟩ := tagged
    simp only [Option.bind_eq_bind, Option.bind_some]
    split
    case h_7 =>
      cases content.plainRecord? ["code"] with
      | none => rfl
      | some r =>
        simp only [Option.bind_some]
        cases r.required "code" Json.string? <;> rfl
    all_goals simp only

theorem Tester.map_ofRecord? (r : Json.Record) :
    (Tester.ofRecord? scripts r).map (fun _ => ()) =
      (Tester.ofRecord? scripts' r).map fun _ => () := by
  have hlist : ∀ j, (Json.list? (Condition.decode? scripts) j).map (fun _ => ()) =
      (Json.list? (Condition.decode? scripts') j).map fun _ => () := by
    intro j
    cases j with
    | array items =>
      have hitems := congrArg (fun f => items.mapM f)
        (funext fun j => Condition.map_decode? scripts scripts' j)
      simp only [← map_mapM] at hitems
      have hboth := congrArg (Option.map fun _ => ()) hitems
      rwa [Option.map_map, Option.map_map] at hboth
    | _ => rfl
  unfold Tester.ofRecord?
  cases r.orElse "mode" (Json.oneOf? ConditionMode.names) .all with
  | none => rfl
  | some mode =>
    simp only [Option.bind_eq_bind, Option.bind_some, Json.Record.orElse]
    cases r.get? "conditions" with
    | none => rfl
    | some j =>
      have hj := hlist j
      cases hread : Json.list? (Condition.decode? scripts) j <;>
        cases hread' : Json.list? (Condition.decode? scripts') j <;> simp_all

namespace Program

/-- Of what is read in pairs, only what is kept of the first parts matters. -/
theorem map_bind_pair {α β γ δ : Type} {p : α → β} {a a' : Option α} (h : a.map p = a'.map p)
    (o : Option γ) (q : γ → δ) :
    (a.bind fun x => o.bind fun y => some (x, q y)).map (fun read => (p read.1, read.2)) =
      (a'.bind fun x => o.bind fun y => some (x, q y)).map fun read => (p read.1, read.2) := by
  have hread : ∀ a : Option α,
      (a.bind fun x => o.bind fun y => some (x, q y)).map (fun read => (p read.1, read.2)) =
        (a.map p).bind fun b => o.map fun y => (b, q y) := by
    intro a
    cases a <;> cases o <;> rfl
  rw [hread, hread, h]

theorem map_snd_bind_pair {α γ δ : Type} {a a' : Option α}
    (h : a.map (fun _ => ()) = a'.map fun _ => ()) (o : Option γ) (q : γ → δ) :
    (a.bind fun x => o.bind fun y => some (x, q y)).map Prod.snd =
      (a'.bind fun x => o.bind fun y => some (x, q y)).map Prod.snd := by
  have hpair := congrArg (Option.map Prod.snd) (map_bind_pair h o q)
  rwa [Option.map_map, Option.map_map] at hpair

theorem Fields.map_arms? {sort : ArmSort} {whole : Json} {f : Fields whole} {name : String}
    {shape : List String} {guard? guard?' : Json.Record → Option (Guard sort)}
    (h : ∀ r, (guard? r).map (fun _ => ()) = (guard?' r).map fun _ => ()) :
    (f.armsOrNone? name shape guard?).map (List.map Prod.snd) =
      (f.armsOrNone? name shape guard?').map (List.map Prod.snd) := by
  unfold armsOrNone?
  split
  case isFalse => rfl
  unfold arms?
  cases f.items? name with
  | none => rfl
  | some items =>
    simp only [Option.bind_eq_bind, Option.bind_some, map_mapM]
    refine congrArg (fun f => items.mapM f) (funext fun part => ?_)
    cases Fields.ofJson? (shape.map .plain) part.1 with
    | none => rfl
    | some g => exact map_snd_bind_pair (h g.record) g.body? (Nested.widen part)

/-- **The bodies of a conditional** are the same in every language. -/
theorem map_branches? (params : Json) :
    (branches? scripts params).map (fun read => (read.1.map Prod.snd, read.2)) =
      (branches? scripts' params).map fun read => (read.1.map Prod.snd, read.2) := by
  unfold branches?
  cases Fields.ofParams? [.plain "branches", ⟨"default", ["else"]⟩] params with
  | none => simp only [Option.bind_eq_bind, Option.bind_none, Option.map_none]
  | some f =>
    refine map_bind_pair (Fields.map_arms? fun r => ?_) f.otherwise? id
    rw [Option.map_map, Option.map_map]
    exact Tester.map_ofRecord? scripts scripts' r

theorem map_loop? (params : Json) :
    (loop? scripts params).map Prod.snd = (loop? scripts' params).map Prod.snd := by
  unfold loop?
  cases Fields.ofParams? [.plain "mode", .plain "conditions", .plain "commands"] params with
  | none => rfl
  | some f =>
    exact map_snd_bind_pair (Tester.map_ofRecord? scripts scripts' f.record) f.body? id

end Program

end

namespace Instruction

/-- Guarded lists, in slots by their order. -/
def armLists (sort : ArmSort) {whole : Json} (lists : List (Nested whole)) :
    List (Slot × Nested whole) :=
  lists.zipIdx.map fun (is, index) => (sort.slot index, is)

/-- A list that may be absent, in a slot. -/
def optionalList {whole : Json} (slot : Slot) (is : Option (Nested whole)) :
    List (Slot × Nested whole) :=
  (is.map fun is => (slot, is)).toList

/-- The lists of instructions in the parameters, with their slots. They are the
same in a language without any script. -/
def nested (i : Instruction) : List (Slot × Nested i.params) :=
  if i.isDisabled || isComment i.id then []
  else
    match i.id with
    | "if" => ((branches? (fun _ => none) i.params).map fun (list, otherwise) =>
        armLists .branch (list.map Prod.snd) ++ optionalList .otherwise otherwise).getD []
    | "switch" => ((cases? i.params).map fun (_, list, otherwise) =>
        armLists .case (list.map Prod.snd) ++ optionalList .default otherwise).getD []
    | "showChoices" => ((options? i.params).map fun list =>
        armLists .choice (list.map Prod.snd)).getD []
    | "loop" => ((loop? (fun _ => none) i.params).map fun (_, is) => [(.body, is)]).getD []
    | "forEach" => ((forEach? i.params).map fun (_, _, is) => [(.body, is)]).getD []
    | "independent" => ((body? i.params).map fun is => [(.independent, is)]).getD []
    | _ => []

/-- The lists of instructions that the instruction holds. -/
def lists (i : Instruction) : List (Slot × List Instruction) :=
  i.nested.map fun (slot, is) => (slot, is.1)

/-- The keys of the programs of the lists in an instruction at a position. -/
def keys (key : BodyKey) (position : Nat) (i : Instruction) : List BodyKey :=
  i.nested.flatMap fun (slot, is) =>
    .child key position slot ::
      is.1.attach.zipIdx.flatMap fun (⟨j, _h⟩, position') =>
        j.keys (.child key position slot) position'
termination_by sizeOf i.params
decreasing_by exact is.2 j _h

/-- The keys of the programs of the lists in instructions, whose positions
count from a first one. -/
def keysFrom (key : BodyKey) (first : Nat) (is : List Instruction) : List BodyKey :=
  (is.zipIdx first).flatMap fun (i, position) => i.keys key position

/-- The keys of the programs of lists in slots, at a position. -/
def keysUnder (key : BodyKey) (position : Nat) (lists : List (Slot × List Instruction)) :
    List BodyKey :=
  lists.flatMap fun x => .child key position x.1 :: keysFrom (.child key position x.1) 0 x.2

theorem keysUnder_append (key : BodyKey) (position : Nat) (a b : List (Slot × List Instruction)) :
    keysUnder key position (a ++ b) = keysUnder key position a ++ keysUnder key position b :=
  List.flatMap_append

theorem keys_eq (key : BodyKey) (position : Nat) (i : Instruction) :
    i.keys key position = keysUnder key position i.lists := by
  rw [keys, keysUnder, lists, List.flatMap_map]
  refine List.flatMap_congr fun x _ => ?_
  exact congrArg _ (flatMap_attach_zipIdx (fun j => j.keys (.child key position x.1)) x.2.1 0)

end Instruction

/-- The keys of the event's programs. -/
def EventDef.keys (d : EventDef) : List BodyKey :=
  .root d.name :: Instruction.keysFrom (.root d.name) 0 d.commands

/-! ## The programs' keys -/

section

variable {env : Environment}

theorem Arms.keys_programs {sort : ArmSort} {whole : Json} {block : Nested whole → Block}
    (hblock : ∀ (is : Nested whole) (s : Site),
      ((block is).programs s 0).map Program.key = Instruction.keysFrom s.key 0 is.1)
    (s : Site) (position : Nat) (resume : Place) :
    (list : List (Guard sort × Nested whole)) → (index : Nat) →
      ((Arms.ofList (list.map fun arm => (arm.1, block arm.2))).programs s position index
        resume).map Program.key =
        Instruction.keysUnder s.key position
          ((list.zipIdx index).map fun (arm, index) => (sort.slot index, arm.2.1))
  | [], _ => rfl
  | arm :: list, index => by
    have hrest := Arms.keys_programs hblock s position resume list (index + 1)
    rw [Arms.ofList] at hrest
    rw [List.map_cons, Arms.ofList, List.foldr_cons, Arms.programs, List.map_append, hrest]
    simp only [List.map_cons, hblock, List.zipIdx_cons, Instruction.keysUnder, List.flatMap_cons]
    rfl

theorem OptionalBlock.keys_programs {whole : Json} {block : Nested whole → Block}
    (hblock : ∀ (is : Nested whole) (s : Site),
      ((block is).programs s 0).map Program.key = Instruction.keysFrom s.key 0 is.1)
    (s : Site) (position : Nat) (slot : Slot) (resume : Place) (is : Option (Nested whole)) :
    ((OptionalBlock.ofOption (is.map block)).programs (s.child position slot) resume).map
        Program.key =
      Instruction.keysUnder s.key position
        ((Instruction.optionalList slot is).map fun x => (x.1, x.2.1)) := by
  cases is with
  | none => rfl
  | some is =>
    show _ :: ((block is).programs (s.child position slot) 0).map Program.key = _
    rw [hblock]
    simp [Instruction.keysUnder, Instruction.optionalList, Site.child, Block.program]

/-- A block that was read has the programs of its instructions' lists. -/
theorem Block.keys_programs {inLoop : Bool} {is : List Instruction}
    (h : ∀ i ∈ is, ∀ (s : Site) (position index : Nat),
      (((Command.ofInstruction? env inLoop i).map (·.programs s position index)).getD []).map
        Program.key = i.keys s.key position) (s : Site) (index : Nat) :
    ((Block.ofCommands (is.map (Command.ofInstruction? env inLoop))).programs s index).map
      Program.key = Instruction.keysFrom s.key 0 is := by
  rw [Block.ofCommands, Instruction.keysFrom, List.zipIdx_map]
  generalize 0 = first
  induction is generalizing first index with
  | nil => rfl
  | cons i is ih =>
    have hi := h i List.mem_cons_self s first index
    have hrest := fun index => ih (fun j hj => h j (List.mem_cons_of_mem _ hj)) index (first + 1)
    rw [List.zipIdx_cons, List.map_cons, List.foldr_cons, List.flatMap_cons]
    simp only [Prod.map_apply, id_eq]
    rw [← hi]
    cases hc : Command.ofInstruction? env inLoop i with
    | none => exact hrest index
    | some c =>
      show (Block.programs s index (.cons _ c _)).map Program.key = _
      rw [Block.programs, List.map_append, hrest]
      rfl

/-- **A command has the programs of its instruction's lists**, and an
instruction that makes no command has none. -/
theorem Command.keys_programs (inLoop : Bool) (i : Instruction) (s : Site) (position index : Nat) :
    (((Command.ofInstruction? env inLoop i).map (·.programs s position index)).getD []).map
      Program.key = i.keys s.key position := by
  have hblock : ∀ (inLoop : Bool) (is : Nested i.params) (s : Site),
      ((Block.ofCommands (is.1.attach.map fun j =>
        Command.ofInstruction? env inLoop j.1)).programs s 0).map Program.key =
        Instruction.keysFrom s.key 0 is.1 := by
    intro inLoop is s
    rw [List.attach_map_val (f := Command.ofInstruction? env inLoop)]
    exact Block.keys_programs (fun j hj => Command.keys_programs inLoop j) s 0
  rw [Instruction.keys_eq, Instruction.lists, Instruction.nested, Command.ofInstruction?]
  split
  · rfl
  have harms : ∀ {sort : ArmSort} (list : List (Guard sort × Nested i.params)) (resume : Place),
      ((Arms.ofList (list.map fun arm => (arm.1, Block.ofCommands (arm.2.1.attach.map fun j =>
        Command.ofInstruction? env inLoop j.1)))).programs s position 0 resume).map
          Program.key =
        Instruction.keysUnder s.key position
          ((Instruction.armLists sort (list.map Prod.snd)).map fun x => (x.1, x.2.1)) := by
    intro sort list resume
    rw [Instruction.armLists, List.zipIdx_map, List.map_map, List.map_map]
    exact Arms.keys_programs (hblock inLoop) s position resume list 0
  have hoptional := fun slot resume (is : Option (Nested i.params)) =>
    OptionalBlock.keys_programs (hblock inLoop) s position slot resume is
  -- one case for each sort of instruction that holds lists, and then all others
  simp only
  split
  case h_1 hid =>
    simp only [hid]
    have hbodies := map_branches? env.scripts (fun _ => none) i.params
    have hlists := congrArg (Option.map fun (bodies : List (Nested i.params) × _) =>
      Instruction.armLists .branch bodies.1 ++ Instruction.optionalList .otherwise bodies.2) hbodies
    simp only [Option.map_map, Function.comp_def] at hlists
    rw [← hlists]
    cases branches? env.scripts i.params with
    | none => rfl
    | some read =>
      simp only [Option.map_some, Option.getD_some, Command.programs, List.map_append,
        Instruction.keysUnder_append]
      rw [harms, hoptional]
  case h_2 hid =>
    simp only [hid]
    cases cases? i.params with
    | none => rfl
    | some read =>
      simp only [Option.map_some, Option.getD_some, Command.programs, List.map_append,
        Instruction.keysUnder_append]
      rw [harms, hoptional]
  case h_3 hid =>
    simp only [hid]
    cases options? i.params with
    | none => rfl
    | some read => exact harms _ _
  case h_4 hid =>
    simp only [hid]
    have hbody := congrArg (Option.map fun is => [(Slot.body, is)])
      (map_loop? env.scripts (fun _ => none) i.params)
    simp only [Option.map_map, Function.comp_def] at hbody
    rw [← hbody]
    cases loop? env.scripts i.params with
    | none => rfl
    | some read =>
      simp only [Option.map_some, Option.getD_some, Command.programs, List.map_cons, hblock]
      simp [Instruction.keysUnder, Site.looped, Site.child, Block.program]
  case h_5 hid =>
    simp only [hid]
    cases forEach? i.params with
    | none => rfl
    | some read =>
      simp only [Option.map_some, Option.getD_some, Command.programs, List.map_cons, hblock]
      simp [Instruction.keysUnder, Site.looped, Site.child, Block.program]
  case h_6 hid =>
    simp only [hid]
    cases Program.body? i.params with
    | none => rfl
    | some read =>
      simp only [Option.map_some, Option.getD_some, Command.programs, List.map_cons, hblock]
      simp [Instruction.keysUnder, Site.ofUnit, Block.program]
  case h_7 hid | h_8 hid =>
    simp only [hid]
    split <;> rfl
  case h_9 hid =>
    simp only [hid]
    cases labelName? i.params <;> rfl
  case h_10 hid =>
    simp only [hid]
    cases hc : jump? i.params with
    | none => rfl
    | some c => rcases jump?_cases hc with ⟨sort, label, rfl⟩ | rfl <;> rfl
  case h_11 hid =>
    simp only [hid]
    cases hc : call? env.isEvent i.params with
    | none => rfl
    | some c => obtain ⟨event, arguments, -, rfl | rfl⟩ := call?_cases hc <;> rfl
  case h_12 =>
    simp only
    split
    · rename_i read hread
      cases read i.params <;> rfl
    · cases hc : custom? i.id i.params with
      | none => rfl
      | some c =>
        obtain ⟨arguments, rfl⟩ := custom?_cases hc
        rfl
termination_by sizeOf i.params
decreasing_by exact is.2 j hj

/-- **An event has the programs that its instructions tell.** -/
theorem Compiled.keys_ofEvent (d : EventDef) :
    (Compiled.ofEvent env d).programs.map Program.key = d.keys := by
  show _ :: ((Block.ofInstructions env d.commands).programs _ 0).map Program.key = _
  rw [Block.ofInstructions, Block.keys_programs fun i _ => Command.keys_programs false i]
  rfl

theorem Command.ofInstruction?_of_isDisabled {inLoop : Bool} {i : Instruction}
    (h : i.isDisabled) : Command.ofInstruction? env inLoop i = none := by
  rw [Command.ofInstruction?, if_pos (by rw [h, Bool.true_or])]

/-- An instruction that makes no command holds no lists that have programs. -/
theorem Instruction.keys_of_elided {inLoop : Bool} {i : Instruction}
    (h : Command.ofInstruction? env inLoop i = none) (key : BodyKey) (position : Nat) :
    i.keys key position = [] := by
  rw [← @Command.keys_programs env inLoop i ⟨key, none, 0, .empty⟩ position 0, h]
  rfl

end

/-! ## Instructions taken away -/

namespace BodyKey

/-- Does a key stand below the instruction at a position of the body? -/
def isAbove (b : BodyKey) (position : Nat) : BodyKey → Bool
  | .root _ => false
  | .child parent p _ => decide (parent = b ∧ p = position) || b.isAbove position parent

theorem isAbove_iff {b k : BodyKey} {position : Nat} :
    b.isAbove position k ↔ ∃ slot, Below (child b position slot) k := by
  induction k with
  | root event =>
    refine iff_of_false (by simp [isAbove]) ?_
    rintro ⟨slot, -, hpath⟩
    simpa [path] using hpath.length_le
  | child parent p slot ih =>
    rw [isAbove, Bool.or_eq_true, decide_eq_true_eq, ih]
    constructor
    · rintro (⟨rfl, rfl⟩ | ⟨slot', hbelow⟩)
      · exact ⟨slot, .refl _⟩
      · exact ⟨slot', hbelow.trans (below_child _ _ _)⟩
    · rintro ⟨slot', hevent, hpath⟩
      rcases List.suffix_cons_iff.1 hpath with heq | hpath
      · simp only [path_child, List.cons.injEq, Prod.mk.injEq] at heq
        exact .inl ⟨eq_of_path hevent.symm heq.2.symm, heq.1.1.symm⟩
      · exact .inr ⟨slot', hevent, hpath⟩

end BodyKey

namespace Instruction

theorem slots_armLists (sort : ArmSort) {whole : Json} (lists : List (Nested whole)) :
    (armLists sort lists).map (·.1) = (List.range lists.length).map sort.slot := by
  rw [List.range_eq_range', ← List.zipIdx_map_snd 0 lists, armLists, List.map_map, List.map_map]
  rfl

theorem nodup_armLists (sort : ArmSort) {whole : Json} (lists : List (Nested whole)) :
    ((armLists sort lists).map (·.1)).Nodup := by
  rw [slots_armLists]
  exact List.nodup_range.map fun _ _ => ArmSort.slot_injective

theorem nodup_armLists_append (sort : ArmSort) {whole : Json} {slot : Slot}
    (lists : List (Nested whole)) (is : Option (Nested whole))
    (hslot : ∀ index, sort.slot index ≠ slot) :
    ((armLists sort lists ++ optionalList slot is).map (·.1)).Nodup := by
  rw [List.map_append, List.nodup_append, slots_armLists]
  refine ⟨slots_armLists sort lists ▸ nodup_armLists sort lists, ?_, fun a ha b hb => ?_⟩
  · cases is <;> simp [optionalList]
  · obtain ⟨index, -, rfl⟩ := List.mem_map.1 ha
    cases is with
    | none => simp [optionalList] at hb
    | some is =>
      obtain rfl : b = slot := by simpa [optionalList] using hb
      exact hslot index

/-- The slots of an instruction's lists are distinct. -/
theorem nodup_slots (i : Instruction) : (i.lists.map (·.1)).Nodup := by
  have hslots : i.lists.map (·.1) = i.nested.map (·.1) := by
    rw [lists, List.map_map]
    rfl
  rw [hslots, nested]
  split
  · exact List.nodup_nil
  split
  case h_1 =>
    cases branches? (fun _ => none) i.params with
    | none => exact List.nodup_nil
    | some read => exact nodup_armLists_append _ _ _ nofun
  case h_2 =>
    cases cases? i.params with
    | none => exact List.nodup_nil
    | some read => exact nodup_armLists_append _ _ _ nofun
  case h_3 =>
    cases options? i.params with
    | none => exact List.nodup_nil
    | some list => exact nodup_armLists _ _
  case h_4 => cases loop? (fun _ => none) i.params <;> simp
  case h_5 => cases forEach? i.params <;> simp
  case h_6 => cases body? i.params <;> simp
  case h_7 => exact List.nodup_nil

theorem sizeOf_lt_of_mem_lists {i j : Instruction} {x : Slot × List Instruction}
    (hx : x ∈ i.lists) (hj : j ∈ x.2) : sizeOf j.params < sizeOf i.params := by
  obtain ⟨⟨slot, is⟩, -, rfl⟩ := List.mem_map.1 hx
  exact is.2 j hj

/-- What stands among the keys of an instruction stands below one of its
lists. -/
theorem exists_below_of_mem_keys {key k : BodyKey} {position : Nat} (i : Instruction)
    (h : k ∈ i.keys key position) :
    ∃ x ∈ i.lists, (BodyKey.child key position x.1).Below k := by
  rw [keys_eq, keysUnder, List.mem_flatMap] at h
  obtain ⟨x, hx, hk⟩ := h
  refine ⟨x, hx, ?_⟩
  rcases List.mem_cons.1 hk with rfl | hk
  · exact .refl _
  · obtain ⟨⟨j, position'⟩, hj, hk⟩ := List.mem_flatMap.1 hk
    have hmem : j ∈ x.2 := List.fst_mem_of_mem_zipIdx hj
    obtain ⟨y, -, hbelow⟩ := exists_below_of_mem_keys j hk
    exact (BodyKey.below_child _ _ _).trans hbelow
termination_by sizeOf i.params
decreasing_by exact sizeOf_lt_of_mem_lists hx hmem

theorem below_of_mem_keysFrom {key k : BodyKey} {first : Nat} {is : List Instruction}
    (h : k ∈ keysFrom key first is) : key.Below k := by
  obtain ⟨⟨i, position⟩, -, hk⟩ := List.mem_flatMap.1 h
  obtain ⟨x, -, hbelow⟩ := exists_below_of_mem_keys i hk
  exact (BodyKey.below_child _ _ _).trans hbelow

theorem keysFrom_append (key : BodyKey) (first : Nat) (a b : List Instruction) :
    keysFrom key first (a ++ b) = keysFrom key first a ++ keysFrom key (first + a.length) b := by
  rw [keysFrom, List.zipIdx_append, List.flatMap_append]
  rfl

theorem keysFrom_cons (key : BodyKey) (first : Nat) (i : Instruction) (is : List Instruction) :
    keysFrom key first (i :: is) = i.keys key first ++ keysFrom key (first + 1) is := rfl

end Instruction

/-- In a list of instructions of the body `key`, the instruction at a position
of the body `b`, which is that body or nested in it, is replaced by one that
makes no command. -/
inductive Silenced (env : Environment) (b : BodyKey) (position : Nat) :
    BodyKey → List Instruction → List Instruction → Prop
  /-- The instruction stands in the list itself. -/
  | here (before after : List Instruction) {x y : Instruction} (inLoop : Bool)
      (hposition : before.length = position)
      (hy : Command.ofInstruction? env inLoop y = none) :
      Silenced env b position b (before ++ x :: after) (before ++ y :: after)
  /-- The instruction stands in one of the lists that an instruction holds. -/
  | within {key : BodyKey} (before after : List Instruction) {is is' : List Instruction}
      {i i' : Instruction} (lists rest : List (Slot × List Instruction)) {slot : Slot}
      (hi : i.lists = lists ++ (slot, is) :: rest) (hi' : i'.lists = lists ++ (slot, is') :: rest)
      (h : Silenced env b position (.child key before.length slot) is is') :
      Silenced env b position key (before ++ i :: after) (before ++ i' :: after)

section

variable {env : Environment} {b key : BodyKey} {position p : Nat} {is is' : List Instruction}

theorem Silenced.key_below (h : Silenced env b position key is is') : key.Below b := by
  induction h with
  | here before after => exact .refl b
  | within before after lists rest hi hi' h ih => exact (BodyKey.below_child _ _ _).trans ih

/-- What stands below other instructions of a body than the one at a position
is none of what that one leads to. -/
theorem Instruction.filter_keysFrom
    (hb : ∀ {k}, b.isAbove position k → ∃ slot, (BodyKey.child key p slot).Below k) (first : Nat)
    (hp : p < first ∨ first + is.length ≤ p) :
    (keysFrom key first is).filter (!b.isAbove position ·) = keysFrom key first is := by
  rw [List.filter_eq_self]
  intro k hk
  obtain ⟨⟨i, p'⟩, hi, hk⟩ := List.mem_flatMap.1 hk
  obtain ⟨x, -, hbelow⟩ := exists_below_of_mem_keys i hk
  rw [Bool.not_eq_true', Bool.eq_false_iff]
  intro habove
  obtain ⟨slot, hbelow'⟩ := hb habove
  have heq := hbelow'.eq_of_child hbelow
  obtain rfl : p = p' := by
    simp only [BodyKey.child.injEq] at heq
    exact heq.2.1
  have hrange := List.mem_zipIdx hi
  omega

/-- So is what stands below other lists of the instruction. -/
theorem Instruction.filter_keysUnder {slot : Slot} {lists : List (Slot × List Instruction)}
    (hb : ∀ {k}, b.isAbove position k → (BodyKey.child key p slot).Below k)
    (hslot : slot ∉ lists.map (·.1)) :
    (keysUnder key p lists).filter (!b.isAbove position ·) = keysUnder key p lists := by
  rw [List.filter_eq_self]
  intro k hk
  obtain ⟨x, hx, hk⟩ := List.mem_flatMap.1 hk
  have hbelow : (BodyKey.child key p x.1).Below k := by
    rcases List.mem_cons.1 hk with rfl | hk
    · exact .refl _
    · exact below_of_mem_keysFrom hk
  rw [Bool.not_eq_true', Bool.eq_false_iff]
  intro habove
  have heq := (hb habove).eq_of_child hbelow
  simp only [BodyKey.child.injEq, true_and] at heq
  exact hslot (heq ▸ List.mem_map_of_mem hx)

/-- **An instruction that is silenced takes the keys below it away, and no
others.** -/
theorem Silenced.keysFrom_eq (h : Silenced env b position key is is') :
    Instruction.keysFrom key 0 is' =
      (Instruction.keysFrom key 0 is).filter (!b.isAbove position ·) := by
  induction h with
  | @here before after x y inLoop hposition hy =>
    subst hposition
    have hb : ∀ {k}, b.isAbove before.length k →
        ∃ slot, (BodyKey.child b before.length slot).Below k := BodyKey.isAbove_iff.1
    have hx : (x.keys b before.length).filter (!b.isAbove before.length ·) = [] := by
      rw [List.filter_eq_nil_iff]
      intro k hk
      obtain ⟨z, -, hbelow⟩ := Instruction.exists_below_of_mem_keys x hk
      simpa using BodyKey.isAbove_iff.2 ⟨z.1, hbelow⟩
    simp only [Instruction.keysFrom_append, Instruction.keysFrom_cons, List.filter_append,
      Nat.zero_add, hx, Instruction.keys_of_elided hy]
    rw [Instruction.filter_keysFrom hb 0 (.inr (by omega)),
      Instruction.filter_keysFrom hb _ (.inl (by omega))]
  | @within key before after is is' i i' lists rest slot hi hi' h ih =>
    -- what stands below the silenced instruction stands below the list that it is in
    have hb : ∀ {k}, b.isAbove position k → (BodyKey.child key before.length slot).Below k := by
      intro k habove
      obtain ⟨slot', hbelow⟩ := BodyKey.isAbove_iff.1 habove
      exact (h.key_below.trans (BodyKey.below_child _ _ _)).trans hbelow
    have hb' : ∀ {k}, b.isAbove position k →
        ∃ slot, (BodyKey.child key before.length slot).Below k := fun habove => ⟨slot, hb habove⟩
    -- the program of that list stays
    have hself : b.isAbove position (.child key before.length slot) = false := by
      rw [Bool.eq_false_iff]
      intro habove
      obtain ⟨slot', hbelow⟩ := BodyKey.isAbove_iff.1 habove
      exact BodyKey.not_below_of_child _ _ _ (hbelow.trans h.key_below)
    have hslots := i.nodup_slots
    rw [hi, List.map_append, List.map_cons, List.nodup_middle, List.nodup_cons, List.mem_append,
      not_or] at hslots
    obtain ⟨⟨hlists, hrest⟩, -⟩ := hslots
    have hsplit : ∀ js : List Instruction,
        Instruction.keysUnder key before.length (lists ++ (slot, js) :: rest) =
          Instruction.keysUnder key before.length lists ++
            .child key before.length slot ::
              (Instruction.keysFrom (.child key before.length slot) 0 js ++
                Instruction.keysUnder key before.length rest) := fun js => by
      rw [Instruction.keysUnder_append, Instruction.keysUnder, Instruction.keysUnder,
        List.flatMap_cons]
      rfl
    simp only [Instruction.keysFrom_append, Instruction.keysFrom_cons, List.filter_append,
      Nat.zero_add, Instruction.keys_eq, hi, hi', hsplit, List.filter_cons, hself, Bool.not_false,
      if_true, ih]
    rw [Instruction.filter_keysFrom hb' 0 (.inr (by omega)),
      Instruction.filter_keysFrom hb' _ (.inl (by omega)),
      Instruction.filter_keysUnder hb hlists, Instruction.filter_keysUnder hb hrest]

end

/-! ## The programs of a library -/

/-- The programs of all the events of a library. -/
def Library.programs (l : Library) : List Program :=
  l.events.entries.flatMap fun e => (Compiled.ofEvent l.environment e.2).programs

namespace Library

variable {l : Library}

theorem mem_programs_iff {p : Program} : p ∈ l.programs ↔ ∃ b, l.Holds b ∧ b.program = p := by
  simp only [programs, List.mem_flatMap, Engine.Serves.programs_ofEvent, Body.mem_programs_iff]
  constructor
  · rintro ⟨⟨name, d⟩, hd, b, hb, rfl⟩
    exact ⟨b, ⟨name, d, Table.mem_entries_iff.1 hd, hb⟩, rfl⟩
  · rintro ⟨b, ⟨name, d, hd, hb⟩, rfl⟩
    exact ⟨(name, d), Table.mem_entries_iff.2 hd, b, hb, rfl⟩

/-- A body held has a key of an event of the library. -/
theorem Holds.not_mem_slash (hl : l.Lawful) {b : Body} (hb : l.Holds b) :
    '/' ∉ b.key.event.toList := by
  obtain ⟨name, d, hd, hw⟩ := hb
  rw [← hw.below.1]
  show '/' ∉ d.name.toList
  rw [hl.name_eq hd]
  exact hl.not_mem_slash hd

theorem Lawful.nodup_keys (hl : l.Lawful) : (l.programs.map Program.key).Nodup := by
  have hholds : ∀ {e : String × EventDef} {k : BodyKey}, e ∈ l.events.entries →
      k ∈ (Compiled.ofEvent l.environment e.2).programs.map Program.key →
      k.event = e.1 := by
    intro e k he hk
    obtain ⟨p, hp, rfl⟩ := List.mem_map.1 hk
    obtain ⟨b, hb, rfl⟩ := (Body.mem_programs_iff (a := e.2.body l.environment)).1 hp
    rw [Body.program_key, ← hb.below.1]
    exact hl.name_eq (Table.mem_entries_iff.1 he)
  rw [programs, List.map_flatMap, List.nodup_flatMap]
  refine ⟨fun e he => ?_, ?_⟩
  · exact Body.nodup_keys (a := e.2.body l.environment) fun c hc => Library.Holds.distinct
      ⟨e.1, e.2, Table.mem_entries_iff.1 he, hc⟩
  -- two events have different names, which their keys begin with
  · refine l.events.sorted.imp_of_mem fun {e e'} he he' hbefore k hk hk' => ?_
    rw [(hholds he hk).symm.trans (hholds he' hk'), Key.before_irrefl] at hbefore
    exact Bool.false_ne_true hbefore

/-- **The programs of a library are told apart by the texts of their keys.** -/
theorem Lawful.nodup_texts (hl : l.Lawful) : (l.programs.map (·.key.text)).Nodup := by
  rw [show (fun p : Program => p.key.text) = BodyKey.text ∘ Program.key from rfl, ← List.map_map]
  refine hl.nodup_keys.map_on fun k hk k' hk' htext => ?_
  obtain ⟨p, hp, rfl⟩ := List.mem_map.1 hk
  obtain ⟨p', hp', rfl⟩ := List.mem_map.1 hk'
  obtain ⟨b, hb, rfl⟩ := mem_programs_iff.1 hp
  obtain ⟨b', hb', rfl⟩ := mem_programs_iff.1 hp'
  exact BodyKey.text_injective (hb.not_mem_slash hl) (hb'.not_mem_slash hl) htext

/-- The index of an event has its programs and no others. -/
theorem Lawful.programOfText?_iff (hl : l.Lawful) {name : String} {d : EventDef}
    (hd : l.get? name = some d) {text : String} {p : Program} :
    (Compiled.ofEvent l.environment d).programOfText? text = some p ↔
      p ∈ (Compiled.ofEvent l.environment d).programs ∧ p.key.text = text := by
  have hsub : ((Compiled.ofEvent l.environment d).programs.map (·.key.text)).Nodup := by
    have hnodup := hl.nodup_texts
    rw [programs, List.map_flatMap, List.nodup_flatMap] at hnodup
    exact hnodup.1 (name, d) (Table.mem_entries_iff.2 hd)
  constructor
  · intro h
    exact ⟨List.mem_of_find?_eq_some h, by simpa using List.find?_some h⟩
  · rintro ⟨hp, rfl⟩
    exact find?_of_nodup (f := fun p : Program => p.key.text) hsub hp

/-- **Keys identify programs.** All programs of a library have distinct keys;
each is found under the event before the first slash of its key and under the
key there; the index of an event has the programs of the lists that its
instructions hold, each position counted; and an instruction that is silenced
takes the keys below it away and changes no other. -/
theorem Lawful.keys_identify (hl : l.Lawful) :
    (l.programs.map (·.key.text)).Nodup ∧
    (∀ p ∈ l.programs, (Engine.ofLibrary l).programOfText? p.key.text = some p) ∧
    ∀ name d, l.get? name = some d →
      (∀ text p, (Compiled.ofEvent l.environment d).programOfText? text = some p ↔
        p ∈ (Compiled.ofEvent l.environment d).programs ∧ p.key.text = text) ∧
      (Compiled.ofEvent l.environment d).programs.map Program.key = d.keys ∧
      ∀ d' : EventDef, d'.name = name → ∀ b position,
        Silenced l.environment b position (.root name) d.commands d'.commands →
          (Compiled.ofEvent l.environment d').programs.map Program.key =
            ((Compiled.ofEvent l.environment d).programs.map Program.key).filter
              (!b.isAbove position ·) := by
  refine ⟨hl.nodup_texts, fun p hp => ?_, fun name d hd =>
    ⟨fun text p => hl.programOfText?_iff hd, Compiled.keys_ofEvent d,
      fun d' hname b position h => ?_⟩⟩
  · obtain ⟨b, hb, rfl⟩ := mem_programs_iff.1 hp
    exact (Engine.Serves.ofLibrary l).programOfText? hl hb
  · have hkeys := h.keysFrom_eq
    rw [Compiled.keys_ofEvent, Compiled.keys_ofEvent, EventDef.keys, EventDef.keys, hname,
      hl.name_eq hd, hkeys]
    rfl

end Library

/-- An event that chooses between a body with a loop in front of a body of its
own and an empty one; the loop is under a given name. -/
def EventDef.forking (loop : String) : EventDef :=
  let body : Json := .object [("commands", .array [])]
  let first : List Instruction := [⟨loop, body⟩, ⟨"independent", body⟩]
  let branch : Json := .object [("commands", .ofList Instruction.encode first)]
  ⟨"main", [⟨"if", .object [("branches", .array [branch]), ("else", .array [])]⟩], .empty⟩

/-- The library of that event. -/
def Library.forking : Library := { events := .ofList [("main", .forking "loop")] }

/-- With the loop switched off the body behind it keeps its key. -/
theorem Library.Lawful.keys_identify_forking :
    Library.forking.Lawful ∧
      (Compiled.ofEvent Library.forking.environment (.forking "!loop")).programs.map (·.key.text) =
        ["main", "main/0:then0", "main/0:then0/1:independent", "main/0:else"] := by
  have hl : Library.forking.Lawful := by decide +kernel
  have hsilenced : Silenced Library.forking.environment (.child (.root "main") 0 (.branch 0)) 0
      (.root "main") (EventDef.forking "loop").commands (EventDef.forking "!loop").commands := by
    refine .within [] [] [] [(.otherwise, [])] rfl rfl ?_
    exact .here [] _ false rfl (Command.ofInstruction?_of_isDisabled (by decide))
  have hkeys := (hl.keys_identify.2.2 "main" (.forking "loop") rfl).2.2 (.forking "!loop") rfl _ _
    hsilenced
  refine ⟨hl, ?_⟩
  rw [show (fun p : Program => p.key.text) = BodyKey.text ∘ Program.key from rfl, ← List.map_map,
    hkeys]
  decide +kernel

end Cutscene
