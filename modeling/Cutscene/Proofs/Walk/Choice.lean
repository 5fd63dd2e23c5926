import Cutscene.Proofs.Walk.Basic
import Cutscene.Proofs.Walk.Plain
/-!
# Walking — the body that is chosen

A step that chooses among bodies knows them by their keys, a walk by their
trees. Both test the same guards in the same order, and which index they come
to depends on neither, so they are one choice among pairs of a body that is
laid out and the tree that it was pruned from (`Arms.exists_pairs`).
-/

namespace Cutscene

section FirstWhere

variable {γ α β : Type} {test : γ → Act Bool}

/-- What the bodies are does not matter to the choice. -/
theorem firstWhere_map (f : α → β) (otherwise : Option α) (arms : List (γ × α)) :
    firstWhere test (otherwise.map f) (arms.map fun arm => (arm.1, f arm.2)) =
      (firstWhere test otherwise arms >>= fun chosen => pure (chosen.map f)) := by
  induction arms with
  | nil => rfl
  | cons arm arms ih =>
    rw [List.map_cons, firstWhere, firstWhere, ih, bind_assoc]
    refine bind_congr fun holds => ?_
    cases holds with
    | true => rfl
    | false => rfl

theorem traced_firstWhere {timeless rootless : Prop} (otherwise : Option α) :
    (arms : List (γ × α)) → (∀ arm ∈ arms, Act.Traced timeless rootless (test arm.1)) →
      Act.Traced timeless rootless (firstWhere test otherwise arms)
  | [], _ => Act.traced_pure _
  | arm :: arms, h => by
    obtain ⟨hfirst, hrest⟩ := List.forall_mem_cons.1 h
    refine hfirst.bind fun holds => ?_
    cases holds with
    | true => exact Act.traced_pure _
    | false => exact traced_firstWhere otherwise arms hrest

/-- What is chosen is one of the bodies or the other one. -/
theorem firstWhere_mem {otherwise : Option α} {chosen : α} :
    (arms : List (γ × α)) → {m : Machine} →
      (firstWhere test otherwise arms m).1 = some chosen →
        chosen ∈ arms.map (·.2) ∨ otherwise = some chosen
  | [], _, h => .inr h
  | arm :: arms, m, h => by
    have hrun : firstWhere test otherwise (arm :: arms) m =
        (if (test arm.1 m).1 then pure (some arm.2) else firstWhere test otherwise arms)
          (test arm.1 m).2 := rfl
    rw [hrun] at h
    split at h
    · exact .inl (List.mem_cons.2 (.inl (Option.some.inj h).symm))
    · exact (firstWhere_mem arms h).imp_left (List.mem_cons_of_mem _)

end FirstWhere

/-! ## The steps that choose -/

/-- A branch enters the first body whose tester holds. -/
theorem enterBranch_eq (otherwise : Option BodyKey) (arms : List (Guard .branch × BodyKey)) :
    enterBranch otherwise (arms.map fun (guard, key) => (guard.tester, key)) =
      (firstWhere (·.tester.holds) otherwise arms >>= Act.enterOptional) := by
  induction arms with
  | nil => rfl
  | cons arm arms ih =>
    rw [List.map_cons, enterBranch, firstWhere, ih, bind_assoc]
    refine bind_congr fun holds => ?_
    cases holds with
    | true => rfl
    | false => rfl

/-- A case is entered likewise. -/
theorem enterCase_eq (subject : Option Value) (otherwise : Option BodyKey)
    (arms : List (Guard .case × BodyKey)) :
    enterCase subject otherwise (arms.map fun (guard, key) => (guard.candidates, key)) =
      (firstWhere (fun guard => anyEqual subject guard.candidates) otherwise arms >>=
        Act.enterOptional) := by
  induction arms with
  | nil => rfl
  | cons arm arms ih =>
    rw [List.map_cons, enterCase, firstWhere, ih, bind_assoc]
    refine bind_congr fun equal => ?_
    cases equal with
    | true => rfl
    | false => rfl

/-! ## Bodies and trees in pairs -/

/-- A body that is laid out, in the same loop as its command, and the tree that
its block was pruned from. It goes on at a place after its command. -/
structure Paired (inLoop : Bool) (loop : Option LoopSite) (resume : Place) (children : List Body)
    (x : Body × Block) : Prop where
  mem : x.1 ∈ children
  loop : x.1.site.loop = loop
  terminal : x.1.terminal = .resume resume
  block : x.1.block = x.2.pruned inLoop

theorem Arms.exists_pairs_from {sort : ArmSort} (inLoop : Bool) (s : Site) (position : Nat)
    (resume : Place) : (arms : Arms sort) → (index : Nat) →
      ∃ pairs : List (Guard sort × Body × Block),
        ((arms.pruned inLoop).guards.zipIdx index).map (fun (guard, index) =>
          (guard, BodyKey.child s.key position (sort.slot index))) =
            pairs.map (fun x => (x.1, x.2.1.key)) ∧
        arms.toList = pairs.map (fun x => (x.1, x.2.2)) ∧
        ∀ x ∈ pairs, Paired inLoop s.loop resume
          ((arms.pruned inLoop).children s position index resume) x.2
  | .nil, _ => ⟨[], rfl, rfl, by simp⟩
  | .cons guard body rest, index => by
    obtain ⟨pairs, hkeys, htrees, hpaired⟩ :=
      exists_pairs_from inLoop s position resume rest (index + 1)
    let child : Body := ⟨s.child position (sort.slot index), body.pruned inLoop, .resume resume⟩
    refine ⟨(guard, child, body) :: pairs, ?_, ?_, List.forall_mem_cons.2 ⟨?_, fun x hx => ?_⟩⟩
    · rw [Arms.pruned, Arms.guards, List.zipIdx_cons, List.map_cons, hkeys]
      rfl
    · rw [Arms.toList, htrees]
      rfl
    · exact ⟨List.mem_cons_self, rfl, rfl, rfl⟩
    · exact { hpaired x hx with mem := List.mem_cons_of_mem _ (hpaired x hx).mem }

/-- **The keys and the trees of guarded bodies are those of one list of pairs.** -/
theorem Arms.exists_pairs {sort : ArmSort} (arms : Arms sort) (inLoop : Bool) (s : Site)
    (position : Nat) (resume : Place) :
    ∃ pairs : List (Guard sort × Body × Block),
      (arms.pruned inLoop).keyed s.key position = pairs.map (fun x => (x.1, x.2.1.key)) ∧
      arms.toList = pairs.map (fun x => (x.1, x.2.2)) ∧
      ∀ x ∈ pairs, Paired inLoop s.loop resume
        ((arms.pruned inLoop).children s position 0 resume) x.2 :=
  arms.exists_pairs_from inLoop s position resume 0

/-- So are those of a body that may be absent. -/
theorem OptionalBlock.exists_pair (o : OptionalBlock) (inLoop : Bool) (s : Site) (resume : Place) :
    ∃ pair : Option (Body × Block),
      (o.pruned inLoop).key? s.key = pair.map (·.1.key) ∧ o.toOption = pair.map (·.2) ∧
      ∀ x ∈ pair, Paired inLoop s.loop resume ((o.pruned inLoop).children s resume) x := by
  cases o with
  | absent => exact ⟨none, rfl, rfl, by simp⟩
  | present body =>
    refine ⟨some (⟨s, body.pruned inLoop, .resume resume⟩, body), rfl, rfl, fun x hx => ?_⟩
    obtain rfl := Option.some.inj hx
    exact ⟨List.mem_singleton_self _, rfl, rfl, rfl⟩

/-! ## One choice -/

/-- The step and the walk choose by the same tests: the step enters the body of
a pair, the walk goes on with its tree. -/
def Chooses (e : Engine) (inLoop : Bool) (loop : Option LoopSite) (resume : Place)
    (children : List Body) (step : Step) (walk : Act (Option Block)) : Prop :=
  ∃ act : Act (Option (Body × Block)), Act.Traced True False act ∧
    step.run e = (act >>= fun chosen => Act.enterOptional (chosen.map (·.1.key))) ∧
    walk = (act >>= fun chosen => pure (chosen.map (·.2))) ∧
    ∀ m x, (act m).1 = some x → Paired inLoop loop resume children x

theorem Arms.keyed_fst {sort : ArmSort} (key : BodyKey) (position : Nat) (arms : Arms sort) :
    (arms.keyed key position).map (·.1) = arms.guards := by
  rw [Arms.keyed, List.map_map]
  exact List.zipIdx_map_fst 0 arms.guards

section Chooses

variable {e : Engine} {inLoop : Bool} (s : Site) (position : Nat)

/-- The choice among guarded bodies and one that may be absent, by any test. -/
theorem exists_choice {sort : ArmSort} (resume : Place) (arms : Arms sort) (o : OptionalBlock)
    (slot : Slot) (test : Guard sort → Act Bool)
    (htest : ∀ guard ∈ (arms.pruned inLoop).guards, Act.Traced True False (test guard)) :
    ∃ act : Act (Option (Body × Block)), Act.Traced True False act ∧
      firstWhere test ((o.pruned inLoop).key? (.child s.key position slot))
          ((arms.pruned inLoop).keyed s.key position) =
        (act >>= fun chosen => pure (chosen.map (·.1.key))) ∧
      firstWhere test o.toOption arms.toList = (act >>= fun chosen => pure (chosen.map (·.2))) ∧
      ∀ m x, (act m).1 = some x →
        Paired inLoop s.loop resume ((arms.pruned inLoop).children s position 0 resume ++
          (o.pruned inLoop).children (s.child position slot) resume) x := by
  obtain ⟨pairs, hkeys, htrees, hpaired⟩ := arms.exists_pairs inLoop s position resume
  obtain ⟨pair, hkey, htree, hpair⟩ := o.exists_pair inLoop (s.child position slot) resume
  have hguards : ∀ arm ∈ pairs, Act.Traced True False (test arm.1) := by
    intro arm harm
    refine htest _ ?_
    rw [← Arms.keyed_fst s.key position, hkeys, List.map_map]
    exact List.mem_map_of_mem harm
  refine ⟨firstWhere test pair pairs, traced_firstWhere pair pairs hguards, ?_, ?_, ?_⟩
  · rw [hkeys]
    exact (congrArg (firstWhere test · _) hkey).trans (firstWhere_map (·.1.key) pair pairs)
  · rw [htrees, htree]
    exact firstWhere_map (·.2) pair pairs
  · intro m x hx
    rcases firstWhere_mem pairs hx with hmem | hother
    · obtain ⟨arm, harm, rfl⟩ := List.mem_map.1 hmem
      exact { hpaired arm harm with mem := List.mem_append_left _ (hpaired arm harm).mem }
    · exact { hpair x hother with mem := List.mem_append_right _ (hpair x hother).mem }

/-- **A condition's step and its walk choose alike.** -/
theorem chooses_ifElse (index : Nat) {branches : Arms .branch} {otherwise : OptionalBlock}
    (hplain : (Command.pruned inLoop (.ifElse branches otherwise)).isPlain) {step : Step}
    (hstep : (Command.pruned inLoop (.ifElse branches otherwise)).steps s position = [step]) :
    Chooses e inLoop s.loop ⟨s.key, index + 1⟩
      ((Command.pruned inLoop (.ifElse branches otherwise)).children s position index) step
      (chooseBranch branches otherwise) := by
  obtain ⟨act, htraced, hkeys, htrees, hpaired⟩ :=
    exists_choice s position ⟨s.key, index + 1⟩ branches otherwise .otherwise
      (fun guard => guard.tester.holds) fun guard hguard =>
        guard.tester.traced fun _ => List.all_eq_true.1 hplain guard hguard
  obtain rfl : _ = step := List.head_eq_of_cons_eq hstep
  refine ⟨act, htraced, ?_, htrees, hpaired⟩
  rw [Step.run, enterBranch_eq, hkeys, bind_assoc]
  simp only [pure_bind]

/-- **So do a switch's.** -/
theorem chooses_switch (index : Nat) {subject : ValueOperand} {cases : Arms .case}
    {default : OptionalBlock}
    (hplain : (Command.pruned inLoop (.switch subject cases default)).isPlain)
    {step : Step}
    (hstep : (Command.pruned inLoop (.switch subject cases default)).steps s position = [step]) :
    Chooses e inLoop s.loop ⟨s.key, index + 1⟩
      ((Command.pruned inLoop (.switch subject cases default)).children s position index) step
      (chooseCase subject cases default) := by
  simp only [Command.pruned, Command.isPlain, Bool.and_eq_true, List.all_eq_true] at hplain
  -- for every value of the subject there is a choice, and the subject is drawn first
  have hchoice := fun v : Option Value =>
    exists_choice s position ⟨s.key, index + 1⟩ cases default .default
      (fun guard => anyEqual v guard.candidates) fun guard hguard =>
        Act.traced_anyEqual v guard.candidates fun _ => by
          exact List.all_eq_true.2 (hplain.2 guard hguard)
  choose act htraced hkeys htrees hpaired using hchoice
  have hdrawn : Act.Traced True False (Act.draw subject.compute) :=
    Act.traced_draw fun _ _ _ hm => hm.valueOperand hplain.1
  obtain rfl : _ = step := List.head_eq_of_cons_eq hstep
  refine ⟨Act.draw subject.compute >>= act, hdrawn.bind htraced, ?_, ?_, fun m x => hpaired _ _ x⟩
  · rw [Step.run, bind_assoc]
    refine bind_congr fun v => ?_
    rw [enterCase_eq, hkeys, bind_assoc]
    simp only [pure_bind]
  · rw [chooseCase, bind_assoc]
    exact bind_congr htrees

end Chooses

end Cutscene
