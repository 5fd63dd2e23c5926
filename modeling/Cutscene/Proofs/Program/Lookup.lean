import Cutscene.Proofs.Program.Key
import Cutscene.Proofs.Program.Read
import Cutscene.Run.Machine
/-!
# Programs — looking programs up

Where no block repeats a position, the bodies of a unit have distinct keys
(`Body.nodup_keys`): what one command holds parts from what another one holds
at the block's own key. So a look-up by key finds the program of the one body
under it, and, since keys have distinct texts, so does a look-up by text.

For an engine that serves a library the programs are those of the bodies that
the library holds (`Engine.Serves.program?`, `Engine.Serves.exists_body`).
-/

namespace Cutscene

/-! ## Keys of the bodies held -/

theorem Arms.key_children {sort : ArmSort} {s : Site} {position : Nat} {resume : Place} {b : Body} :
    (arms : Arms sort) → {index : Nat} → b ∈ arms.children s position index resume →
      ∃ i, index ≤ i ∧ b.key = .child s.key position (sort.slot i)
  | .nil, _, h => by simp [Arms.children] at h
  | .cons guard body rest, index, h => by
    rw [Arms.children, List.mem_cons] at h
    rcases h with rfl | h
    · exact ⟨index, Nat.le_refl _, rfl⟩
    · obtain ⟨i, hi, hkey⟩ := Arms.key_children rest h
      exact ⟨i, by omega, hkey⟩

theorem ArmSort.slot_injective {sort : ArmSort} {i j : Nat} (h : sort.slot i = sort.slot j) :
    i = j := by
  cases sort <;> simpa [ArmSort.slot] using h

theorem Arms.nodup_keys {sort : ArmSort} (s : Site) (position : Nat) (resume : Place) :
    (arms : Arms sort) → (index : Nat) →
      ((arms.children s position index resume).map Body.key).Nodup
  | .nil, _ => List.nodup_nil
  | .cons guard body rest, index => by
    rw [Arms.children, List.map_cons, List.nodup_cons]
    refine ⟨fun h => ?_, Arms.nodup_keys s position resume rest (index + 1)⟩
    obtain ⟨b, hb, hkey⟩ := List.mem_map.1 h
    obtain ⟨i, hi, hkey'⟩ := Arms.key_children rest hb
    have hslot : sort.slot i = sort.slot index := by
      have : BodyKey.child s.key position (sort.slot i) =
          .child s.key position (sort.slot index) := hkey'.symm.trans hkey
      simpa using this
    have := ArmSort.slot_injective hslot
    omega

theorem OptionalBlock.key_children {s : Site} {resume : Place} {b : Body} {o : OptionalBlock}
    (h : b ∈ o.children s resume) : b.key = s.key := by
  cases o with
  | absent => simp [OptionalBlock.children] at h
  | present body =>
    obtain rfl := List.mem_singleton.1 h
    rfl

theorem OptionalBlock.nodup_keys (s : Site) (resume : Place) (o : OptionalBlock) :
    ((o.children s resume).map Body.key).Nodup := by
  cases o with
  | absent => exact List.nodup_nil
  | present body => exact List.nodup_singleton _

/-- A body that a command holds stands at the command's position. -/
theorem Command.key_children {s : Site} {position index : Nat} {c : Command} {b : Body}
    (h : b ∈ c.children s position index) : ∃ slot, b.key = .child s.key position slot := by
  cases c with
  | ifElse branches otherwise =>
    rcases List.mem_append.1 h with h | h
    · obtain ⟨i, -, hkey⟩ := Arms.key_children branches h
      exact ⟨_, hkey⟩
    · exact ⟨_, OptionalBlock.key_children h⟩
  | switch subject cases default =>
    rcases List.mem_append.1 h with h | h
    · obtain ⟨i, -, hkey⟩ := Arms.key_children cases h
      exact ⟨_, hkey⟩
    · exact ⟨_, OptionalBlock.key_children h⟩
  | choices options =>
    obtain ⟨i, -, hkey⟩ := Arms.key_children options h
    exact ⟨_, hkey⟩
  | loop tester body => obtain rfl := List.mem_singleton.1 h; exact ⟨_, rfl⟩
  | forEach source ref body => obtain rfl := List.mem_singleton.1 h; exact ⟨_, rfl⟩
  | independent body => obtain rfl := List.mem_singleton.1 h; exact ⟨_, rfl⟩
  | _ => simp [Command.children] at h

theorem Arms.nodup_keys_append {sort : ArmSort} {s : Site} {position index : Nat} {resume : Place}
    {slot : Slot} (arms : Arms sort) (o : OptionalBlock) (hslot : ∀ i, sort.slot i ≠ slot) :
    ((arms.children s position index resume ++
      o.children (s.child position slot) resume).map Body.key).Nodup := by
  rw [List.map_append, List.nodup_append]
  refine ⟨Arms.nodup_keys _ _ _ arms _, OptionalBlock.nodup_keys _ _ o, ?_⟩
  intro k hk k' hk' heq
  obtain ⟨b, hb, rfl⟩ := List.mem_map.1 hk
  obtain ⟨b', hb', rfl⟩ := List.mem_map.1 hk'
  obtain ⟨i, -, hkey⟩ := Arms.key_children arms hb
  have hkey' : b'.key = .child s.key position slot := OptionalBlock.key_children hb'
  rw [hkey, hkey'] at heq
  exact hslot i (by simpa using heq)

theorem Command.nodup_keys (s : Site) (position index : Nat) (c : Command) :
    ((c.children s position index).map Body.key).Nodup := by
  cases c with
  | ifElse branches otherwise =>
    exact Arms.nodup_keys_append branches otherwise fun i => by simp [ArmSort.slot]
  | switch subject cases default =>
    exact Arms.nodup_keys_append cases default fun i => by simp [ArmSort.slot]
  | choices options => exact Arms.nodup_keys _ _ _ options _
  | loop tester body => exact List.nodup_singleton _
  | forEach source ref body => exact List.nodup_singleton _
  | independent body => exact List.nodup_singleton _
  | _ => exact List.nodup_nil

namespace Body

/-- A body held stands directly below the one that holds it. -/
theorem key_of_mem_children {b c : Body} (h : c ∈ b.children) :
    ∃ position slot, c.key = .child b.key position slot := by
  obtain ⟨e, -, hc⟩ := mem_children_iff.1 h
  obtain ⟨slot, hkey⟩ := Command.key_children hc
  exact ⟨_, slot, hkey⟩

/-- Where no position is repeated, the bodies held have distinct keys. -/
theorem nodup_keys_children {b : Body} (h : b.block.Distinct) :
    (b.children.map key).Nodup := by
  rw [children, Block.children_eq, List.map_flatMap, List.nodup_flatMap]
  refine ⟨fun e _ => Command.nodup_keys b.site e.position e.index e.command, ?_⟩
  have hpositions := List.pairwise_map.1 h
  refine hpositions.imp fun {e e'} hne => ?_
  intro k hk hk'
  obtain ⟨c, hc, rfl⟩ := List.mem_map.1 hk
  obtain ⟨c', hc', hkey⟩ := List.mem_map.1 hk'
  obtain ⟨slot, hslot⟩ := Command.key_children hc
  obtain ⟨slot', hslot'⟩ := Command.key_children hc'
  rw [hslot, hslot'] at hkey
  simp only [BodyKey.child.injEq] at hkey
  exact hne hkey.2.1.symm

/-- A body within stands below. -/
theorem Within.below {a b : Body} (h : a.Within b) : a.key.Below b.key := by
  induction h with
  | refl => exact .refl _
  | tail _ hc ih =>
    obtain ⟨position, slot, hkey⟩ := key_of_mem_children hc
    rw [hkey]
    exact ih.trans (BodyKey.below_child _ _ _)

/-- **The programs of a unit have distinct keys.** -/
theorem nodup_keys {a : Body} (h : ∀ b, a.Within b → b.block.Distinct) :
    (a.programs.map Program.key).Nodup := by
  induction a using induction_children with
  | h a ih =>
    have hbelow : ∀ {c : Body} {k : BodyKey}, k ∈ c.programs.map Program.key → c.key.Below k := by
      intro c k hk
      obtain ⟨p, hp, rfl⟩ := List.mem_map.1 hk
      obtain ⟨b, hb, rfl⟩ := mem_programs_iff.1 hp
      exact hb.below
    rw [programs_eq, List.map_cons, List.map_flatMap, List.nodup_cons, List.nodup_flatMap]
    refine ⟨fun hk => ?_, fun c hc => ih c hc fun b hb => h b (.head hc hb), ?_⟩
    -- nothing within a body held has the key of the one that holds it
    · obtain ⟨c, hc, hk⟩ := List.mem_flatMap.1 hk
      obtain ⟨position, slot, hkey⟩ := key_of_mem_children hc
      have := hbelow hk
      rw [hkey] at this
      exact BodyKey.not_below_of_child _ _ _ this
    -- and two bodies held share no key within them, since they part at their own
    · refine (List.pairwise_map.1 (nodup_keys_children (h a (.refl a)))).imp_of_mem ?_
      intro c c' hc hc' hne k hk hk'
      obtain ⟨position, slot, hkey⟩ := key_of_mem_children hc
      obtain ⟨position', slot', hkey'⟩ := key_of_mem_children hc'
      have hb := hbelow hk
      have hb' := hbelow hk'
      rw [hkey] at hb
      rw [hkey'] at hb'
      exact hne (hkey.trans ((hb.eq_of_child hb').trans hkey'.symm))

end Body

end Cutscene
