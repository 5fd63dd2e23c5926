import Cutscene.Event.Basic
import Cutscene.Event.HostCall
import Cutscene.Proofs.Descriptor.Reference
import Cutscene.Scenario.Basic
/-!
# Events — their form in JSON

Decoding undoes encoding for events with their instructions, for the circumstances and
boundaries of what runs, and for the scenarios that play a project, with their prepared
actions and expected calls. The parameters of an instruction are JSON as it is, of which
every part must be readable.
-/

namespace Cutscene

open Json

theorem undoes_raw : Undoes raw? (fun j => j) readable where
  read_write {j} hj := by rw [raw?, whole?, if_pos hj]
  of_read {j a} _ h := by
    obtain ⟨hj, h⟩ := Option.ite_none_right_eq_some.1 h
    exact Option.some.inj h ▸ hj

theorem undoes_optionalObject : Undoes (Record.orNull? ObjectId.decode?)
    (ofOption ObjectId.encode) (·.all (isWord ·.val)) :=
  ObjectId.undoes.orNull fun _ _ => nofun

/-! ## Events -/

/-- Is there JSON for the instruction? -/
def Instruction.expressible (i : Instruction) : Bool := i.params.readable

theorem Instruction.undoes :
    Undoes Instruction.decode? Instruction.encode Instruction.expressible where
  read_write {i} hi := by
    simp only [decode?, Option.bind_eq_bind, Option.bind_eq_some_iff, Option.pure_def]
    exact ⟨_, plainRecord?_eq rfl (by simp), _, undoes_string.required rfl rfl,
      _, undoes_raw.orElse hi rfl _, rfl⟩
  of_read {j i} hj h := by
    simp only [decode?, Option.bind_eq_bind, Option.bind_eq_some_iff, Option.pure_def,
      Option.some.injEq] at h
    obtain ⟨r, hr, id, -, params, hparams, rfl⟩ := h
    exact undoes_raw.of_orElse (Record.finite_of_record? hj hr) rfl hparams

/-- Is there JSON for the event? -/
def EventDef.expressible (e : EventDef) : Bool :=
  e.commands.all Instruction.expressible && e.parameters.expressible

theorem EventDef.undoes : Undoes EventDef.decode? EventDef.encode EventDef.expressible where
  read_write {e} he := by
    simp only [expressible, Bool.and_eq_true] at he
    simp only [decode?, Option.bind_eq_bind, Option.bind_eq_some_iff, Option.pure_def]
    exact ⟨_, plainRecord?_eq rfl (by simp), _, undoes_string.required rfl rfl,
      _, Instruction.undoes.list.orElse he.1 rfl _, _, Attributes.undoes.orElse he.2 rfl _, rfl⟩
  of_read {j e} hj h := by
    simp only [decode?, Option.bind_eq_bind, Option.bind_eq_some_iff, Option.pure_def,
      Option.some.injEq] at h
    obtain ⟨r, hr, name, -, commands, hcommands, parameters, hparameters, rfl⟩ := h
    have hfinite := Record.finite_of_record? hj hr
    simp only [expressible, Bool.and_eq_true]
    exact ⟨Instruction.undoes.list.of_orElse hfinite rfl hcommands,
      Attributes.undoes.of_orElse hfinite rfl hparameters⟩

/-! ## Circumstances and boundaries -/

/-- Is there JSON for the circumstances? -/
def Ambient.expressible (a : Ambient) : Bool :=
  [a.trigger, a.caster, a.target, a.owner].all (·.all (isWord ·.val)) && a.parameters.expressible

theorem Ambient.undoes : Undoes Ambient.decode? Ambient.encode Ambient.expressible where
  read_write {a} ha := by
    simp only [expressible, List.all_cons, List.all_nil, Bool.and_true, Bool.and_eq_true] at ha
    obtain ⟨⟨htrigger, hcaster, htarget, howner⟩, hparameters⟩ := ha
    simp only [decode?, Option.bind_eq_bind, Option.bind_eq_some_iff, Option.pure_def]
    exact ⟨_, plainRecord?_eq rfl (by simp), _, undoes_optionalObject.nullable htrigger rfl,
      _, undoes_optionalObject.nullable hcaster rfl, _, undoes_optionalObject.nullable htarget rfl,
      _, undoes_optionalObject.nullable howner rfl, _, Attributes.undoes.orElse hparameters rfl _,
      rfl⟩
  of_read {j a} hj h := by
    simp only [decode?, Option.bind_eq_bind, Option.bind_eq_some_iff, Option.pure_def,
      Option.some.injEq] at h
    obtain ⟨r, hr, trigger, htrigger, caster, hcaster, target, htarget, owner, howner,
      parameters, hparameters, rfl⟩ := h
    have hfinite := Record.finite_of_record? hj hr
    simp only [expressible, List.all_cons, List.all_nil, Bool.and_true, Bool.and_eq_true]
    exact ⟨⟨undoes_optionalObject.of_nullable hfinite htrigger,
      undoes_optionalObject.of_nullable hfinite hcaster,
      undoes_optionalObject.of_nullable hfinite htarget,
      undoes_optionalObject.of_nullable hfinite howner⟩,
      Attributes.undoes.of_orElse hfinite rfl hparameters⟩

/-- A boundary holds nothing but texts, so there is always JSON for it. -/
theorem Boundary.undoes : Undoes Boundary.decode? Boundary.encode fun _ => true where
  read_write {b} _ := by
    have htexts (texts : List String) : list? string? (ofList .string texts) = some texts :=
      undoes_string.list.read_write (by simp)
    cases b with
    | text shown => simp [decode?, encode, plainRecord?_eq, string?]
    | choice options => simp [decode?, encode, plainRecord?_eq, htexts]
    | signal => simp [decode?, encode, isBare]
  of_read _ _ := rfl

theorem Boundary.readable_encode (b : Boundary) : b.encode.readable := by
  cases b <;> simp [encode, tagged]

theorem Boundary.encode_ne_null (b : Boundary) : b.encode ≠ .null := by
  cases b <;> simp [encode, tagged]

/-! ## Host calls -/

/-- Is there JSON for the call? -/
def HostCall.expressible : HostCall → Bool
  | .playAudio _ _ volume => volume.isFinite
  | .playAnimation target _ => target.all (isWord ·.val)
  | .moveActor actor x y => isWord actor.val && x.isFinite && y.isFinite
  | .castSkill caster skill target =>
    isWord caster.val && isWord skill.val && target.all (isWord ·.val)
  | .showText _ | .showChoices _ | .stopAudio _ | .log _ => true

theorem HostCall.decode?_encode (c : HostCall) (hc : c.expressible) :
    decode? c.encode = some c := by
  have htexts (texts : List String) : list? string? (ofList .string texts) = some texts :=
    undoes_string.list.read_write (by simp)
  cases c with
  | showText text => simp [decode?, encode, plainRecord?_eq, string?]
  | showChoices options => simp [decode?, encode, plainRecord?_eq, htexts]
  | playAudio channel track volume =>
    simp [decode?, encode, plainRecord?_eq, List.lookup_cons, string?,
      undoes_float.read_write hc]
  | stopAudio track =>
    simp [decode?, encode, plainRecord?_eq, undoes_optionalString.read_write]
  | playAnimation target animation =>
    simp -implicitDefEqProofs [decode?, encode, plainRecord?_eq, List.lookup_cons, string?,
      undoes_optionalObject.read_write hc]
  | moveActor actor x y =>
    simp only [expressible, Bool.and_eq_true] at hc
    obtain ⟨⟨hactor, hx⟩, hy⟩ := hc
    simp -implicitDefEqProofs [decode?, encode, plainRecord?_eq, List.lookup_cons,
      ObjectId.undoes.read_write hactor, undoes_float.read_write hx, undoes_float.read_write hy]
  | castSkill caster skill target =>
    simp only [expressible, Bool.and_eq_true] at hc
    obtain ⟨⟨hcaster, hskill⟩, htarget⟩ := hc
    simp -implicitDefEqProofs [decode?, encode, plainRecord?_eq, List.lookup_cons,
      ObjectId.undoes.read_write hcaster, ObjectId.undoes.read_write hskill,
      undoes_optionalObject.read_write htarget]
  | log message => simp [decode?, encode, plainRecord?_eq, string?]

theorem HostCall.expressible_of_decode? {j : Json} {c : HostCall} (hj : j.allFinite)
    (h : decode? j = some c) : c.expressible := by
  simp only [decode?, Option.bind_eq_bind, Option.bind_eq_some_iff] at h
  obtain ⟨⟨tag, content⟩, hvariant, h⟩ := h
  have hfinite {names r} (hr : plainRecord? names content = some r) : r.Finite :=
    Record.finite_of_variant? hj hvariant hr
  split at h <;>
    simp only [Option.bind_eq_some_iff, Option.pure_def, Option.some.injEq, reduceCtorEq] at h
  -- a variant a case, in the order of their names
  · obtain ⟨r, -, text, -, rfl⟩ := h
    rfl
  · obtain ⟨r, -, options, -, rfl⟩ := h
    rfl
  · obtain ⟨r, hr, channel, -, track, -, volume, hvolume, rfl⟩ := h
    exact undoes_float.of_required (hfinite hr) hvolume
  · obtain ⟨r, -, track, -, rfl⟩ := h
    rfl
  · obtain ⟨r, hr, target, htarget, animation, -, rfl⟩ := h
    exact undoes_optionalObject.of_nullable (hfinite hr) htarget
  · obtain ⟨r, hr, actor, hactor, x, hx, y, hy, rfl⟩ := h
    simp only [expressible, Bool.and_eq_true]
    exact ⟨⟨ObjectId.undoes.of_required (hfinite hr) hactor,
      undoes_float.of_required (hfinite hr) hx⟩, undoes_float.of_required (hfinite hr) hy⟩
  · obtain ⟨r, hr, caster, hcaster, skill, hskill, target, htarget, rfl⟩ := h
    simp only [expressible, Bool.and_eq_true]
    exact ⟨⟨ObjectId.undoes.of_required (hfinite hr) hcaster,
      ObjectId.undoes.of_required (hfinite hr) hskill⟩,
      undoes_optionalObject.of_nullable (hfinite hr) htarget⟩
  · obtain ⟨r, -, message, -, rfl⟩ := h
    rfl

theorem HostCall.undoes : Undoes HostCall.decode? HostCall.encode HostCall.expressible where
  read_write {c} hc := decode?_encode c hc
  of_read {_ _} hj h := expressible_of_decode? hj h

theorem HostCall.readable_encode (c : HostCall) : c.encode.readable := by
  have hobject : ∀ o, (ofOption ObjectId.encode o).readable := readable_ofOption fun _ => rfl
  have hstring : ∀ o, (ofOption string o).readable := readable_ofOption fun _ => rfl
  cases c <;> simp [encode, tagged, ObjectId.encode, hobject, hstring]

theorem HostCall.undoesWhole :
    Undoes (whole? HostCall.decode?) HostCall.encode HostCall.expressible :=
  HostCall.undoes.whole readable_encode

/-! ## Scenarios -/

/-- Is there JSON for the action? -/
def PlayerAction.expressible : PlayerAction → Bool
  | .choose index => isWord index
  | .resume => true

theorem PlayerAction.undoes :
    Undoes PlayerAction.decode? PlayerAction.encode PlayerAction.expressible where
  read_write {a} ha := by
    cases a with
    | choose index =>
      simp -implicitDefEqProofs [decode?, encode, plainRecord?_eq, undoes_word64.read_write ha]
    | resume => simp [decode?, encode, isBare]
  of_read {j a} hj h := by
    simp only [decode?, Option.bind_eq_bind, Option.bind_eq_some_iff] at h
    obtain ⟨⟨tag, content⟩, hvariant, h⟩ := h
    split at h <;>
      simp only [Option.bind_eq_some_iff, Option.pure_def, Option.some.injEq, reduceCtorEq,
        Option.ite_none_right_eq_some] at h
    · obtain ⟨r, hr, index, hindex, rfl⟩ := h
      exact undoes_word64.of_required (Record.finite_of_variant? hj hvariant hr) hindex
    · obtain ⟨-, rfl⟩ := h
      rfl

theorem PlayerAction.undoesWhole :
    Undoes (whole? PlayerAction.decode?) PlayerAction.encode PlayerAction.expressible :=
  PlayerAction.undoes.whole fun a => by cases a <;> simp [encode, tagged]

/-- Is there JSON for the scenario? -/
def Scenario.expressible (s : Scenario) : Bool :=
  s.frameMs.isFinite && isWord s.maxFrames &&
    s.randomSeed.all (fun n => decide (n < UInt32.size)) &&
    s.actions.all PlayerAction.expressible && s.expectedCalls.all HostCall.expressible

theorem Scenario.undoes : Undoes Scenario.decode? Scenario.encode Scenario.expressible where
  read_write {s} hs := by
    simp only [expressible, Bool.and_eq_true] at hs
    obtain ⟨⟨⟨⟨hframe, hframes⟩, hseed⟩, hactions⟩, hcalls⟩ := hs
    rw [decode?]
    refine Option.bind_eq_some_iff.2 ⟨_, plainRecord?_eq rfl (by simp), ?_⟩
    refine Option.bind_eq_some_iff.2 ⟨_, undoes_string.required rfl rfl, ?_⟩
    refine Option.bind_eq_some_iff.2 ⟨_, undoes_string.orElse rfl rfl _, ?_⟩
    refine Option.bind_eq_some_iff.2 ⟨_, undoes_float.orElse hframe rfl _, ?_⟩
    refine Option.bind_eq_some_iff.2 ⟨_, undoes_word64.orElse hframes rfl _, ?_⟩
    refine Option.bind_eq_some_iff.2 ⟨_, undoes_optionalWord32.nullable hseed rfl, ?_⟩
    refine Option.bind_eq_some_iff.2 ⟨_, PlayerAction.undoesWhole.list.orElse hactions rfl _, ?_⟩
    refine Option.bind_eq_some_iff.2 ⟨_, HostCall.undoesWhole.list.orElse hcalls rfl _, ?_⟩
    rfl
  of_read {j s} hj h := by
    rw [decode?] at h
    obtain ⟨r, hr, h⟩ := Option.bind_eq_some_iff.1 h
    obtain ⟨version, -, h⟩ := Option.bind_eq_some_iff.1 h
    obtain ⟨entry, -, h⟩ := Option.bind_eq_some_iff.1 h
    obtain ⟨frameMs, hframe, h⟩ := Option.bind_eq_some_iff.1 h
    obtain ⟨maxFrames, hframes, h⟩ := Option.bind_eq_some_iff.1 h
    obtain ⟨seed, hseed, h⟩ := Option.bind_eq_some_iff.1 h
    obtain ⟨actions, hactions, h⟩ := Option.bind_eq_some_iff.1 h
    obtain ⟨calls, hcalls, h⟩ := Option.bind_eq_some_iff.1 h
    obtain rfl := Option.some.inj h
    have hfinite := Record.finite_of_record? hj hr
    simp only [expressible, Bool.and_eq_true]
    exact ⟨⟨⟨⟨undoes_float.of_orElse hfinite rfl hframe,
      undoes_word64.of_orElse hfinite rfl hframes⟩,
      undoes_optionalWord32.of_nullable hfinite hseed⟩,
      PlayerAction.undoesWhole.list.of_orElse hfinite rfl hactions⟩,
      HostCall.undoesWhole.list.of_orElse hfinite rfl hcalls⟩

end Cutscene
