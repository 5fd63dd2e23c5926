import Cutscene.Proofs.Event.Form
import Cutscene.Proofs.Scheduler.Legible
/-!
# Scheduler — the form of snapshots in JSON

Decoding undoes encoding for every snapshot whose numbers are finite and whose places
and identities are 64-bit words (`Snapshot.undoes`). Unlike what is legible, this is
about JSON and not about its text, so lists may nest as deeply as they like and every
double is read as it was.
-/

namespace Cutscene

open Json

theorem Pointer.undoes : Undoes Pointer.decode? Pointer.encode Pointer.legible where
  read_write {p} hp := by
    simp only [legible, Bool.and_eq_true] at hp
    simp only [decode?, Option.bind_eq_bind, Option.bind_eq_some_iff, Option.pure_def]
    exact ⟨_, plainRecord?_eq rfl (by simp), _, undoes_string.required rfl rfl,
      _, undoes_word64.required hp.1 rfl, _, undoes_word64.required hp.2 rfl, rfl⟩
  of_read {j p} hj h := by
    simp only [decode?, Option.bind_eq_bind, Option.bind_eq_some_iff, Option.pure_def,
      Option.some.injEq] at h
    obtain ⟨r, hr, program, -, length, hlength, index, hindex, rfl⟩ := h
    have hfinite := Record.finite_of_record? hj hr
    simp only [legible, Bool.and_eq_true]
    exact ⟨undoes_word64.of_required hfinite hlength, undoes_word64.of_required hfinite hindex⟩

/-- Is there JSON for the iteration? -/
def Iteration.expressible (i : Iteration) : Bool :=
  i.items.toList.all Value.expressible && isWord i.index

theorem Iteration.undoes : Undoes Iteration.decode? Iteration.encode Iteration.expressible where
  read_write {i} hi := by
    simp only [expressible, Bool.and_eq_true] at hi
    simp only [decode?, Option.bind_eq_bind, Option.bind_eq_some_iff, Option.pure_def]
    exact ⟨_, plainRecord?_eq rfl (by simp), _, Value.undoesWhole.list.required hi.1 rfl,
      _, undoes_word64.required hi.2 rfl, rfl⟩
  of_read {j i} hj h := by
    simp only [decode?, Option.bind_eq_bind, Option.bind_eq_some_iff, Option.pure_def,
      Option.some.injEq] at h
    obtain ⟨r, hr, items, hitems, index, hindex, rfl⟩ := h
    have hfinite := Record.finite_of_record? hj hr
    simp only [expressible, Bool.and_eq_true]
    exact ⟨Value.undoesWhole.list.of_required hfinite hitems,
      undoes_word64.of_required hfinite hindex⟩

/-- Is there JSON for the call? -/
def SavedCall.expressible (c : SavedCall) : Bool :=
  c.position.legible && c.parameters.expressible

theorem SavedCall.undoes : Undoes SavedCall.decode? SavedCall.encode SavedCall.expressible where
  read_write {c} hc := by
    simp only [expressible, Bool.and_eq_true] at hc
    simp only [decode?, Option.bind_eq_bind, Option.bind_eq_some_iff, Option.pure_def]
    exact ⟨_, plainRecord?_eq rfl (by simp), _, Pointer.undoes.required hc.1 rfl,
      _, Attributes.undoes.required hc.2 rfl, rfl⟩
  of_read {j c} hj h := by
    simp only [decode?, Option.bind_eq_bind, Option.bind_eq_some_iff, Option.pure_def,
      Option.some.injEq] at h
    obtain ⟨r, hr, position, hposition, parameters, hparameters, rfl⟩ := h
    have hfinite := Record.finite_of_record? hj hr
    simp only [expressible, Bool.and_eq_true]
    exact ⟨Pointer.undoes.of_required hfinite hposition,
      Attributes.undoes.of_required hfinite hparameters⟩

theorem SavedState.undoes : Undoes SavedState.decode? SavedState.encode SavedState.legible where
  read_write {s} hs := by
    cases s with
    | running | paused => simp [decode?, encode, isBare]
    | waiting remainingMs =>
      simp [decode?, encode, plainRecord?_eq, undoes_float.read_write hs]
  of_read {j s} hj h := by
    simp only [decode?, Option.bind_eq_bind, Option.bind_eq_some_iff] at h
    obtain ⟨⟨tag, content⟩, hvariant, h⟩ := h
    split at h <;>
      simp only [Option.bind_eq_some_iff, Option.pure_def, Option.some.injEq, reduceCtorEq,
        Option.ite_none_right_eq_some] at h
    · obtain ⟨-, rfl⟩ := h
      rfl
    · obtain ⟨-, rfl⟩ := h
      rfl
    · obtain ⟨r, hr, remainingMs, hremaining, rfl⟩ := h
      exact undoes_float.of_required (Record.finite_of_variant? hj hvariant hr) hremaining

theorem SavedState.undoesWhole :
    Undoes (whole? SavedState.decode?) SavedState.encode SavedState.legible :=
  SavedState.undoes.whole fun s => by cases s <;> simp [encode, tagged]

theorem undoes_optionalBoundary : Undoes (Record.orNull? (whole? Boundary.decode?))
    (ofOption Boundary.encode) (·.all fun _ => true) :=
  (Boundary.undoes.whole Boundary.readable_encode).orNull fun b _ => b.encode_ne_null

/-- Is there JSON for the context? -/
def SavedContext.expressible (c : SavedContext) : Bool :=
  isWord c.id.val && c.root.legible && c.position.legible &&
    c.callStack.all SavedCall.expressible && c.jumpReturns.all Pointer.legible &&
    c.attributes.expressible && c.forEach.all Iteration.expressible && c.state.legible &&
    c.choice.all isWord && c.ambient.expressible

theorem SavedContext.undoes :
    Undoes SavedContext.decode? SavedContext.encode SavedContext.expressible where
  read_write {c} hc := by
    simp only [expressible, Bool.and_eq_true] at hc
    obtain ⟨⟨⟨⟨⟨⟨⟨⟨⟨hid, hroot⟩, hposition⟩, hcalls⟩, hreturns⟩, hattributes⟩, hforEach⟩, hstate⟩,
      hchoice⟩, hambient⟩ := hc
    rw [decode?]
    refine Option.bind_eq_some_iff.2 ⟨_, plainRecord?_eq rfl (by simp), ?_⟩
    refine Option.bind_eq_some_iff.2 ⟨_, EventId.undoes.required hid rfl, ?_⟩
    refine Option.bind_eq_some_iff.2 ⟨_, undoes_string.required rfl rfl, ?_⟩
    refine Option.bind_eq_some_iff.2 ⟨_, Pointer.undoes.required hroot rfl, ?_⟩
    refine Option.bind_eq_some_iff.2 ⟨_, Pointer.undoes.required hposition rfl, ?_⟩
    refine Option.bind_eq_some_iff.2 ⟨_, SavedCall.undoes.list.required hcalls rfl, ?_⟩
    refine Option.bind_eq_some_iff.2 ⟨_, Pointer.undoes.list.required hreturns rfl, ?_⟩
    refine Option.bind_eq_some_iff.2 ⟨_, Attributes.undoes.required hattributes rfl, ?_⟩
    refine Option.bind_eq_some_iff.2 ⟨_, Iteration.undoes.list.required hforEach rfl, ?_⟩
    refine Option.bind_eq_some_iff.2 ⟨_, SavedState.undoesWhole.required hstate rfl, ?_⟩
    refine Option.bind_eq_some_iff.2 ⟨_, undoes_optionalBoundary.optional (by simp) rfl, ?_⟩
    refine Option.bind_eq_some_iff.2 ⟨_, undoes_optionalWord64.optional hchoice rfl, ?_⟩
    refine Option.bind_eq_some_iff.2 ⟨_, Ambient.undoes.required hambient rfl, ?_⟩
    rfl
  of_read {j c} hj h := by
    rw [decode?] at h
    obtain ⟨r, hr, h⟩ := Option.bind_eq_some_iff.1 h
    obtain ⟨id, hid, h⟩ := Option.bind_eq_some_iff.1 h
    obtain ⟨eventName, -, h⟩ := Option.bind_eq_some_iff.1 h
    obtain ⟨root, hroot, h⟩ := Option.bind_eq_some_iff.1 h
    obtain ⟨position, hposition, h⟩ := Option.bind_eq_some_iff.1 h
    obtain ⟨calls, hcalls, h⟩ := Option.bind_eq_some_iff.1 h
    obtain ⟨returns, hreturns, h⟩ := Option.bind_eq_some_iff.1 h
    obtain ⟨attributes, hattributes, h⟩ := Option.bind_eq_some_iff.1 h
    obtain ⟨forEach, hforEach, h⟩ := Option.bind_eq_some_iff.1 h
    obtain ⟨state, hstate, h⟩ := Option.bind_eq_some_iff.1 h
    obtain ⟨boundary, -, h⟩ := Option.bind_eq_some_iff.1 h
    obtain ⟨choice, hchoice, h⟩ := Option.bind_eq_some_iff.1 h
    obtain ⟨ambient, hambient, h⟩ := Option.bind_eq_some_iff.1 h
    obtain rfl := Option.some.inj h
    have hfinite := Record.finite_of_record? hj hr
    simp only [expressible, Bool.and_eq_true]
    exact ⟨⟨⟨⟨⟨⟨⟨⟨⟨EventId.undoes.of_required hfinite hid,
      Pointer.undoes.of_required hfinite hroot⟩,
      Pointer.undoes.of_required hfinite hposition⟩,
      SavedCall.undoes.list.of_required hfinite hcalls⟩,
      Pointer.undoes.list.of_required hfinite hreturns⟩,
      Attributes.undoes.of_required hfinite hattributes⟩,
      Iteration.undoes.list.of_required hfinite hforEach⟩,
      SavedState.undoesWhole.of_required hfinite hstate⟩,
      undoes_optionalWord64.of_optional hfinite hchoice⟩,
      Ambient.undoes.of_required hfinite hambient⟩

/-- Is there JSON for the snapshot? -/
def Snapshot.expressible (s : Snapshot) : Bool :=
  s.globals.expressible && s.selfVars.values.all Attributes.expressible &&
    isWord s.nextEventId && s.contexts.all SavedContext.expressible

theorem Snapshot.undoes : Undoes Snapshot.decode? Snapshot.encode Snapshot.expressible where
  read_write {s} hs := by
    simp only [expressible, Bool.and_eq_true] at hs
    obtain ⟨⟨⟨hglobals, hself⟩, hnext⟩, hcontexts⟩ := hs
    have hstate : decide (s.rngState.toNat < UInt32.size) = true :=
      decide_eq_true s.rngState.toNat_lt
    rw [decode?]
    refine Option.bind_eq_some_iff.2 ⟨_, plainRecord?_eq rfl (by simp), ?_⟩
    refine Option.bind_eq_some_iff.2 ⟨_, undoes_string.required rfl rfl, ?_⟩
    refine Option.bind_eq_some_iff.2 ⟨_, undoes_string.required rfl rfl, ?_⟩
    refine Option.bind_eq_some_iff.2 ⟨_, Attributes.undoes.required hglobals rfl, ?_⟩
    refine Option.bind_eq_some_iff.2 ⟨_, Attributes.undoes.table.required hself rfl, ?_⟩
    refine Option.bind_eq_some_iff.2 ⟨_, undoes_word32.required hstate rfl, ?_⟩
    refine Option.bind_eq_some_iff.2 ⟨_, undoes_word64.required hnext rfl, ?_⟩
    refine Option.bind_eq_some_iff.2 ⟨_, SavedContext.undoes.list.required hcontexts rfl, ?_⟩
    rw [Option.pure_def, UInt32.ofNat_toNat]
  of_read {j s} hj h := by
    rw [decode?] at h
    obtain ⟨r, hr, h⟩ := Option.bind_eq_some_iff.1 h
    obtain ⟨schemaVersion, -, h⟩ := Option.bind_eq_some_iff.1 h
    obtain ⟨compilerVersion, -, h⟩ := Option.bind_eq_some_iff.1 h
    obtain ⟨globals, hglobals, h⟩ := Option.bind_eq_some_iff.1 h
    obtain ⟨selfVars, hself, h⟩ := Option.bind_eq_some_iff.1 h
    obtain ⟨rngState, -, h⟩ := Option.bind_eq_some_iff.1 h
    obtain ⟨next, hnext, h⟩ := Option.bind_eq_some_iff.1 h
    obtain ⟨contexts, hcontexts, h⟩ := Option.bind_eq_some_iff.1 h
    obtain rfl := Option.some.inj h
    have hfinite := Record.finite_of_record? hj hr
    simp only [expressible, Bool.and_eq_true]
    exact ⟨⟨⟨Attributes.undoes.of_required hfinite hglobals,
      Attributes.undoes.table.of_required hfinite hself⟩,
      undoes_word64.of_required hfinite hnext⟩,
      SavedContext.undoes.list.of_required hfinite hcontexts⟩

end Cutscene
