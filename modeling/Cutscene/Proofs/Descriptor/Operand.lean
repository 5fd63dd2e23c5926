import Cutscene.Descriptor.Operand
import Cutscene.Proofs.Descriptor.Reference
/-!
# Descriptors — operands as JSON

Decoding undoes encoding for every operand whose numbers are finite and whose variables
and objects have JSON themselves. An input written out and one described are told apart
without a tag (`Undoes.untagged`): a description is an object, which is no number, text
or boolean.
-/

namespace Cutscene

open Json

theorem ObjectKind.undoes : Undoes ObjectKind.decodeInner? ObjectKind.encode fun _ => true :=
  undoes_innerOneOf fun k => by cases k <;> rfl

theorem MathMethod.undoes :
    Undoes (innerOneOf? MathMethod.names) (fun m => .string m.name) fun _ => true :=
  undoes_innerOneOf fun m => by cases m <;> rfl

theorem TextMeasure.undoes :
    Undoes (innerOneOf? TextMeasure.names) (fun m => .string m.name) fun _ => true :=
  undoes_innerOneOf fun m => by cases m <;> rfl

theorem ObjectMeasure.undoes :
    Undoes (innerOneOf? ObjectMeasure.names) (fun m => .string m.name) fun _ => true :=
  undoes_innerOneOf fun m => by cases m <;> rfl

theorem ClockMeasure.undoes :
    Undoes (innerOneOf? ClockMeasure.names) (fun m => .string m.name) fun _ => true :=
  undoes_innerOneOf fun m => by cases m <;> rfl

theorem ObjectText.undoes :
    Undoes (innerOneOf? ObjectText.names) (fun m => .string m.name) fun _ => true :=
  undoes_innerOneOf fun m => by cases m <;> rfl

theorem onlyMethod?_string (method : String) : onlyMethod? method (.string method) = some () := by
  simp [onlyMethod?, innerOneOf?, oneOf?]

theorem VariableRef.encode_ne_null (ref : VariableRef) : ref.encode ≠ .null := by
  cases ref <;> simp [encode, tagged]

theorem VariableRef.undoesInner :
    Undoes VariableRef.decodeInner? VariableRef.encode VariableRef.expressible :=
  VariableRef.undoes true

theorem ObjectDesc.undoesInner :
    Undoes ObjectDesc.decodeInner? ObjectDesc.encode ObjectDesc.expressible :=
  ObjectDesc.undoes true

theorem undoes_optionalRef : Undoes (Record.orNull? VariableRef.decodeInner?)
    (ofOption VariableRef.encode) (·.all VariableRef.expressible) :=
  VariableRef.undoesInner.orNull fun ref _ => ref.encode_ne_null

/-! ## Numbers -/

/-- Is there JSON for the described number? -/
def NumberOperand.expressible : NumberOperand → Bool
  | .constant value => value.isFinite
  | .variable ref | .text _ ref _ | .listLength ref => ref.expressible
  | .math _ ref min max decimals =>
    ref.all (·.expressible) && min.all Float.isFinite && max.all Float.isFinite &&
      decimals.all fun n => decide (n < UInt32.size)
  | .object desc _ _ => desc.expressible
  | .parameter _ | .clock _ => true

theorem NumberOperand.decode?_encode (n : NumberOperand) (hn : n.expressible) :
    decode? n.encode = some n := by
  cases n with
  | constant value => simp [decode?, encode, plainRecord?_eq, undoes_float.read_write hn]
  | «variable» ref =>
    simp [decode?, encode, plainRecord?_eq, VariableRef.undoesInner.read_write hn]
  | math method ref min max decimals =>
    simp only [expressible, Bool.and_eq_true] at hn
    obtain ⟨⟨⟨href, hmin⟩, hmax⟩, hdecimals⟩ := hn
    simp -implicitDefEqProofs [decode?, encode, plainRecord?_eq, List.lookup_cons,
      MathMethod.undoes.read_write, undoes_optionalRef.read_write href,
      undoes_optionalFloat.read_write hmin, undoes_optionalFloat.read_write hmax,
      undoes_optionalWord32.read_write hdecimals]
  | text measure ref search =>
    simp [decode?, encode, plainRecord?_eq, List.lookup_cons, TextMeasure.undoes.read_write,
      VariableRef.undoesInner.read_write hn, undoes_optionalString.read_write]
  | object desc kind measure =>
    simp [decode?, encode, plainRecord?_eq, List.lookup_cons, ObjectKind.undoes.read_write,
      ObjectMeasure.undoes.read_write, ObjectDesc.undoesInner.read_write hn]
  | listLength ref =>
    simp [decode?, encode, plainRecord?_eq, List.lookup_cons, onlyMethod?_string,
      VariableRef.undoesInner.read_write hn]
  | parameter key => simp [decode?, encode, plainRecord?_eq, string?]
  | clock measure =>
    simp [decode?, encode, plainRecord?_eq, ClockMeasure.undoes.read_write]

theorem NumberOperand.expressible_of_decode? {j : Json} {n : NumberOperand} (hj : j.allFinite)
    (h : decode? j = some n) : n.expressible := by
  simp only [decode?, Option.bind_eq_bind, Option.bind_eq_some_iff] at h
  obtain ⟨⟨tag, content⟩, hvariant, h⟩ := h
  have hfinite {names r} (hr : plainRecord? names content = some r) : r.Finite :=
    Record.finite_of_variant? hj hvariant hr
  split at h <;>
    simp only [Option.bind_eq_some_iff, Option.pure_def, Option.some.injEq, reduceCtorEq] at h
  -- a variant a case, in the order of their names
  · obtain ⟨r, hr, value, hvalue, rfl⟩ := h
    exact undoes_float.of_required (hfinite hr) hvalue
  · obtain ⟨r, hr, ref, href, rfl⟩ := h
    exact VariableRef.undoesInner.of_required (hfinite hr) href
  · obtain ⟨r, hr, method, -, ref, href, min, hmin, max, hmax, decimals, hdecimals, rfl⟩ := h
    simp only [expressible, Bool.and_eq_true]
    exact ⟨⟨⟨undoes_optionalRef.of_nullable (hfinite hr) href,
      undoes_optionalFloat.of_nullable (hfinite hr) hmin⟩,
      undoes_optionalFloat.of_nullable (hfinite hr) hmax⟩,
      undoes_optionalWord32.of_nullable (hfinite hr) hdecimals⟩
  · obtain ⟨r, hr, measure, -, ref, href, search, -, rfl⟩ := h
    exact VariableRef.undoesInner.of_required (hfinite hr) href
  · obtain ⟨r, hr, desc, hdesc, kind, -, measure, -, rfl⟩ := h
    exact ObjectDesc.undoesInner.of_required (hfinite hr) hdesc
  · obtain ⟨r, hr, _, -, ref, href, rfl⟩ := h
    exact VariableRef.undoesInner.of_required (hfinite hr) href
  · obtain ⟨r, -, key, -, rfl⟩ := h
    rfl
  · obtain ⟨r, -, measure, -, rfl⟩ := h
    rfl

theorem NumberOperand.undoes :
    Undoes NumberOperand.decode? NumberOperand.encode NumberOperand.expressible where
  read_write {n} hn := decode?_encode n hn
  of_read {_ _} hj h := expressible_of_decode? hj h

/-- Is there JSON for the number? -/
def NumberInput.expressible : NumberInput → Bool
  | .literal value => value.isFinite
  | .operand described => described.expressible

theorem NumberInput.undoes :
    Undoes NumberInput.decode? NumberInput.encode NumberInput.expressible :=
  Undoes.untagged literal operand undoes_float NumberOperand.undoes
    (fun j => by rw [decode?]; cases float? j <;> rfl)
    (fun n => by cases n <;> simp)
    (fun d => by cases d <;> rfl)

/-! ## Texts -/

/-- Is there JSON for the described text? -/
def StringOperand.expressible : StringOperand → Bool
  | .variable ref | .join ref _ => ref.expressible
  | .number input decimals =>
    input.expressible && decimals.all fun n => decide (n < UInt32.size)
  | .object desc _ _ => desc.expressible
  | .constant _ | .template _ | .parameter _ | .eventName => true

theorem StringOperand.decode?_encode (t : StringOperand) (ht : t.expressible) :
    decode? t.encode = some t := by
  cases t with
  | constant value => simp [decode?, encode, plainRecord?_eq, string?]
  | «variable» ref =>
    simp [decode?, encode, plainRecord?_eq, VariableRef.undoesInner.read_write ht]
  | template value => simp [decode?, encode, plainRecord?_eq, string?]
  | number input decimals =>
    simp only [expressible, Bool.and_eq_true] at ht
    simp -implicitDefEqProofs [decode?, encode, plainRecord?_eq, List.lookup_cons,
      NumberInput.undoes.read_write ht.1, undoes_optionalWord32.read_write ht.2]
  | object desc kind property =>
    simp [decode?, encode, plainRecord?_eq, List.lookup_cons, ObjectKind.undoes.read_write,
      ObjectText.undoes.read_write, ObjectDesc.undoesInner.read_write ht]
  | join ref separator =>
    simp [decode?, encode, plainRecord?_eq, List.lookup_cons, onlyMethod?_string,
      VariableRef.undoesInner.read_write ht, undoes_optionalString.read_write]
  | parameter key => simp [decode?, encode, plainRecord?_eq, string?]
  | eventName => simp [decode?, encode, plainRecord?_eq, onlyMethod?_string]

theorem StringOperand.expressible_of_decode? {j : Json} {t : StringOperand} (hj : j.allFinite)
    (h : decode? j = some t) : t.expressible := by
  simp only [decode?, Option.bind_eq_bind, Option.bind_eq_some_iff] at h
  obtain ⟨⟨tag, content⟩, hvariant, h⟩ := h
  have hfinite {names r} (hr : plainRecord? names content = some r) : r.Finite :=
    Record.finite_of_variant? hj hvariant hr
  split at h <;>
    simp only [Option.bind_eq_some_iff, Option.pure_def, Option.some.injEq, reduceCtorEq] at h
  -- a variant a case, in the order of their names
  · obtain ⟨r, -, value, -, rfl⟩ := h
    rfl
  · obtain ⟨r, hr, ref, href, rfl⟩ := h
    exact VariableRef.undoesInner.of_required (hfinite hr) href
  · obtain ⟨r, -, value, -, rfl⟩ := h
    rfl
  · obtain ⟨r, hr, input, hinput, decimals, hdecimals, rfl⟩ := h
    simp only [expressible, Bool.and_eq_true]
    exact ⟨NumberInput.undoes.of_required (hfinite hr) hinput,
      undoes_optionalWord32.of_nullable (hfinite hr) hdecimals⟩
  · obtain ⟨r, hr, desc, hdesc, kind, -, property, -, rfl⟩ := h
    exact ObjectDesc.undoesInner.of_required (hfinite hr) hdesc
  · obtain ⟨r, hr, _, -, ref, href, separator, -, rfl⟩ := h
    exact VariableRef.undoesInner.of_required (hfinite hr) href
  · obtain ⟨r, -, key, -, rfl⟩ := h
    rfl
  · obtain ⟨r, -, _, -, rfl⟩ := h
    rfl

theorem StringOperand.undoes :
    Undoes StringOperand.decode? StringOperand.encode StringOperand.expressible where
  read_write {t} ht := decode?_encode t ht
  of_read {_ _} hj h := expressible_of_decode? hj h

/-- Is there JSON for the text? -/
def StringInput.expressible : StringInput → Bool
  | .literal _ => true
  | .operand described => described.expressible

theorem StringInput.undoes :
    Undoes StringInput.decode? StringInput.encode StringInput.expressible :=
  Undoes.untagged literal operand undoes_string StringOperand.undoes
    (fun j => by rw [decode?]; cases string? j <;> rfl)
    (fun t => by cases t <;> simp)
    (fun d => by cases d <;> rfl)

/-! ## Booleans -/

/-- Is there JSON for the described boolean? -/
def BooleanOperand.expressible : BooleanOperand → Bool
  | .constant _ => true
  | .variable ref => ref.expressible

theorem BooleanOperand.undoes :
    Undoes BooleanOperand.decode? BooleanOperand.encode BooleanOperand.expressible where
  read_write {b} hb := by
    cases b with
    | constant value => simp [decode?, encode, plainRecord?_eq, bool?]
    | «variable» ref =>
      simp [decode?, encode, plainRecord?_eq, VariableRef.undoesInner.read_write hb]
  of_read {j b} hj h := by
    simp only [decode?, Option.bind_eq_bind, Option.bind_eq_some_iff] at h
    obtain ⟨⟨tag, content⟩, hvariant, h⟩ := h
    split at h <;>
      simp only [Option.bind_eq_some_iff, Option.pure_def, Option.some.injEq, reduceCtorEq] at h
    · obtain ⟨r, -, value, -, rfl⟩ := h
      rfl
    · obtain ⟨r, hr, ref, href, rfl⟩ := h
      exact VariableRef.undoesInner.of_required (Record.finite_of_variant? hj hvariant hr) href

/-- Is there JSON for the boolean? -/
def BooleanInput.expressible : BooleanInput → Bool
  | .literal _ => true
  | .operand described => described.expressible

theorem BooleanInput.undoes :
    Undoes BooleanInput.decode? BooleanInput.encode BooleanInput.expressible :=
  Undoes.untagged literal operand undoes_bool BooleanOperand.undoes
    (fun j => by rw [decode?]; cases bool? j <;> rfl)
    (fun b => by cases b <;> simp)
    (fun d => by cases d <;> rfl)

/-! ## Operands of any type -/

/-- Is there JSON for the operand? -/
def ValueOperand.expressible : ValueOperand → Bool
  | .nothing => true
  | .boolean value => value.expressible
  | .number value => value.expressible
  | .string value => value.expressible
  | .object desc _ => desc.expressible
  | .variable ref => ref.expressible

theorem ValueOperand.undoes (inner : Bool) :
    Undoes (ValueOperand.read? inner) ValueOperand.encode ValueOperand.expressible where
  read_write {v} hv := by
    cases v with
    | nothing => simp [read?, encode, isBare]
    | boolean value => simp [read?, encode, plainRecord?_eq, BooleanInput.undoes.read_write hv]
    | number value => simp [read?, encode, plainRecord?_eq, NumberInput.undoes.read_write hv]
    | string value => simp [read?, encode, plainRecord?_eq, StringInput.undoes.read_write hv]
    | object desc kind =>
      simp [read?, encode, plainRecord?_eq, List.lookup_cons, ObjectKind.undoes.read_write,
        ObjectDesc.undoesInner.read_write hv]
    | «variable» ref =>
      simp [read?, encode, plainRecord?_eq, VariableRef.undoesInner.read_write hv]
  of_read {j v} hj h := by
    simp only [read?, Option.bind_eq_bind, Option.bind_eq_some_iff] at h
    obtain ⟨⟨tag, content⟩, hvariant, h⟩ := h
    have hfinite {names r} (hr : plainRecord? names content = some r) : r.Finite :=
      Record.finite_of_variant? hj hvariant hr
    split at h <;>
      simp only [Option.bind_eq_some_iff, Option.pure_def, Option.some.injEq, reduceCtorEq,
        Option.ite_none_right_eq_some] at h
    -- a variant a case, in the order of their names
    · obtain ⟨-, rfl⟩ := h
      rfl
    · obtain ⟨r, hr, value, hvalue, rfl⟩ := h
      exact BooleanInput.undoes.of_required (hfinite hr) hvalue
    · obtain ⟨r, hr, value, hvalue, rfl⟩ := h
      exact NumberInput.undoes.of_required (hfinite hr) hvalue
    · obtain ⟨r, hr, value, hvalue, rfl⟩ := h
      exact StringInput.undoes.of_required (hfinite hr) hvalue
    · obtain ⟨r, hr, desc, hdesc, kind, -, rfl⟩ := h
      exact ObjectDesc.undoesInner.of_required (hfinite hr) hdesc
    · obtain ⟨r, hr, ref, href, rfl⟩ := h
      exact VariableRef.undoesInner.of_required (hfinite hr) href

end Cutscene
