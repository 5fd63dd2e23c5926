import Cutscene.Proofs.Descriptor.Operand
import Cutscene.Proofs.Event.Form
import Cutscene.Proofs.Scheduler.Form
/-!
# Json — the types that are exchanged as JSON

`Format` lists these types, each with its encoder and decoder: values, what authors
describe, events, what a host is asked, scenarios and snapshots. For all of them decoding
undoes encoding, and what was decoded and encoded once is decoded and encoded to itself
(`Format.decode?_undoes_encode`), whatever names, tags and defaults it was first read from.
-/

namespace Cutscene

/-- A type that is exchanged as JSON. -/
inductive Format where
  | value
  | variableRef
  | objectDesc
  | numberInput
  | stringInput
  | booleanInput
  | valueOperand
  | instruction
  | event
  | ambient
  | boundary
  | hostCall
  | scenario
  | snapshot

namespace Format

/-- The type itself. -/
def Carrier : Format → Type
  | value => Value
  | variableRef => VariableRef
  | objectDesc => ObjectDesc
  | numberInput => NumberInput
  | stringInput => StringInput
  | booleanInput => BooleanInput
  | valueOperand => ValueOperand
  | instruction => Instruction
  | event => EventDef
  | ambient => Ambient
  | boundary => Boundary
  | hostCall => HostCall
  | scenario => Scenario
  | snapshot => Snapshot

/-- Its values as JSON. -/
def encode : (f : Format) → f.Carrier → Json
  | value => Value.encode
  | variableRef => VariableRef.encode
  | objectDesc => ObjectDesc.encode
  | numberInput => NumberInput.encode
  | stringInput => StringInput.encode
  | booleanInput => BooleanInput.encode
  | valueOperand => ValueOperand.encode
  | instruction => Instruction.encode
  | event => EventDef.encode
  | ambient => Ambient.encode
  | boundary => Boundary.encode
  | hostCall => HostCall.encode
  | scenario => Scenario.encode
  | snapshot => Snapshot.encode

/-- Its value in JSON. -/
def decode? : (f : Format) → Json → Option f.Carrier
  | value => Value.decode?
  | variableRef => VariableRef.decode?
  | objectDesc => ObjectDesc.decode?
  | numberInput => NumberInput.decode?
  | stringInput => StringInput.decode?
  | booleanInput => BooleanInput.decode?
  | valueOperand => ValueOperand.decode?
  | instruction => Instruction.decode?
  | event => EventDef.decode?
  | ambient => Ambient.decode?
  | boundary => Boundary.decode?
  | hostCall => HostCall.decode?
  | scenario => Scenario.decode?
  | snapshot => Snapshot.decode?

/-- Is there JSON for the value: are its doubles finite, and its numbers words of the width
they are read in? -/
def expressible : (f : Format) → f.Carrier → Bool
  | value => Value.expressible
  | variableRef => VariableRef.expressible
  | objectDesc => ObjectDesc.expressible
  | numberInput => NumberInput.expressible
  | stringInput => StringInput.expressible
  | booleanInput => BooleanInput.expressible
  | valueOperand => ValueOperand.expressible
  | instruction => Instruction.expressible
  | event => EventDef.expressible
  | ambient => Ambient.expressible
  | boundary => fun _ => true
  | hostCall => HostCall.expressible
  | scenario => Scenario.expressible
  | snapshot => Snapshot.expressible

/-- JSON decoded and encoded again: every field present, under its main name. -/
def recode? (f : Format) (j : Json) : Option Json := (f.decode? j).map f.encode

theorem undoes (f : Format) : Json.Undoes f.decode? f.encode f.expressible := by
  cases f with
  | value => exact Value.undoes
  | variableRef => exact VariableRef.undoes false
  | objectDesc => exact ObjectDesc.undoes false
  | numberInput => exact NumberInput.undoes
  | stringInput => exact StringInput.undoes
  | booleanInput => exact BooleanInput.undoes
  | valueOperand => exact ValueOperand.undoes false
  | instruction => exact Instruction.undoes
  | event => exact EventDef.undoes
  | ambient => exact Ambient.undoes
  | boundary => exact Boundary.undoes
  | hostCall => exact HostCall.undoes
  | scenario => exact Scenario.undoes
  | snapshot => exact Snapshot.undoes

/-- **Decoding undoes encoding, and recoding is idempotent.** The doubles of JSON are finite;
whatever is decoded from it is expressible, so the first half applies to it. -/
theorem decode?_undoes_encode (f : Format) :
    (∀ x, f.expressible x → f.decode? (f.encode x) = some x) ∧
      ∀ j k, j.allFinite → f.recode? j = some k → f.recode? k = some k := by
  refine ⟨fun x hx => f.undoes.read_write hx, fun j k hj hk => ?_⟩
  obtain ⟨x, hx, rfl⟩ := Option.map_eq_some_iff.1 hk
  have hexpressible : f.expressible x := f.undoes.of_read hj hx
  rw [recode?, f.undoes.read_write hexpressible, Option.map_some]

/-- Circumstances of which only the owner is told, beside a field that is not known. -/
def ownerOnly : Json := .object [("note", .null), ("owner", .int 7)]

/-- The same with every field. -/
def ownerInFull : Json := Ambient.encode ⟨none, none, none, some ⟨7⟩, .empty⟩

theorem decode?_undoes_encode_owner :
    (value.expressible (Value.list [.number 0.5, .event ⟨3⟩]) ∧
      value.decode? (value.encode (Value.list [.number 0.5, .event ⟨3⟩])) =
        some (Value.list [.number 0.5, .event ⟨3⟩])) ∧
    (ownerOnly.allFinite ∧ ambient.recode? ownerOnly = some ownerInFull ∧
      ambient.recode? ownerInFull = some ownerInFull) := by
  have hvalue : value.expressible (Value.list [.number 0.5, .event ⟨3⟩]) := by rfl
  have hfinite : ownerOnly.allFinite := by rfl
  have hrecode : ambient.recode? ownerOnly = some ownerInFull := by rfl
  exact ⟨⟨hvalue, (decode?_undoes_encode value).1 _ hvalue⟩,
    hfinite, hrecode, (decode?_undoes_encode ambient).2 _ _ hfinite hrecode⟩

end Format

end Cutscene
