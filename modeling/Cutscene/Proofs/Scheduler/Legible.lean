import Cutscene.Proofs.Json.Codec
import Cutscene.Scheduler.Snapshot
/-!
# Scheduler — which snapshots read back

A snapshot that is written is read back if it is legible, and otherwise nothing can
be read of it (`Snapshot.decode?_reread`), as far as the digits of its numbers
stand for them (`Json.rereads`). Legible are texts, booleans and finite numbers
wherever they stand, whole numbers that fit a word, and lists as long as so many
arrays and objects may open as they need: `room` counts how many may still open
inside the part in question, so a variable of a context has two less than a global
one.
-/

namespace Cutscene

open Json

/-! ## Values -/

namespace Value

mutual

/-- The numbers in the value. -/
def numbers : Value → List Float
  | .number x => [x]
  | .list items => numbersOf items
  | _ => []

/-- The numbers in the values. -/
def numbersOf : List Value → List Float
  | [] => []
  | v :: rest => v.numbers ++ numbersOf rest

end

mutual

/-- Does the value read back, where so many arrays and objects may open? -/
def legible : Nat → Value → Bool
  | _, .number x => x.isFinite
  | room, .list items => decide (0 < room) && legibleItems (room - 1) items
  | room, .object id => decide (0 < room) && isWord id.val
  | room, .event id => decide (0 < room) && isWord id.val
  | _, _ => true

/-- Do the values read back? -/
def legibleItems : Nat → List Value → Bool
  | _, [] => true
  | room, v :: rest => v.legible room && legibleItems room rest

end

theorem decode?_number {room : Nat} {x : Float} (h : rereads x) :
    decode? (reread room (.ofFloat x)) = Option.guard (legible room) (.number x) := by
  have hfloat : float? (reread room (.ofFloat x)) = _ := float?_reread h
  rw [Option.guard, legible]
  cases hx : x.isFinite with
  | true =>
    rw [Option.guard, if_pos hx] at hfloat
    cases hj : reread room (.ofFloat x) <;> simp_all [float?, decode?]
  | false => simp [reread_ofFloat, hx, decode?]

theorem handle?_object (j : Json) :
    handle? (.object [("object", j)]) = (word64? j).map (.object ⟨·⟩) := by
  rw [handle?, required_only, required_absent (by decide)]
  cases word64? j <;> rfl

theorem handle?_event (j : Json) :
    handle? (.object [("event", j)]) = (word64? j).map (.event ⟨·⟩) := by
  rw [handle?, required_only, required_absent (by decide)]

mutual

theorem decode?_reread : (v : Value) → ∀ {room : Nat}, v.numbers.all rereads →
    decode? (reread room v.encode) = Option.guard (legible room) v
  | .bool b, room, _ => by simp [encode, reread, decode?, legible, Option.guard]
  | .string s, room, _ => by simp [encode, reread, decode?, legible, Option.guard]
  | .number x, room, h => by
    simp only [numbers, List.all_cons, List.all_nil, Bool.and_true] at h
    exact decode?_number h
  | .list items, room, h => by
    cases room with
    | zero => simp [encode, reread, decode?, legible, Option.guard]
    | succ room =>
      have hitems : decodeItems? (rereadItems room (encodeItems items)) = _ :=
        decodeItems?_reread items (by simpa [numbers] using h)
      simp only [encode, reread, Nat.add_one_ne_zero, if_false, Nat.add_sub_cancel, decode?, hitems,
        Option.map_guard]
      simp [Option.guard, legible]
  | .object id, room, _ | .event id, room, _ => by
    cases room with
    | zero => simp [encode, reread, decode?, legible, Option.guard]
    | succ room =>
      simp [encode, reread, rereadFields, decode?, handle?_object, handle?_event, legible,
        Option.guard]

theorem decodeItems?_reread : (vs : List Value) → ∀ {room : Nat}, (numbersOf vs).all rereads →
    decodeItems? (rereadItems room (encodeItems vs)) = Option.guard (legibleItems room) vs
  | [], room, _ => by simp [encodeItems, rereadItems, decodeItems?, legibleItems, Option.guard]
  | v :: rest, room, h => by
    simp only [numbersOf, List.all_append, Bool.and_eq_true] at h
    rw [encodeItems, rereadItems, decodeItems?, decode?_reread v h.1, decodeItems?_reread rest h.2]
    cases hv : v.legible room <;> cases hrest : legibleItems room rest <;>
      simp [Option.guard, legibleItems, hv, hrest]

end

mutual

theorem readable_reread : (v : Value) → ∀ {room : Nat}, v.numbers.all rereads → v.legible room →
    (reread room v.encode).readable
  | .bool b, room, _, _ | .string s, room, _, _ => by simp [encode, reread, readable]
  | .number x, room, h, _ => by
    simp only [numbers, List.all_cons, List.all_nil, Bool.and_true] at h
    exact readable_reread_ofFloat h
  | .list items, room, h, hv => by
    simp only [legible, Bool.and_eq_true, decide_eq_true_eq] at hv
    rw [encode, reread, if_neg (by omega), readable]
    exact readableItems_reread items (by simpa [numbers] using h) hv.2
  | .object id, room, _, hv | .event id, room, _, hv => by
    simp only [legible, Bool.and_eq_true, decide_eq_true_eq] at hv
    rw [encode, reread, if_neg (by omega), readable]
    simp [rereadFields, readableFields, readable_reread_ofNat hv.2]

theorem readableItems_reread : (vs : List Value) → ∀ {room : Nat}, (numbersOf vs).all rereads →
    legibleItems room vs → readableItems (rereadItems room (encodeItems vs))
  | [], _, _, _ => by simp [encodeItems, rereadItems, readableItems]
  | v :: rest, room, h, hv => by
    simp only [numbersOf, List.all_append, Bool.and_eq_true] at h
    simp only [legibleItems, Bool.and_eq_true] at hv
    rw [encodeItems, rereadItems, readableItems, readable_reread v h.1 hv.1,
      readableItems_reread rest h.2 hv.2, Bool.and_self]

end

/-- **A value reads back if it is legible**, and otherwise nothing can be read of it. -/
theorem whole?_reread {room : Nat} (v : Value) (h : v.numbers.all rereads) :
    whole? decode? (reread room v.encode) = Option.guard (legible room) v := by
  rw [whole?, decode?_reread v h]
  cases hv : v.legible room with
  | true => rw [if_pos (readable_reread v h hv)]
  | false => simp [Option.guard, hv]

end Value

theorem all_flatMap {α β : Type} {xs : List α} {f : α → List β} {p : β → Bool}
    (h : (xs.flatMap f).all p) : ∀ x ∈ xs, (f x).all p := by
  simpa [List.all_flatMap] using h

namespace Attributes

/-- The numbers in the values. -/
def numbers (a : Attributes) : List Float := a.values.flatMap Value.numbers

/-- Do the values read back? -/
def legible (room : Nat) (a : Attributes) : Bool := a.values.all (·.legible room)

theorem decode?_reread {room : Nat} {a : Attributes} (h : a.numbers.all rereads) :
    decode? (reread (room + 1) a.encode) = Option.guard (legible room) a :=
  table?_reread fun v hv => Value.whole?_reread v (all_flatMap h v hv)

end Attributes

/-! ## Parts of a context -/

/-- Do the numbers in the pointer fit a word? -/
def Pointer.legible (p : Pointer) : Bool := isWord p.length && isWord p.index

theorem Pointer.decode?_reread {room : Nat} (p : Pointer) :
    decode? (reread (room + 1) p.encode) = Option.guard legible p := by
  rw [Option.guard, legible]
  simp [decode?, encode, List.lookup_cons, ite_and]

/-- The numbers in the iteration. -/
def Iteration.numbers (i : Iteration) : List Float := i.items.toList.flatMap Value.numbers

/-- Does the iteration read back? -/
def Iteration.legible (room : Nat) (i : Iteration) : Bool :=
  i.items.toList.all (·.legible room) && isWord i.index

theorem Iteration.decode?_reread {room : Nat} {i : Iteration} (h : i.numbers.all rereads) :
    decode? (reread (room + 2) i.encode) = Option.guard (legible room) i := by
  have hitems : list? (whole? Value.decode?)
      (reread (room + 1) (.ofList Value.encode i.items.toList)) =
        Option.guard (·.all (·.legible room)) i.items.toList :=
    list?_reread fun v hv => Value.whole?_reread v (all_flatMap h v hv)
  rw [Option.guard, legible]
  simp [decode?, encode, List.lookup_cons, hitems, ite_and]

/-- Does the call read back? -/
def SavedCall.legible (room : Nat) (c : SavedCall) : Bool :=
  c.position.legible && c.parameters.legible room

theorem SavedCall.decode?_reread {room : Nat} {c : SavedCall}
    (h : c.parameters.numbers.all rereads) :
    decode? (reread (room + 2) c.encode) = Option.guard (legible room) c := by
  rw [Option.guard, legible]
  simp [decode?, encode, List.lookup_cons, Pointer.decode?_reread, Attributes.decode?_reread h,
    ite_and]

/-- The numbers in the state. -/
def SavedState.numbers : SavedState → List Float
  | .waiting remainingMs => [remainingMs]
  | _ => []

/-- Does the state read back? -/
def SavedState.legible : SavedState → Bool
  | .waiting remainingMs => remainingMs.isFinite
  | _ => true

theorem SavedState.whole?_reread {room : Nat} {s : SavedState} (h : s.numbers.all rereads) :
    whole? decode? (reread (room + 1) s.encode) = Option.guard legible s := by
  cases s with
  | running | paused =>
    simp [encode, legible, decode?, Option.guard, whole?, rereadFields, readableFields]
  | waiting remainingMs =>
    have hx : rereads remainingMs := by simpa [numbers] using h
    have hreadable :
        readableFields (rereadFields room [("remainingMs", .ofFloat remainingMs)]) := by
      simp [rereadFields, readableFields, readable_reread_ofFloat hx]
    rw [Option.guard, legible]
    simp [encode, decode?, whole?, hreadable, float?_reread hx]

theorem readable_reread_texts (room : Nat) (texts : List String) :
    (reread (room + 1) (.ofList .string texts)).readable := by
  have hitems : ∀ ts : List String, readableItems (rereadItems room (ts.map .string)) := by
    intro ts
    induction ts with
    | nil => rfl
    | cons t ts ih => simpa [rereadItems, readableItems, reread, readable] using ih
  simpa [ofList, reread, readable] using hitems texts

theorem Boundary.reread_ne_null {room : Nat} (b : Boundary) :
    reread (room + 1) b.encode ≠ .null := by
  cases b <;> simp [encode, tagged, reread]

/-- A boundary always reads back: it holds nothing but texts. -/
theorem Boundary.whole?_reread {room : Nat} (b : Boundary) :
    whole? decode? (reread (room + 2) b.encode) = some b := by
  cases b with
  | text shown =>
    have hreadable : readableFields (rereadFields (room + 1) [("text", .string shown)]) := by
      simp [rereadFields, readableFields, reread, readable]
    simp [encode, decode?, whole?, hreadable]
  | choice options =>
    have hreadable :
        readableFields (rereadFields (room + 1) [("options", .ofList .string options)]) := by
      simp [rereadFields, readableFields, readable_reread_texts]
    have hoptions : list? string? (reread (room + 1) (.ofList .string options)) = some options := by
      rw [list?_reread (p := fun _ => true) fun s _ => string?_reread s]
      simp [Option.guard]
    simp [encode, decode?, whole?, hreadable, hoptions]
  | signal => simp [encode, decode?, whole?, rereadFields, readableFields]

theorem ObjectId.decode?_reread {room : Nat} (id : ObjectId) :
    decode? (reread room id.encode) = Option.guard (isWord ·.val) id := by
  simp [decode?, encode, Option.guard]

theorem EventId.decode?_reread {room : Nat} (id : EventId) :
    decode? (reread room id.encode) = Option.guard (isWord ·.val) id := by
  simp [decode?, encode, Option.guard]

/-- Do the circumstances read back? -/
def Ambient.legible (room : Nat) (a : Ambient) : Bool :=
  [a.trigger, a.caster, a.target, a.owner].all (·.all (isWord ·.val)) && a.parameters.legible room

theorem Ambient.decode?_reread {room : Nat} {a : Ambient} (h : a.parameters.numbers.all rereads) :
    decode? (reread (room + 2) a.encode) = Option.guard (legible room) a := by
  have hobject : ∀ o, Record.orNull? ObjectId.decode?
      (reread (room + 1) (.ofOption ObjectId.encode o)) = Option.guard (·.all (isWord ·.val)) o :=
    Record.orNull?_reread (fun id => reread_ofNat_ne_null id.val) ObjectId.decode?_reread
  rw [Option.guard, legible]
  simp [encode, decode?, List.lookup_cons, Attributes.decode?_reread h, hobject, ite_and]

/-! ## Contexts and snapshots -/

/-- The numbers in the context. -/
def SavedContext.numbers (c : SavedContext) : List Float :=
  c.callStack.flatMap (·.parameters.numbers) ++ c.attributes.numbers ++
    c.forEach.flatMap Iteration.numbers ++ c.state.numbers ++ c.ambient.parameters.numbers

/-- Does the context read back? -/
def SavedContext.legible (room : Nat) (c : SavedContext) : Bool :=
  isWord c.id.val && c.root.legible && c.position.legible &&
    c.callStack.all (·.legible room) && c.jumpReturns.all Pointer.legible &&
    c.attributes.legible (room + 2) && c.forEach.all (·.legible room) && c.state.legible &&
    c.choice.all isWord && c.ambient.legible (room + 1)

theorem SavedContext.decode?_reread {room : Nat} {c : SavedContext} (h : c.numbers.all rereads) :
    decode? (reread (room + 4) c.encode) = Option.guard (legible room) c := by
  simp only [numbers, List.all_append, Bool.and_eq_true] at h
  obtain ⟨⟨⟨⟨hcalls, hattributes⟩, hforEach⟩, hstate⟩, hambient⟩ := h
  have hcallStack : list? SavedCall.decode?
      (reread (room + 3) (.ofList SavedCall.encode c.callStack)) =
        Option.guard (·.all (·.legible room)) c.callStack :=
    list?_reread fun call hcall => SavedCall.decode?_reread (all_flatMap hcalls call hcall)
  have hreturns : list? Pointer.decode? (reread (room + 3) (.ofList Pointer.encode c.jumpReturns)) =
      Option.guard (·.all Pointer.legible) c.jumpReturns :=
    list?_reread fun p _ => p.decode?_reread
  have hiterations : list? Iteration.decode?
      (reread (room + 3) (.ofList Iteration.encode c.forEach)) =
        Option.guard (·.all (·.legible room)) c.forEach :=
    list?_reread fun i hi => Iteration.decode?_reread (all_flatMap hforEach i hi)
  have hboundary : Record.orNull? (whole? Boundary.decode?)
      (reread (room + 3) (.ofOption Boundary.encode c.boundary)) = some c.boundary := by
    rw [Record.orNull?_reread (p := fun _ => true) Boundary.reread_ne_null fun b => b.whole?_reread]
    simp [Option.guard]
  have hchoice : Record.orNull? word64? (reread (room + 3) (.ofOption .ofNat c.choice)) =
      Option.guard (·.all isWord) c.choice :=
    Record.orNull?_reread reread_ofNat_ne_null word64?_reread c.choice
  rw [Option.guard, legible]
  simp [encode, decode?, List.lookup_cons, EventId.decode?_reread, Pointer.decode?_reread,
    hcallStack, hreturns, Attributes.decode?_reread hattributes, hiterations,
    SavedState.whole?_reread hstate, hboundary, hchoice, Ambient.decode?_reread hambient, ite_and]

/-- The numbers in the snapshot. -/
def Snapshot.numbers (s : Snapshot) : List Float :=
  s.globals.numbers ++ s.selfVars.values.flatMap Attributes.numbers ++
    s.contexts.flatMap SavedContext.numbers

/-- Does the snapshot read back? -/
def Snapshot.legible (room : Nat) (s : Snapshot) : Bool :=
  s.globals.legible (room + 4) && s.selfVars.values.all (·.legible (room + 3)) &&
    isWord s.nextEventId && s.contexts.all (·.legible room)

/-- **A snapshot reads back if it is legible**, and otherwise nothing can be read of
it. -/
theorem Snapshot.decode?_reread {room : Nat} {s : Snapshot} (h : s.numbers.all rereads) :
    decode? (reread (room + 6) s.encode) = Option.guard (legible room) s := by
  simp only [numbers, List.all_append, Bool.and_eq_true] at h
  obtain ⟨⟨hglobals, hselfVars⟩, hcontexts⟩ := h
  have hvars : table? Attributes.decode?
      (reread (room + 5) (.ofTable Attributes.encode s.selfVars)) =
        Option.guard (·.values.all (·.legible (room + 3))) s.selfVars :=
    table?_reread fun a ha => Attributes.decode?_reread (all_flatMap hselfVars a ha)
  have hlist : list? SavedContext.decode?
      (reread (room + 5) (.ofList SavedContext.encode s.contexts)) =
        Option.guard (·.all (·.legible room)) s.contexts :=
    list?_reread fun c hc => SavedContext.decode?_reread (all_flatMap hcontexts c hc)
  -- the random state is a word by its type
  have hrandom : word32? (reread (room + 5) (.ofNat s.rngState.toNat)) = some s.rngState.toNat := by
    rw [word32?_reread, Option.guard, if_pos (decide_eq_true s.rngState.toNat_lt_size)]
  rw [Option.guard, legible]
  simp [encode, decode?, List.lookup_cons, Attributes.decode?_reread hglobals, hvars, hrandom,
    hlist, ite_and]

/-! ## Numbers of what is legible -/

mutual

theorem Value.all_isFinite : (v : Value) → ∀ {room : Nat}, v.legible room →
    v.numbers.all Float.isFinite
  | .number x, _, h => by simpa [legible, numbers] using h
  | .list items, room, h => by
    simp only [legible, Bool.and_eq_true] at h
    exact Value.all_isFinite_items items h.2
  | .bool _, _, _ | .string _, _, _ | .object _, _, _ | .event _, _, _ => rfl

theorem Value.all_isFinite_items : (vs : List Value) → ∀ {room : Nat}, legibleItems room vs →
    (numbersOf vs).all Float.isFinite
  | [], _, _ => rfl
  | v :: rest, room, h => by
    simp only [legibleItems, Bool.and_eq_true] at h
    rw [numbersOf, List.all_append, v.all_isFinite h.1, Value.all_isFinite_items rest h.2,
      Bool.and_self]

end

theorem all_isFinite_flatMap {α : Type} {xs : List α} {p : α → Bool} {f : α → List Float}
    (hxs : xs.all p) (h : ∀ x, p x → (f x).all Float.isFinite) :
    (xs.flatMap f).all Float.isFinite := by
  rw [List.all_flatMap, List.all_eq_true]
  exact fun x hx => h x (List.all_eq_true.1 hxs x hx)

theorem Attributes.all_isFinite {room : Nat} {a : Attributes} (h : a.legible room) :
    a.numbers.all Float.isFinite :=
  all_isFinite_flatMap h fun v => v.all_isFinite

theorem Iteration.all_isFinite {room : Nat} {i : Iteration} (h : i.legible room) :
    i.numbers.all Float.isFinite :=
  all_isFinite_flatMap (Bool.and_eq_true_iff.1 h).1 fun v => v.all_isFinite

theorem SavedContext.all_isFinite {room : Nat} {c : SavedContext} (h : c.legible room) :
    c.numbers.all Float.isFinite := by
  simp only [legible, Bool.and_eq_true] at h
  obtain ⟨⟨⟨⟨⟨⟨⟨-, hcalls⟩, -⟩, hattributes⟩, hforEach⟩, hstate⟩, -⟩, hambient⟩ := h
  have hstates : c.state.numbers.all Float.isFinite := by
    cases hs : c.state with
    | running | paused => rfl
    | waiting remainingMs => simpa [hs, SavedState.legible, SavedState.numbers] using hstate
  have hcallStack := all_isFinite_flatMap hcalls fun call hcall =>
    Attributes.all_isFinite (Bool.and_eq_true_iff.1 hcall).2
  have hiterations : (c.forEach.flatMap Iteration.numbers).all Float.isFinite :=
    all_isFinite_flatMap hforEach fun i => Iteration.all_isFinite
  simp only [numbers, List.all_append, hcallStack, Attributes.all_isFinite hattributes, hiterations,
    hstates, Attributes.all_isFinite (Bool.and_eq_true_iff.1 hambient).2, Bool.and_self]

/-- **A legible snapshot holds no number that is not finite.** -/
theorem Snapshot.all_isFinite {room : Nat} {s : Snapshot} (h : s.legible room) :
    s.numbers.all Float.isFinite := by
  simp only [legible, Bool.and_eq_true] at h
  obtain ⟨⟨⟨hglobals, hselfVars⟩, -⟩, hcontexts⟩ := h
  have hvars := all_isFinite_flatMap hselfVars fun a => Attributes.all_isFinite
  have hlist := all_isFinite_flatMap hcontexts fun c => SavedContext.all_isFinite
  simp only [numbers, List.all_append, Attributes.all_isFinite hglobals, hvars, hlist,
    Bool.and_self]

end Cutscene
