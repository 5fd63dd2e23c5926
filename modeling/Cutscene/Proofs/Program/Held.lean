import Cutscene.Proofs.Program.Lookup
/-!
# Programs — the bodies that a library holds

A library holds the bodies of its events and whatever is nested in them
(`Library.Holds`). An engine serves a library when its programs are made from
it. Then its programs are those of the bodies held: `Engine.Serves.program?`
finds the program of a body, `Engine.Serves.exists_body` finds the body of a
program, and `Engine.Serves.programOfText?` finds it by the text of its key.

Libraries are lawful: an event stands under its own name, which has no slash.
-/

namespace Cutscene

/-! ## Lawful libraries -/

/-- Every event stands under its own name, which is one an event may have. -/
structure Library.Lawful (l : Library) : Prop where
  name_eq : ∀ {name : String} {d : EventDef}, l.get? name = some d → d.name = name
  isName : ∀ {name : String} {d : EventDef}, l.get? name = some d → Library.isName name

namespace Library

theorem lawful_empty (scripts : Script.Language) : Lawful (.empty scripts) := by
  constructor <;> intro name d h <;> simp [get?, empty] at h

theorem Lawful.insert {l l' : Library} (hl : l.Lawful) {d : EventDef}
    (h : l.insert d = .ok l') : l'.Lawful := by
  unfold Library.insert at h
  split at h
  · simp at h
  rename_i hname
  split at h
  · simp at h
  obtain rfl := Except.ok.inj h
  have hcases : ∀ {name : String} {d' : EventDef},
      Table.get? (l.events.insert d.name d) name = some d' →
        (name = d.name ∧ d' = d) ∨ l.get? name = some d' := by
    intro name d' hget
    by_cases hne : name = d.name
    · rw [hne, Table.get?_insert_self] at hget
      exact .inl ⟨hne, (Option.some.inj hget).symm⟩
    · rw [Table.get?_insert_of_ne _ _ hne] at hget
      exact .inr hget
  constructor
  · intro name d' hget
    rcases hcases hget with ⟨rfl, rfl⟩ | hget
    · rfl
    · exact hl.name_eq hget
  · intro name d' hget
    rcases hcases hget with ⟨rfl, -⟩ | hget
    · simpa using hname
    · exact hl.isName hget

theorem Lawful.insertAll {l l' : Library} (hl : l.Lawful) {ds : List EventDef}
    (h : l.insertAll ds = .ok l') : l'.Lawful := by
  induction ds generalizing l with
  | nil =>
    obtain rfl := Except.ok.inj h
    exact hl
  | cons d ds ih =>
    rw [Library.insertAll] at h
    cases hd : l.insert d with
    | error err => rw [hd] at h; simp [Except.bind] at h
    | ok l₁ => rw [hd] at h; exact ih (hl.insert hd) h

theorem Lawful.insertSources {l l' : Library} (hl : l.Lawful) {sources : List (String × String)}
    (h : l.insertSources sources = .ok l') : l'.Lawful := by
  induction sources generalizing l with
  | nil =>
    obtain rfl := Except.ok.inj h
    exact hl
  | cons source sources ih =>
    obtain ⟨path, text⟩ := source
    rw [Library.insertSources] at h
    split at h
    · exact ih hl h
    split at h
    · simp at h
    rename_i l₁ hl₁
    cases hds : EventDef.ofText text with
    | error err => rw [hds] at hl₁; simp [Except.bind] at hl₁
    | ok ds =>
      rw [hds] at hl₁
      exact ih (hl.insertAll hl₁) h

/-- **The library of source files is lawful.** -/
theorem lawful_ofSources {sources : Sources} {scripts : Script.Language} {l : Library}
    (h : ofSources sources scripts = .ok l) : l.Lawful := by
  unfold ofSources at h
  split at h
  · simp at h
  split at h
  · simp at h
  obtain rfl := Except.ok.inj h
  exact (lawful_empty scripts).insertSources ‹_›

theorem lawful_iff {l : Library} :
    l.Lawful ↔ ∀ e ∈ l.events.entries, e.2.name = e.1 ∧ isName e.1 := by
  constructor
  · intro hl e he
    have hget := Table.mem_entries_iff.1 he
    exact ⟨hl.name_eq hget, hl.isName hget⟩
  · intro h
    exact ⟨fun hget => (h _ (Table.mem_entries_iff.2 hget)).1,
      fun hget => (h _ (Table.mem_entries_iff.2 hget)).2⟩

instance (l : Library) : Decidable l.Lawful := decidable_of_iff' _ lawful_iff

theorem Lawful.not_mem_slash {l : Library} (hl : l.Lawful) {name : String} {d : EventDef}
    (h : l.get? name = some d) : '/' ∉ name.toList := by
  have := hl.isName h
  simp only [Library.isName, Bool.and_eq_true, Bool.not_eq_true', List.contains_eq_mem,
    decide_eq_false_iff_not] at this
  exact this.2

end Library

/-! ## Bodies held -/

/-- The body of an event. -/
def EventDef.body (env : Environment) (d : EventDef) : Body :=
  Block.unit (.root d.name) (.ofInstructions env d.commands)

/-- The body is that of an event of the library or nested in one. -/
def Library.Holds (l : Library) (b : Body) : Prop :=
  ∃ name d, l.get? name = some d ∧ (d.body l.environment).Within b

/-- All the bodies that the library holds. -/
def Library.bodies (l : Library) : List Body :=
  l.events.entries.flatMap fun e => (e.2.body l.environment).all

theorem Library.holds_iff {l : Library} {b : Body} : l.Holds b ↔ b ∈ l.bodies := by
  rw [bodies, List.mem_flatMap]
  constructor
  · rintro ⟨name, d, hd, hb⟩
    exact ⟨(name, d), Table.mem_entries_iff.2 hd, Body.mem_all_iff.2 hb⟩
  · rintro ⟨⟨name, d⟩, hd, hb⟩
    exact ⟨name, d, Table.mem_entries_iff.1 hd, Body.mem_all_iff.1 hb⟩

namespace Library.Holds

variable {l : Library} {b c : Body}

theorem event {name : String} {d : EventDef} (h : l.get? name = some d) :
    l.Holds (d.body l.environment) :=
  ⟨name, d, h, .refl _⟩

theorem child (h : l.Holds b) (hc : c ∈ b.children) : l.Holds c := by
  obtain ⟨name, d, hd, hb⟩ := h
  exact ⟨name, d, hd, hb.step hc⟩

theorem read (h : l.Holds b) : b.block.Read l.environment := by
  obtain ⟨name, d, -, hb⟩ := h
  exact Block.Read.within ⟨false, d.commands, rfl⟩ hb

theorem distinct (h : l.Holds b) : b.block.Distinct := h.read.distinct

/-- **Induction over the bodies held**, from a unit to what is nested in it. -/
theorem induction {motive : Body → Prop}
    (event : ∀ {name : String} {d : EventDef}, l.get? name = some d →
      motive (d.body l.environment))
    (child : ∀ {b c : Body}, l.Holds b → motive b → c ∈ b.children → motive c)
    (h : l.Holds b) : motive b := by
  obtain ⟨name, d, hd, hb⟩ := h
  induction hb with
  | refl => exact event hd
  | tail hb hc ih => exact child ⟨name, d, hd, hb⟩ ih hc

end Library.Holds

/-! ## Engines that serve a library -/

/-- The engine's programs are made from the library. -/
def Engine.Serves (e : Engine) (l : Library) : Prop := e.events = (Engine.ofLibrary l).events

theorem find?_of_nodup {α β : Type} [DecidableEq β] {f : α → β} {l : List α} {a : α}
    (hl : (l.map f).Nodup) (ha : a ∈ l) : l.find? (f · == f a) = some a := by
  induction l with
  | nil => simp at ha
  | cons x l ih =>
    rw [List.map_cons, List.nodup_cons] at hl
    rcases List.mem_cons.1 ha with rfl | ha
    · simp
    · have hne : f x ≠ f a := fun h => hl.1 (h ▸ List.mem_map_of_mem ha)
      rw [List.find?_cons_of_neg (by simpa using hne)]
      exact ih hl.2 ha

namespace Engine.Serves

variable {e : Engine} {l : Library} {b : Body}

theorem ofLibrary (l : Library) : Serves (.ofLibrary l) l := rfl

/-- The events are those of the library, made into programs. -/
theorem event? (he : e.Serves l) (name : String) :
    e.event? name = (l.get? name).map (Compiled.ofEvent l.environment) := by
  have hsorted : Entries.Sorted
      (l.events.entries.map fun e => (e.1, Compiled.ofEvent l.environment e.2)) :=
    List.pairwise_map.2 l.events.sorted
  rw [Engine.event?, he]
  show (Entries.ofList _).lookup name = _
  rw [Entries.ofList_of_sorted hsorted]
  exact Entries.lookup_map _ _ _

theorem programs_ofEvent (env : Environment) (d : EventDef) :
    (Compiled.ofEvent env d).programs = (d.body env).programs := rfl

/-- **The program of a body that is held is found under its key.** -/
theorem program? (he : e.Serves l) (hl : l.Lawful) (hb : l.Holds b) :
    e.program? b.key = some b.program := by
  obtain ⟨name, d, hd, hw⟩ := hb
  have hevent : b.key.event = name := by
    rw [← hw.below.1]
    exact hl.name_eq hd
  -- the body is the only one of its unit under its key
  have hnodup := Body.nodup_keys (a := d.body l.environment) fun c hc =>
    (Library.Holds.distinct ⟨name, d, hd, hc⟩)
  rw [Engine.program?, hevent, he.event?, hd]
  show ((Compiled.ofEvent l.environment d).programs.find? (·.key == b.key)) = _
  rw [programs_ofEvent]
  exact find?_of_nodup hnodup (Body.mem_programs_iff.2 ⟨b, hw, rfl⟩)

/-- A program that is found is that of a body held. -/
theorem exists_body (he : e.Serves l) {key : BodyKey} {p : Program}
    (h : e.program? key = some p) : ∃ b, l.Holds b ∧ b.key = key ∧ b.program = p := by
  rw [Engine.program?, he.event?, Option.bind_eq_some_iff] at h
  obtain ⟨c, hc, hp⟩ := h
  obtain ⟨d, hd, rfl⟩ := Option.map_eq_some_iff.1 hc
  rw [Compiled.program?, programs_ofEvent] at hp
  obtain ⟨b, hw, rfl⟩ := Body.mem_programs_iff.1 (List.mem_of_find?_eq_some hp)
  exact ⟨b, ⟨_, d, hd, hw⟩, by simpa using List.find?_some hp, rfl⟩

/-- A step that is found is one of a body held. -/
theorem exists_step (he : e.Serves l) {place : Place} {step : Step}
    (h : e.step? place = some step) :
    ∃ b, l.Holds b ∧ b.key = place.program ∧ b.program.steps[place.index]? = some step := by
  rw [Engine.step?, Option.bind_eq_some_iff] at h
  obtain ⟨p, hp, hstep⟩ := h
  obtain ⟨b, hb, hkey, rfl⟩ := he.exists_body hp
  exact ⟨b, hb, hkey, hstep⟩

theorem step? (he : e.Serves l) (hl : l.Lawful) (hb : l.Holds b) (i : Nat) :
    e.step? ⟨b.key, i⟩ = b.program.steps[i]? := by
  rw [Engine.step?, he.program? hl hb]
  rfl

/-- **The program of a body that is held is found under its key's text.** -/
theorem programOfText? (he : e.Serves l) (hl : l.Lawful) (hb : l.Holds b) :
    e.programOfText? b.key.text = some b.program := by
  obtain ⟨name, d, hd, hw⟩ := hb
  have hevent : ∀ {c : Body}, (d.body l.environment).Within c → c.key.event = name := fun hc => by
    rw [← hc.below.1]
    exact hl.name_eq hd
  have hslash : ∀ {c : Body}, (d.body l.environment).Within c → '/' ∉ c.key.event.toList :=
    fun hc => by
      rw [hevent hc]
      exact hl.not_mem_slash hd
  -- keys are distinct, and so are their texts, since no event's name has a slash
  have hnodup : ((d.body l.environment).programs.map fun p => p.key.text).Nodup := by
    have hkeys := Body.nodup_keys (a := d.body l.environment) fun c hc =>
      (Library.Holds.distinct ⟨name, d, hd, hc⟩)
    rw [show (fun p : Program => p.key.text) = BodyKey.text ∘ Program.key from rfl, ← List.map_map]
    refine hkeys.map_on fun k hk k' hk' htext => ?_
    obtain ⟨p, hp, rfl⟩ := List.mem_map.1 hk
    obtain ⟨p', hp', rfl⟩ := List.mem_map.1 hk'
    obtain ⟨c, hc, rfl⟩ := Body.mem_programs_iff.1 hp
    obtain ⟨c', hc', rfl⟩ := Body.mem_programs_iff.1 hp'
    exact BodyKey.text_injective (hslash hc) (hslash hc') htext
  rw [Engine.programOfText?, BodyKey.eventOfText_text (hslash hw), hevent hw, he.event?, hd]
  show ((Compiled.ofEvent l.environment d).programs.find? (·.key.text == b.key.text)) = _
  rw [programs_ofEvent]
  exact find?_of_nodup (f := fun p : Program => p.key.text) hnodup
    (Body.mem_programs_iff.2 ⟨b, hw, rfl⟩)

end Engine.Serves

end Cutscene
