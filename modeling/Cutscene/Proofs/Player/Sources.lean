import Cutscene.Proofs.Files.Disk
import Cutscene.Proofs.Json.Pretty
import Cutscene.Proofs.Player.Command
/-!
# Player — projects of given events

A project whose one file holds given events as text (`SourceProject.ofEvents`).
What is read from it depends on the events alone
(`Library.ofSources_ofEvents`), so that what a small project does can be
computed without a look at its text. `FileTree.ofEvents` is a tree of files with
nothing else in it.
-/

namespace Cutscene

/-- The project of one file that holds the events. -/
def SourceProject.ofEvents (events : List EventDef) : SourceProject :=
  ⟨SourceProject.scheme ++ "/events",
    .ofList [("main.event.json", (Json.ofList EventDef.encode events).pretty)]⟩

/-- The library of the events as they are read back. -/
def Library.reread (events : List EventDef) : Option Library :=
  ((Json.normalizeItems (events.map EventDef.encode)).mapM EventDef.decode?).bind fun ds =>
    (Library.ofEvents ds).toOption

/-- **A project of legible events holds the library of what is read back.** -/
theorem Library.ofSources_ofEvents {events : List EventDef} {l : Library}
    (hlegible : Json.legible Json.maxDepth (Json.ofList EventDef.encode events))
    (hl : Library.reread events = some l) (hne : l.events.entries.isEmpty = false) :
    Library.ofSources (SourceProject.ofEvents events).sources = .ok l := by
  obtain ⟨ds, hds, hl⟩ := Option.bind_eq_some_iff.1 hl
  have hpath : isEventPath "main.event.json" := by decide +kernel
  have htext : EventDef.ofText (Json.ofList EventDef.encode events).pretty = .ok ds := by
    rw [EventDef.ofText, Json.read?_pretty hlegible]
    simp only [Json.ofList, Json.normalize, hds]
    rfl
  have hevents : (Library.empty Script.basic).insertAll ds = .ok l := Except.eq_ok_of_toOption hl
  have hentries : (SourceProject.ofEvents events).sources.entries =
      [("main.event.json", (Json.ofList EventDef.encode events).pretty)] := rfl
  rw [Library.ofSources, hentries]
  simp [Library.insertSources, hpath, htext, Except.bind, hevents, hne]

/-! ## Files -/

open Player (StateM.bind_apply)

/-- The tree of one directory that holds the events in a file. -/
def FileTree.ofEvents (events : List EventDef) : FileTree :=
  ⟨⟨[("events", .directory),
      ("events/main.event.json", .text (Json.ofList EventDef.encode events).pretty)], by
    simp only [Entries.Sorted, List.pairwise_cons, List.forall_mem_singleton, List.Pairwise.nil]
    decide +kernel⟩, "/"⟩

namespace FileTree

variable (events : List EventDef)

end FileTree

/-! ## Instructions -/

/-- Offers one choice. -/
def Instruction.offer (label : String) (commands : List Instruction) : Instruction :=
  ⟨"showChoices", .object [("options", .array [.object [("label", .string label),
    ("commands", .ofList Instruction.encode commands)]])]⟩

/-- Starts an event on its own. -/
def Instruction.launch (event : String) : Instruction :=
  ⟨"callEvent", .object [("event", .string event), ("mode", .string "async")]⟩

/-! ## What a scheduler does -/

namespace Scheduler

variable (s : Scheduler) (id : EventId)

/-- Does the scheduler offer the one choice? -/
def offers (label : String) : Bool := s.pendingChoice? == some (id, [label])

/-- Can the first choice be made, so that this comes of it? -/
def chooses (p : Scheduler → Bool) : Bool :=
  (s.choose id 0).any fun x => x.1.toOption.isSome && p x.2

/-- Can the scheduler be saved and rebuilt, so that this comes of it? -/
def rebuilds (e : Engine) (p : Snapshot → Scheduler → Bool) : Bool :=
  s.snapshot.toOption.any fun saved => (Scheduler.restore e saved).toOption.any (p saved)

variable {s id}

theorem exists_of_chooses {p : Scheduler → Bool} (h : s.chooses id p) :
    ∃ s', s.choose id 0 = some (.ok (), s') ∧ p s' := by
  obtain ⟨⟨a, s'⟩, hrun, h⟩ := (Option.any_eq_true _ _).1 h
  obtain ⟨ha, hp⟩ := Bool.and_eq_true_iff.1 h
  obtain ⟨⟨⟩, hu⟩ := Option.isSome_iff_exists.1 ha
  obtain rfl := Except.eq_ok_of_toOption hu
  exact ⟨s', hrun, hp⟩

theorem exists_of_rebuilds {e : Engine} {p : Snapshot → Scheduler → Bool} (h : s.rebuilds e p) :
    ∃ saved r, s.snapshot = .ok saved ∧ Scheduler.restore e saved = .ok r ∧ p saved r := by
  obtain ⟨saved, hsaved, h⟩ := (Option.any_eq_true _ _).1 h
  obtain ⟨r, hr, hp⟩ := (Option.any_eq_true _ _).1 h
  exact ⟨saved, r, Except.eq_ok_of_toOption hsaved, Except.eq_ok_of_toOption hr, hp⟩

end Scheduler

end Cutscene
