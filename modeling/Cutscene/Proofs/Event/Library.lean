import Cutscene.Event.Library
import Mathlib.Data.List.Forall2
import Mathlib.Data.List.Induction
import Mathlib.Data.List.Nodup
/-!
# Events — which files make a library

What source files declare is said without reading them in order
(`Library.FilesDeclare`), and so is what events of one library have to satisfy
(`Library.Compatible`). Files that keep to both are `Sound`; of sound files any
first few are sound too, so there is a first file at which files stop being so.

A library comes of files just if they are sound and declare an event
(`Library.ofSources_iff`). It lists the events that they declare and no others,
and otherwise the error is told at the file where they stop being sound.
-/

namespace Cutscene

/-- A source text declares events: it is an object that reads as one, or an
array of values that each do. -/
inductive EventDef.Declares : String → List EventDef → Prop
  | one {text : String} {fields : List (String × Json)} {d : EventDef}
      (htext : Json.read? text = some (.object fields)) (h : decode? (.object fields) = some d) :
      Declares text [d]
  | many {text : String} {items : List Json} {ds : List EventDef}
      (htext : Json.read? text = some (.array items))
      (h : List.Forall₂ (fun j d => decode? j = some d) items ds) : Declares text ds

namespace Library

/-- The events that a file declares, given its path and its text: a path with
another ending declares none. -/
inductive FileDeclares : String × String → List EventDef → Prop
  | events {stem text : String} {ds : List EventDef} (h : EventDef.Declares text ds) :
      FileDeclares (stem ++ eventSuffix, text) ds
  | other {path text : String} (h : ∀ stem, path ≠ stem ++ eventSuffix) :
      FileDeclares (path, text) []

/-- The events that files declare, file by file. -/
inductive FilesDeclare : List (String × String) → List EventDef → Prop
  | nil : FilesDeclare [] []
  | cons {file : String × String} {files : List (String × String)} {ds more : List EventDef}
      (h : FileDeclares file ds) (hrest : FilesDeclare files more) :
      FilesDeclare (file :: files) (ds ++ more)

/-- Events that may stand in one library: each has a name without a slash, and
no two have the same. -/
structure Compatible (ds : List EventDef) : Prop where
  named : ∀ d ∈ ds, d.name ≠ "" ∧ '/' ∉ d.name.toList
  distinct : (ds.map EventDef.name).Nodup

/-- The files declare the events, and these may stand in one library. -/
structure Sound (files : List (String × String)) (ds : List EventDef) : Prop where
  declared : FilesDeclare files ds
  compatible : Compatible ds

/-- The library lists the events, each under its name, and no others. -/
def Lists (l : Library) (ds : List EventDef) : Prop :=
  ∀ name d, l.get? name = some d ↔ d ∈ ds ∧ d.name = name

end Library

/-! ## What is declared -/

/-- Items are read together just if each is read. -/
theorem Json.mapM_eq_some_iff {α β : Type} {f : α → Option β} {xs : List α} {ys : List β} :
    xs.mapM f = some ys ↔ List.Forall₂ (fun x y => f x = some y) xs ys := by
  induction xs generalizing ys with
  | nil => simp [eq_comm]
  | cons x xs ih =>
    simp only [List.mapM_cons, bind, Option.bind_eq_some_iff, pure, Option.some.injEq,
      List.forall₂_cons_left_iff]
    constructor
    · rintro ⟨y, hy, ys, hys, rfl⟩
      exact ⟨y, ys, hy, ih.1 hys, rfl⟩
    · rintro ⟨y, ys, hy, hys, rfl⟩
      exact ⟨y, hy, ys, ih.2 hys, rfl⟩

/-- **A text is read just if it declares events**, and these are what is read. -/
theorem EventDef.ofText_eq_ok_iff {text : String} {ds : List EventDef} :
    ofText text = .ok ds ↔ Declares text ds := by
  have hcases : Declares text ds ↔
      (∃ fields d, Json.read? text = some (.object fields) ∧
        decode? (.object fields) = some d ∧ ds = [d]) ∨
      ∃ items, Json.read? text = some (.array items) ∧
        List.Forall₂ (fun j d => decode? j = some d) items ds := by
    constructor
    · rintro (⟨htext, h⟩ | ⟨htext, h⟩)
      · exact .inl ⟨_, _, htext, h, rfl⟩
      · exact .inr ⟨_, htext, h⟩
    · rintro (⟨fields, d, htext, h, rfl⟩ | ⟨items, htext, h⟩)
      · exact .one htext h
      · exact .many htext h
  rw [hcases]
  unfold ofText
  split
  · rename_i htext
    simp [htext]
  · rename_i items htext
    simp only [htext, Option.some.injEq, reduceCtorEq, false_and, exists_false, false_or,
      Json.array.injEq, exists_eq_left', ← Json.mapM_eq_some_iff]
    cases items.mapM decode? <;> simp
  · rename_i fields htext
    simp only [htext, Option.some.injEq, reduceCtorEq, false_and, exists_false, or_false,
      Json.object.injEq, ↓existsAndEq, true_and]
    cases decode? (.object fields) <;> simp [eq_comm]
  · rename_i j harray hobject htext
    refine iff_of_false (by simp) ?_
    rintro (⟨fields, d, h, -⟩ | ⟨items, h, -⟩)
    · exact hobject fields (Option.some.inj (htext.symm.trans h))
    · exact harray items (Option.some.inj (htext.symm.trans h))

theorem EventDef.Declares.unique {text : String} {ds ds' : List EventDef}
    (h : Declares text ds) (h' : Declares text ds') : ds = ds' := by
  have := (ofText_eq_ok_iff.2 h).symm.trans (ofText_eq_ok_iff.2 h')
  exact Except.ok.inj this

theorem isEventPath_iff {path : String} :
    isEventPath path ↔ ∃ stem, path = stem ++ eventSuffix := by
  rw [isEventPath, Text.endsWith, List.isSuffixOf_iff_suffix]
  constructor
  · rintro ⟨stem, h⟩
    exact ⟨.ofList stem, String.toList_inj.1 (by simp [← h])⟩
  · rintro ⟨stem, rfl⟩
    exact ⟨stem.toList, by simp⟩

namespace Library

variable {l l' : Library} {ds more : List EventDef} {d : EventDef} {path text : String}
  {file : String × String} {files before after : List (String × String)}

theorem fileDeclares_of_isEventPath (h : isEventPath path) :
    FileDeclares (path, text) ds ↔ EventDef.Declares text ds := by
  constructor
  · rintro (htext | hother)
    · exact htext
    · obtain ⟨stem, rfl⟩ := isEventPath_iff.1 h
      exact absurd rfl (hother stem)
  · obtain ⟨stem, rfl⟩ := isEventPath_iff.1 h
    exact .events

theorem fileDeclares_of_not_isEventPath (h : ¬ isEventPath path) :
    FileDeclares (path, text) ds ↔ ds = [] := by
  constructor
  · rintro (htext | hother)
    · exact absurd (isEventPath_iff.2 ⟨_, rfl⟩) h
    · rfl
  · rintro rfl
    exact .other fun stem heq => h (isEventPath_iff.2 ⟨stem, heq⟩)

theorem FileDeclares.unique (h : FileDeclares file ds) (h' : FileDeclares file more) :
    ds = more := by
  obtain ⟨path, text⟩ := file
  by_cases hpath : isEventPath path
  · rw [fileDeclares_of_isEventPath hpath] at h h'
    exact h.unique h'
  · rw [fileDeclares_of_not_isEventPath hpath] at h h'
    rw [h, h']

theorem FilesDeclare.unique (h : FilesDeclare files ds) (h' : FilesDeclare files more) :
    ds = more := by
  induction h generalizing more with
  | nil => cases h'; rfl
  | cons hfile _ ih =>
    obtain _ | ⟨hfile', hrest'⟩ := h'
    rw [hfile.unique hfile', ih hrest']

theorem filesDeclare_append_iff :
    FilesDeclare (before ++ after) ds ↔
      ∃ first last, FilesDeclare before first ∧ FilesDeclare after last ∧ ds = first ++ last := by
  induction before generalizing ds with
  | nil =>
    constructor
    · exact fun h => ⟨[], ds, .nil, h, rfl⟩
    · rintro ⟨first, last, hfirst, hlast, rfl⟩
      cases hfirst
      exact hlast
  | cons file before ih =>
    constructor
    · rintro (_ | ⟨hfile, hrest⟩)
      obtain ⟨first, last, hfirst, hlast, rfl⟩ := ih.1 hrest
      exact ⟨_, last, .cons hfile hfirst, hlast, (List.append_assoc ..).symm⟩
    · rintro ⟨first, last, hfirst, hlast, rfl⟩
      obtain _ | ⟨hfile, hrest⟩ := hfirst
      rw [List.append_assoc]
      exact .cons hfile (ih.2 ⟨_, last, hrest, hlast, rfl⟩)

theorem filesDeclare_singleton_iff : FilesDeclare [file] ds ↔ FileDeclares file ds := by
  constructor
  · rintro (_ | ⟨hfile, hnil⟩)
    cases hnil
    rwa [List.append_nil]
  · intro h
    simpa using FilesDeclare.cons h .nil

/-! ## What may stand together -/

theorem Compatible.nil : Compatible [] := ⟨by simp, by simp⟩

theorem Compatible.of_append (h : Compatible (ds ++ more)) : Compatible ds where
  named d hd := h.named d (List.mem_append_left _ hd)
  distinct := by
    have := h.distinct
    rw [List.map_append] at this
    exact this.of_append_left

theorem compatible_concat_iff (hds : Compatible ds) :
    Compatible (ds ++ [d]) ↔ isName d.name ∧ ∀ d' ∈ ds, d'.name ≠ d.name := by
  have hname : isName d.name ↔ d.name ≠ "" ∧ '/' ∉ d.name.toList := by simp [isName]
  rw [hname]
  constructor
  · intro h
    have hdistinct := h.distinct
    rw [List.map_append, List.nodup_append] at hdistinct
    exact ⟨h.named d (by simp), fun d' hd' => hdistinct.2.2 _ (List.mem_map_of_mem hd') _ (by simp)⟩
  · rintro ⟨hd, hfresh⟩
    refine ⟨fun d' hd' => ?_, ?_⟩
    · rcases List.mem_append.1 hd' with hd' | hd'
      · exact hds.named d' hd'
      · rwa [List.mem_singleton.1 hd']
    · rw [List.map_append, List.nodup_append]
      refine ⟨hds.distinct, by simp, fun name hname other hother => ?_⟩
      obtain ⟨d', hd', rfl⟩ := List.mem_map.1 hname
      obtain rfl : other = d.name := by simpa using hother
      exact hfresh d' hd'

/-- The first of sound files are sound. -/
theorem Sound.of_append (h : Sound (before ++ after) ds) : ∃ first, Sound before first := by
  obtain ⟨first, last, hfirst, -, rfl⟩ := filesDeclare_append_iff.1 h.declared
  exact ⟨first, hfirst, h.compatible.of_append⟩

/-! ## One more event -/

namespace Lists

theorem empty (scripts : Script.Language) : Lists (.empty scripts) [] := by
  simp [Lists, get?, Library.empty]

/-- A library is determined by what it lists and the language of its scripts. -/
theorem unique (h : l.Lists ds) (h' : l'.Lists ds) (hscripts : l.scripts = l'.scripts) :
    l = l' := by
  have hevents : l.events = l'.events := Table.ext_get? fun name => by
    refine Option.ext fun d => ?_
    exact (h name d).trans (h' name d).symm
  cases l
  cases l'
  obtain rfl : _ = _ := hevents
  obtain rfl : _ = _ := hscripts
  rfl

theorem contains_iff (h : l.Lists ds) (name : String) :
    l.contains name ↔ ∃ d ∈ ds, d.name = name := by
  rw [contains, Table.contains, Option.isSome_iff_exists]
  exact exists_congr fun d => h name d

/-- An event with a new name is listed after the others. -/
theorem concat (h : l.Lists ds) (hfresh : ∀ d' ∈ ds, d'.name ≠ d.name) :
    Lists { l with events := l.events.insert d.name d } (ds ++ [d]) := by
  intro name d'
  by_cases hname : name = d.name
  · subst hname
    have hself : get? { l with events := l.events.insert d.name d } d.name = some d :=
      Table.get?_insert_self ..
    rw [hself, Option.some.injEq, List.mem_append, List.mem_singleton]
    constructor
    · rintro rfl
      exact ⟨.inr rfl, rfl⟩
    · rintro ⟨hd' | rfl, hname⟩
      · exact absurd hname (hfresh d' hd')
      · rfl
  · have hother : get? { l with events := l.events.insert d.name d } name = l.get? name :=
      Table.get?_insert_of_ne _ _ hname
    rw [hother, h name d', List.mem_append, List.mem_singleton]
    constructor
    · exact fun ⟨hd', heq⟩ => ⟨.inl hd', heq⟩
    · rintro ⟨hd' | rfl, heq⟩
      · exact ⟨hd', heq⟩
      · exact absurd heq.symm hname

end Lists

/-- **One more event is taken just if it may stand with the others.** -/
theorem insert_eq_ok_iff (h : l.Lists ds) (hds : Compatible ds) :
    l.insert d = .ok l' ↔
      Compatible (ds ++ [d]) ∧ l'.Lists (ds ++ [d]) ∧ l'.scripts = l.scripts := by
  have hcompatible : Compatible (ds ++ [d]) ↔ isName d.name ∧ ¬ l.contains d.name := by
    rw [compatible_concat_iff hds, h.contains_iff]
    simp
  rw [hcompatible, insert]
  split
  · rename_i hname
    simp_all
  split
  · rename_i hcontains
    simp_all
  rename_i hname hcontains
  have hfresh : ∀ d' ∈ ds, d'.name ≠ d.name := by simpa [h.contains_iff] using hcontains
  rw [Except.ok.injEq]
  constructor
  · rintro rfl
    exact ⟨⟨by simpa using hname, hcontains⟩, h.concat hfresh, rfl⟩
  · exact fun ⟨_, hlists, hscripts⟩ => (h.concat hfresh).unique hlists hscripts.symm

/-- So it is with any number of events. -/
theorem insertAll_eq_ok_iff (h : l.Lists ds) (hds : Compatible ds) :
    l.insertAll more = .ok l' ↔
      Compatible (ds ++ more) ∧ l'.Lists (ds ++ more) ∧ l'.scripts = l.scripts := by
  induction more generalizing l ds with
  | nil =>
    rw [insertAll, Except.ok.injEq, List.append_nil]
    constructor
    · rintro rfl
      exact ⟨hds, h, rfl⟩
    · exact fun ⟨_, hlists, hscripts⟩ => h.unique hlists hscripts.symm
  | cons d more ih =>
    have hconcat : ds ++ d :: more = ds ++ [d] ++ more := by simp
    rw [hconcat, insertAll]
    rcases hinsert : l.insert d with e | next
    · refine iff_of_false (by simp [Except.bind]) fun hcompatible => ?_
      obtain ⟨next, hnext⟩ : ∃ next, l.insert d = .ok next := by
        have := (compatible_concat_iff hds).1 hcompatible.1.of_append
        exact ⟨_, (insert_eq_ok_iff h hds).2 ⟨hcompatible.1.of_append, h.concat this.2, rfl⟩⟩
      rw [hinsert] at hnext
      simp at hnext
    · obtain ⟨hcompatible, hlists, hscripts⟩ := (insert_eq_ok_iff h hds).1 hinsert
      rw [← hscripts]
      exact ih hlists hcompatible

/-- Events that may stand together make a library, with scripts of any
language. -/
theorem exists_lists (h : Compatible ds) (scripts : Script.Language) :
    ∃ l : Library, l.Lists ds ∧ l.scripts = scripts := by
  induction ds using List.reverseRecOn with
  | nil => exact ⟨.empty scripts, .empty scripts, rfl⟩
  | append_singleton ds d ih =>
    obtain ⟨l, hl, hscripts⟩ := ih h.of_append
    exact ⟨_, hl.concat ((compatible_concat_iff h.of_append).1 h).2, hscripts⟩

/-! ## File after file -/

/-- The library comes of the files, with scripts of the language. -/
def Of (l : Library) (scripts : Script.Language) (files : List (String × String)) : Prop :=
  ∃ ds, Sound files ds ∧ l.Lists ds ∧ l.scripts = scripts

variable {scripts : Script.Language}

theorem of_nil : Of (.empty scripts) scripts [] := ⟨[], ⟨.nil, .nil⟩, .empty scripts, rfl⟩

/-- Sound files make a library. -/
theorem exists_of_iff : (∃ l : Library, l.Of scripts files) ↔ ∃ ds, Sound files ds := by
  constructor
  · exact fun ⟨_, ds, hsound, _⟩ => ⟨ds, hsound⟩
  · rintro ⟨ds, hsound⟩
    obtain ⟨l, hl⟩ := exists_lists hsound.compatible scripts
    exact ⟨l, ds, hsound, hl⟩

/-- A file with another ending changes nothing. -/
theorem Of.concat_other (h : l.Of scripts files) (hpath : ¬ isEventPath path) :
    l.Of scripts (files ++ [(path, text)]) := by
  obtain ⟨ds, hsound, hlists⟩ := h
  refine ⟨ds, ⟨filesDeclare_append_iff.2 ?_, hsound.compatible⟩, hlists⟩
  have hnone : FileDeclares (path, text) [] := (fileDeclares_of_not_isEventPath hpath).2 rfl
  exact ⟨ds, [], hsound.declared, filesDeclare_singleton_iff.2 hnone, (List.append_nil ds).symm⟩

/-- **One more file is taken just if a library comes of it and those before.** -/
theorem Of.concat_iff (h : l.Of scripts files) (hpath : isEventPath path) :
    (EventDef.ofText text).bind l.insertAll = .ok l' ↔
      l'.Of scripts (files ++ [(path, text)]) := by
  obtain ⟨ds, hsound, hlists, rfl⟩ := h
  constructor
  · intro hinsert
    rcases htext : EventDef.ofText text with e | more
    · simp [htext, Except.bind] at hinsert
    · rw [htext] at hinsert
      have hfile := (fileDeclares_of_isEventPath hpath).2 (EventDef.ofText_eq_ok_iff.1 htext)
      obtain ⟨hcompatible, hlists'⟩ := (insertAll_eq_ok_iff hlists hsound.compatible).1 hinsert
      refine ⟨ds ++ more, ⟨filesDeclare_append_iff.2 ?_, hcompatible⟩, hlists'⟩
      exact ⟨ds, more, hsound.declared, filesDeclare_singleton_iff.2 hfile, rfl⟩
  · rintro ⟨all, ⟨hdeclared, hcompatible⟩, hlists'⟩
    obtain ⟨first, more, hfirst, hmore, rfl⟩ := filesDeclare_append_iff.1 hdeclared
    obtain rfl := hfirst.unique hsound.declared
    have htext := (fileDeclares_of_isEventPath hpath).1 (filesDeclare_singleton_iff.1 hmore)
    rw [EventDef.ofText_eq_ok_iff.2 htext]
    exact (insertAll_eq_ok_iff hlists hsound.compatible).2 ⟨hcompatible, hlists'⟩

/-- Files stop being sound at the path: those before it are, and are not any more
together with its own. -/
def StopsAt (files : List (String × String)) (path : String) : Prop :=
  ∃ before text after, files = before ++ (path, text) :: after ∧
    (∃ ds, Sound before ds) ∧ ∀ ds, ¬ Sound (before ++ [(path, text)]) ds

/-- Files that go on to the end make the library. -/
theorem Of.insertSources (h : l.Of scripts before) (hread : l.insertSources files = .ok l') :
    l'.Of scripts (before ++ files) := by
  -- along the files, with those already read in front
  induction files generalizing l before with
  | nil =>
    rw [Library.insertSources, Except.ok.injEq] at hread
    rwa [List.append_nil, ← hread]
  | cons file files ih =>
    obtain ⟨path, text⟩ := file
    rw [List.append_cons]
    simp only [Library.insertSources] at hread
    split at hread
    · rename_i hpath
      exact ih (h.concat_other (by simpa using hpath)) hread
    · rename_i hpath
      split at hread
      · simp at hread
      · rename_i next hnext
        exact ih ((h.concat_iff (by simpa using hpath)).1 hnext) hread

/-- An error comes with the file at which files stop being sound. -/
theorem Of.stopsAt {e : LibraryError} (h : l.Of scripts before)
    (hread : l.insertSources files = .error (path, e)) : StopsAt (before ++ files) path := by
  induction files generalizing l before with
  | nil => simp [Library.insertSources] at hread
  | cons file files ih =>
    obtain ⟨path', text⟩ := file
    simp only [Library.insertSources] at hread
    split at hread
    · rename_i hpath
      rw [List.append_cons]
      exact ih (h.concat_other (by simpa using hpath)) hread
    · rename_i hpath
      have hpath : isEventPath path' := by simpa using hpath
      split at hread
      · rename_i hfault
        obtain ⟨rfl, -⟩ := Prod.mk.inj (Except.error.inj hread)
        refine ⟨before, text, files, rfl, exists_of_iff.1 ⟨l, h⟩, fun ds hsound => ?_⟩
        obtain ⟨l', hl'⟩ := exists_of_iff.2 ⟨ds, hsound⟩
        rw [(h.concat_iff hpath).2 hl'] at hfault
        simp at hfault
      · rename_i next hnext
        rw [List.append_cons]
        exact ih ((h.concat_iff hpath).1 hnext) hread

theorem StopsAt.not_sound (h : StopsAt files path) : ¬ Sound files ds := by
  obtain ⟨before, text, after, rfl, -, hstop⟩ := h
  intro hsound
  rw [List.append_cons] at hsound
  obtain ⟨first, hfirst⟩ := hsound.of_append
  exact hstop first hfirst

/-- Files stop being sound in one place. -/
theorem StopsAt.unique {path' : String} (h : StopsAt files path) (h' : StopsAt files path') :
    path = path' := by
  obtain ⟨before, text, after, rfl, ⟨ds, hsound⟩, hstop⟩ := h
  obtain ⟨before', text', after', heq, ⟨ds', hsound'⟩, hstop'⟩ := h'
  -- what comes before one of the two places does not contain the other
  rcases List.append_eq_append_iff.1 heq with ⟨between, hbefore, hrest⟩ | ⟨between, hbefore, hrest⟩
  · cases between with
    | nil => exact (Prod.mk.inj (List.cons.inj hrest).1).1
    | cons file between =>
      obtain rfl := (List.cons.inj hrest).1
      subst hbefore
      rw [List.append_cons] at hsound'
      obtain ⟨first, hfirst⟩ := hsound'.of_append
      exact absurd hfirst (hstop first)
  · cases between with
    | nil => exact (Prod.mk.inj (List.cons.inj hrest).1).1.symm
    | cons file between =>
      obtain rfl := (List.cons.inj hrest).1
      subst hbefore
      rw [List.append_cons] at hsound
      obtain ⟨first, hfirst⟩ := hsound.of_append
      exact absurd hfirst (hstop' first)

/-! ## All files -/

theorem Lists.isEmpty_iff (h : l.Lists ds) : l.events.entries.isEmpty ↔ ds = [] := by
  rw [List.isEmpty_iff, List.eq_nil_iff_forall_not_mem, List.eq_nil_iff_forall_not_mem]
  constructor
  · exact fun hnone d hd => hnone (d.name, d) (Table.mem_entries_iff.2 ((h _ _).2 ⟨hd, rfl⟩))
  · rintro hnone ⟨name, d⟩ hd
    exact hnone d ((h _ _).1 (Table.mem_entries_iff.1 hd)).1

/-- What becomes of the files: a library of them, or an error told where they
stop being sound, or one without a path if they declare no event. -/
theorem ofSources_cases (sources : Sources) (scripts : Script.Language) :
    (∃ l ds, ofSources sources scripts = .ok l ∧ Sound sources.entries ds ∧ ds ≠ [] ∧
        l.Lists ds) ∨
      (∃ r path, ofSources sources scripts = .error r ∧ r.path = some path ∧
        StopsAt sources.entries path) ∨
      ∃ r, ofSources sources scripts = .error r ∧ r.path = none ∧ Sound sources.entries [] := by
  rw [ofSources]
  rcases hread : (Library.empty scripts).insertSources sources.entries with ⟨path, e⟩ | l
  · refine .inr (.inl ⟨_, path, rfl, ?_, of_nil.stopsAt hread⟩)
    cases e <;> rfl
  · obtain ⟨ds, hsound, hlists, -⟩ := of_nil.insertSources hread
    rw [List.nil_append] at hsound
    by_cases hds : ds = []
    · subst hds
      refine .inr (.inr ⟨_, if_pos (hlists.isEmpty_iff.2 rfl), rfl, hsound⟩)
    · exact .inl ⟨l, ds, if_neg fun hempty => hds (hlists.isEmpty_iff.1 hempty), hsound, hds,
        hlists⟩

/-- **Reading a library loses nothing and merges nothing.** Files make a library
just if they are sound and declare an event. Then it lists the events that they
declare, each under its name, and no others. Otherwise the error is told at the
first file with which those up to it are not sound, and at none if the files
declare no event. -/
theorem ofSources_iff (sources : Sources) (scripts : Script.Language) :
    ((∃ l, ofSources sources scripts = .ok l) ↔ ∃ ds, Sound sources.entries ds ∧ ds ≠ []) ∧
      (∀ l ds, ofSources sources scripts = .ok l → FilesDeclare sources.entries ds →
        ∀ name d, l.get? name = some d ↔ d ∈ ds ∧ d.name = name) ∧
      ∀ r, ofSources sources scripts = .error r →
        (∀ path, r.path = some path ↔ StopsAt sources.entries path) ∧
          (r.path = none ↔ FilesDeclare sources.entries []) := by
  rcases ofSources_cases sources scripts with ⟨l, ds, hread, hsound, hds, hlists⟩ |
    ⟨r, path, hread, hpath, hstop⟩ | ⟨r, hread, hpath, hsound⟩
  · rw [hread]
    refine ⟨iff_of_true ⟨l, rfl⟩ ⟨ds, hsound, hds⟩, ?_, by simp⟩
    rintro l' ds' ⟨⟩ hdeclared
    rw [hdeclared.unique hsound.declared]
    exact hlists
  · rw [hread]
    refine ⟨iff_of_false (by simp) fun ⟨ds, hsound, _⟩ => hstop.not_sound hsound, by simp, ?_⟩
    rintro r' ⟨⟩
    refine ⟨fun path' => ?_, iff_of_false (by simp [hpath]) fun hnone =>
      hstop.not_sound ⟨hnone, .nil⟩⟩
    rw [hpath, Option.some.injEq]
    constructor
    · rintro rfl
      exact hstop
    · exact hstop.unique
  · rw [hread]
    refine ⟨iff_of_false (by simp) ?_, by simp, ?_⟩
    · rintro ⟨ds, hsound', hds⟩
      exact hds (hsound'.declared.unique hsound.declared)
    · rintro r' ⟨⟩
      refine ⟨fun path => iff_of_false (by simp [hpath]) fun hstop => ?_,
        iff_of_true hpath hsound.declared⟩
      exact StopsAt.not_sound hstop hsound

/-- Of two files that declare one name the later one is told. -/
example :
    (match ofSources (.ofList [("b.event.json", "[\x7b\"name\":\"x\"\x7d]"), ("b.txt", "-"),
      ("a.event.json", "\x7b\"name\":\"x\"\x7d")]) with
    | .ok _ => none
    | .error r => r.path) = some "b.event.json" := by
  decide +kernel

end Library

end Cutscene
