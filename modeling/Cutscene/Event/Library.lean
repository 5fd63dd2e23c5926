import Cutscene.Event.Basic
import Cutscene.Json.Parser
import Cutscene.Report
import Cutscene.Script.Language
import Cutscene.Text.Search
/-!
# Events — libraries

A library holds events under distinct names, with scripts of one language. It
is read from source files, each holding one event or an array of events; files
with another suffix are passed over, and the first fault in the order of the
paths is the error. Its events are read in the environment that it makes for
them (`Library.environment`).
-/

namespace Cutscene

/-- Why a library cannot be read. -/
inductive LibraryError where
  /-- The text is no JSON. -/
  | text
  /-- The text is neither an object nor an array. -/
  | shape
  /-- An event cannot be read. -/
  | event
  /-- A name is empty or contains a slash. -/
  | badName (name : String)
  /-- Two events have one name. -/
  | duplicate (name : String)
  /-- There is no event at all. -/
  | empty
  deriving DecidableEq, Repr

/-- What is told of the error, at a path where it concerns a file. -/
def LibraryError.report (path : Option String) : LibraryError → Report
  | .text => ⟨"EVENT_JSON_PARSE", none, path⟩
  | .shape =>
    ⟨"EVENT_JSON_SHAPE", some "Event file must contain an object or an array of objects.", path⟩
  | .event => ⟨"EVENT_JSON_SHAPE", none, path⟩
  | .badName name =>
    ⟨"EVENT_NAME_INVALID",
      some ("Event name \"" ++ name ++ "\" must be non-empty and contain no '/'."), path⟩
  | .duplicate name =>
    ⟨"EVENT_DUPLICATE", some ("Event \"" ++ name ++ "\" is declared more than once."), path⟩
  | .empty => ⟨"EVENT_SOURCE_EMPTY", some "No .event.json sources were provided.", path⟩

/-- What instructions are read with: the events that there are, and the
language of scripts. -/
structure Environment where
  isEvent : String → Bool
  scripts : Script.Language

/-- Unless told otherwise, scripts are in the basic language. -/
instance : Coe (String → Bool) Environment := ⟨fun isEvent => ⟨isEvent, Script.basic⟩⟩

/-- Events under distinct names. -/
structure Library where
  events : Table String EventDef
  /-- The language of the scripts in the events. -/
  scripts : Script.Language := Script.basic
  deriving Inhabited

namespace Library

/-- The library without events. -/
def empty (scripts : Script.Language := Script.basic) : Library := ⟨.empty, scripts⟩

/-- The event of a name. -/
def get? (l : Library) (name : String) : Option EventDef := l.events.get? name

/-- Is there an event of the name? -/
def contains (l : Library) (name : String) : Bool := l.events.contains name

/-- What the events are read with. -/
def environment (l : Library) : Environment := ⟨l.contains, l.scripts⟩

/-- The names, in order. -/
def names (l : Library) : List String := l.events.keys

/-- May an event have this name? -/
def isName (name : String) : Bool := !name.isEmpty && !name.toList.contains '/'

/-- The library with one more event. -/
def insert (l : Library) (e : EventDef) : Except LibraryError Library :=
  if !isName e.name then .error (.badName e.name)
  else if l.contains e.name then .error (.duplicate e.name)
  else .ok { l with events := l.events.insert e.name e }

/-- The library with more events. -/
def insertAll (l : Library) : List EventDef → Except LibraryError Library
  | [] => .ok l
  | e :: rest => (l.insert e).bind fun l => l.insertAll rest

/-- The library of a list of events. -/
def ofEvents (events : List EventDef) (scripts : Script.Language := Script.basic) :
    Except LibraryError Library :=
  (empty scripts).insertAll events

end Library

/-- The suffix of files that hold events. -/
def eventSuffix : String := ".event.json"

/-- Does a path name a file that holds events? -/
def isEventPath (path : String) : Bool := Text.endsWith path eventSuffix

/-- The events of a source text: one object, or an array of them. -/
def EventDef.ofText (source : String) : Except LibraryError (List EventDef) :=
  match Json.read? source with
  | none => .error .text
  | some (.array items) => (items.mapM EventDef.decode?).elim (.error .event) .ok
  | some (.object fields) => (EventDef.decode? (.object fields)).elim (.error .event) (.ok [·])
  | some _ => .error .shape

/-- The instructions of a source text. -/
def Instruction.ofText (source : String) : Except LibraryError (List Instruction) :=
  match (Json.parse? source).bind Instruction.decodeList? with
  | none => .error .text
  | some instructions => .ok (instructions.map fun i => ⟨i.id, i.params.normalize⟩)

/-- Source texts by path. -/
abbrev Sources := Table String String

/-- The library with the events of more sources; a fault comes with its path. -/
def Library.insertSources (l : Library) :
    List (String × String) → Except (String × LibraryError) Library
  | [] => .ok l
  | (path, source) :: rest =>
    if !isEventPath path then l.insertSources rest
    else
      match (EventDef.ofText source).bind l.insertAll with
      | .error e => .error (path, e)
      | .ok l => l.insertSources rest

/-- The library of the sources. -/
def Library.ofSources (sources : Sources) (scripts : Script.Language := Script.basic) :
    Except Report Library :=
  match (empty scripts).insertSources sources.entries with
  | .error (path, e) => .error (e.report (some path))
  | .ok l =>
    if l.events.entries.isEmpty then .error (LibraryError.empty.report none) else .ok l

end Cutscene
