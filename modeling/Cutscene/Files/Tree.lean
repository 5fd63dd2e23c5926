import Cutscene.Files.Disk
/-!
# Files — a tree of files

A disk that is a plain value: what lies at each path from the root, and the
directory that other paths are seen from. A path is followed part by part,
and every part but the last must be a directory.
-/

namespace Cutscene

/-- What lies at a path. -/
inductive FileEntry where
  | text (content : String)
  /-- A file whose bytes are no text. -/
  | bytes
  | directory
  deriving DecidableEq, Repr, Inhabited

/-- What the entry is. -/
def FileEntry.sort : FileEntry → FileSort
  | .directory => .directory
  | _ => .file

/-- A tree of files. -/
structure FileTree where
  entries : Table String FileEntry
  workingDirectory : String
  deriving Inhabited

namespace FileTree

/-- The key of a path's parts. -/
def keyOf (parts : List String) : String := String.intercalate "/" parts

/-- What lies at a path's parts; the root is a directory. -/
def lookup? (t : FileTree) (parts : List String) : Option FileEntry :=
  if parts.isEmpty then some .directory else t.entries.get? (keyOf parts)

/-- Follows a path's parts from a place; the last one need not be there. -/
def follow (t : FileTree) : List String → List String → Except FileError (List String)
  | place, [] => .ok place
  | place, part :: rest =>
    match t.lookup? place with
    | none => .error .missing
    | some .directory =>
      if part = "" ∨ part = "." then t.follow place rest
      else if part = ".." then t.follow place.dropLast rest
      else t.follow (place ++ [part]) rest
    | some _ => .error .notDirectory

/-- The parts of a path. -/
def partsOf (path : String) : List String :=
  (Text.splitOn '/' path.toList).map String.ofList

/-- The place a path leads to. -/
def locate (t : FileTree) (path : String) : Except FileError (List String) :=
  if path.isEmpty then .error .missing
  else t.follow [] (partsOf (joinPath t.workingDirectory path))

/-- What a path leads to. -/
def find (t : FileTree) (path : String) : Except FileError FileEntry :=
  (t.locate path).bind fun parts =>
    match t.lookup? parts with
    | some entry => .ok entry
    | none => .error .missing

/-- Makes the directories of a path's parts from a place on, one in the other. -/
def makeDirectories (t : FileTree) : List String → List String → Except FileError FileTree
  | _, [] => .ok t
  | place, part :: rest =>
    if part = ".." then t.makeDirectories place.dropLast rest
    else
      let here := place ++ [part]
      match t.lookup? here with
      | some .directory => t.makeDirectories here rest
      | some _ => .error (if rest.isEmpty then .exists else .notDirectory)
      | none =>
        { t with entries := t.entries.insert (keyOf here) .directory }.makeDirectories here rest

/-- The tree with an entry, and the directories it lies in. -/
def add (t : FileTree) (parts : List String) (entry : FileEntry) : FileTree :=
  let t := match t.makeDirectories [] parts.dropLast with
    | .ok t => t
    | .error _ => t
  { t with entries := t.entries.insert (keyOf parts) entry }

/-- The text of a file. -/
def read (t : FileTree) (path : String) : Except FileError String :=
  (t.find path).bind fun
    | .text content => .ok content
    | .bytes => .error .notText
    | .directory => .error .isDirectory

/-- Puts a text into a file whose directory there is. A path that ends in a
slash names no file. -/
def write (t : FileTree) (path content : String) : Except FileError FileTree :=
  if Text.endsWith path "/" then .error .isDirectory
  else (t.locate path).bind fun parts =>
    match t.lookup? parts, t.lookup? parts.dropLast with
    | some .directory, _ => .error .isDirectory
    | _, some .directory => .ok { t with entries := t.entries.insert (keyOf parts) (.text content) }
    | _, some _ => .error .notDirectory
    | _, none => .error .missing

/-- Makes the directory of a path and those it lies in. -/
def makeDirectory (t : FileTree) (path : String) : Except FileError FileTree :=
  match t.find path with
  | .ok .directory => .ok t
  | .ok _ => .error .exists
  | .error _ => t.makeDirectories []
      ((partsOf (joinPath t.workingDirectory path)).filter fun part => part ≠ "" ∧ part ≠ ".")

/-- The paths of the files below a directory, from there. -/
def filesBelow (t : FileTree) (path : String) : List String :=
  match t.locate path with
  | .error _ => []
  | .ok parts =>
    let above := if parts.isEmpty then "" else keyOf parts ++ "/"
    t.entries.entries.filterMap fun (key, entry) =>
      if entry.sort = .file ∧ Text.startsWith key above then
        some (String.ofList (key.toList.drop above.length))
      else none

/-- Changes the tree, unless that fails. -/
def attempt (change : FileTree → Except FileError FileTree) :
    StateM FileTree (Except FileError Unit) := fun t =>
  match change t with
  | .ok t => (.ok (), t)
  | .error e => (.error e, t)

/-- The tree as a disk. -/
def disk : Disk (StateM FileTree) where
  workingDirectory := fun t => (t.workingDirectory, t)
  sort? path := fun t => ((t.find path).toOption.map FileEntry.sort, t)
  read path := fun t => (t.read path, t)
  filesBelow path := fun t => (t.filesBelow path, t)
  makeDirectory path := attempt (·.makeDirectory path)
  write path content := attempt (·.write path content)

end FileTree

end Cutscene
