import Cutscene.Event.Library
/-!
# Files — what is asked of a disk

Projects and saved states lie in files. `Disk` is what is asked of whatever
keeps them, in any monad, so that the same program runs on a real disk and on
a tree of files that is a plain value.
-/

namespace Cutscene

/-- Why a file cannot be read or written. -/
inductive FileError where
  | missing
  | notDirectory
  | isDirectory
  | exists
  /-- The bytes are no text. -/
  | notText
  | other (text : String)
  deriving DecidableEq, Repr

/-- What is told of the error. -/
def FileError.text : FileError → String
  | .missing => "No such file or directory (os error 2)"
  | .notDirectory => "Not a directory (os error 20)"
  | .isDirectory => "Is a directory (os error 21)"
  | .exists => "File exists (os error 17)"
  | .notText => "stream did not contain valid UTF-8"
  | .other text => text

/-- What a path leads to. -/
inductive FileSort where
  | file
  | directory
  deriving DecidableEq, Repr

/-- What is asked of a disk. -/
structure Disk (m : Type → Type) where
  workingDirectory : m String
  /-- What a path leads to, if to anything. -/
  sort? : String → m (Option FileSort)
  read : String → m (Except FileError String)
  /-- The paths of the files below a directory, from there, in order. -/
  filesBelow : String → m (List String)
  /-- Makes a directory and those it lies in, as far as they are missing. -/
  makeDirectory : String → m (Except FileError Unit)
  write : String → String → m (Except FileError Unit)

/-! ## Paths -/

/-- A path as seen from a directory. -/
def joinPath (directory path : String) : String :=
  if Text.startsWith path "/" then path
  else if Text.endsWith directory "/" then directory ++ path
  else directory ++ "/" ++ path

/-- The directory a path's last part lies in; the current one if none is
named. -/
def parentPath (path : String) : String :=
  let parts := (Text.splitOn '/' path.toList).filter fun part => part ≠ [] ∧ part ≠ ['.']
  let above := parts.dropLast
  let joined := String.intercalate "/" (above.map String.ofList)
  if Text.startsWith path "/" then "/" ++ joined else if above.isEmpty then "." else joined

/-! ## Sources -/

/-- A path with slashes alone between its parts. -/
def slashed (path : String) : String :=
  String.ofList (path.toList.map fun c => if c = '\\' then '/' else c)

/-- The texts of the event files below a directory; of the first that cannot
be read, the path and the cause. -/
def Disk.eventSources {m : Type → Type} [Monad m] (d : Disk m) (directory : String) :
    m (Except (String × FileError) Sources) := do
  let rec go : List String → List (String × String) → m (Except (String × FileError) Sources)
    | [], found => pure (.ok (.ofList found.reverse))
    | path :: rest, found => do
      if isEventPath (slashed path) then
        match ← d.read (joinPath directory path) with
        | .error e => pure (.error (joinPath directory path, e))
        | .ok text => go rest ((slashed path, text) :: found)
      else go rest found
  go (← d.filesBelow directory) []

end Cutscene
