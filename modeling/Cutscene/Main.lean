import Cutscene.Player.Command
/-!
# The player as a program

The command line around `Player.answer`, on the disk of the machine.
-/

namespace Cutscene

namespace Player

/-- The cause of an error of the machine. -/
def causeOf : IO.Error → FileError
  | .noFileOrDirectory .. | .noSuchThing .. => .missing
  | .inappropriateType .. => .notDirectory
  | .alreadyExists .. => .exists
  | e => .other (toString e)

/-- Runs what may fail on the machine. -/
def attempt {α : Type} (act : IO α) : IO (Except FileError α) := do
  try pure (.ok (← act))
  catch e => pure (.error (causeOf e))

/-- The text of a file. -/
def readText (path : String) : IO (Except FileError String) := do
  match ← attempt (IO.FS.readBinFile path) with
  | .error e => pure (.error e)
  | .ok bytes => pure ((String.fromUTF8? bytes).elim (.error .notText) .ok)

/-- What a path of the machine leads to. -/
def sortOf (path : String) : IO (Option FileSort) := do
  let place := (← IO.currentDir) / path
  if ← place.isDir then pure (some .directory)
  else if ← place.pathExists then pure (some .file)
  else pure none

/-- The files below a directory of the machine, from there, in order. -/
partial def filesBelow (directory above : String) : IO (List String) := do
  let place := (← IO.currentDir) / directory
  let entries := (← place.readDir).qsort fun a b => a.fileName < b.fileName
  let mut found := []
  for entry in entries do
    let relative := above ++ entry.fileName
    match (← entry.path.symlinkMetadata).type with
    | .file => found := found ++ [relative]
    | .dir => found := found ++ (← filesBelow (joinPath directory entry.fileName) (relative ++ "/"))
    | _ => pure ()
  pure found

/-- The disk of the machine. -/
def machineDisk : Disk IO where
  workingDirectory := do pure (← IO.currentDir).toString
  sort? := sortOf
  read := readText
  filesBelow directory := do
    try filesBelow directory ""
    catch _ => pure []
  makeDirectory path := attempt (IO.FS.createDirAll path)
  write path content := attempt (IO.FS.writeFile path content)

end Player

end Cutscene

/-- Answers the arguments and gives the exit code. -/
def main (arguments : List String) : IO UInt32 := do
  match ← Cutscene.Player.answer Cutscene.Player.machineDisk arguments with
  | none =>
    (← IO.getStderr).putStrLn "events start each other without end"
    pure 1
  | some answer =>
    answer.lines.forM IO.println
    pure answer.code.toUInt32
