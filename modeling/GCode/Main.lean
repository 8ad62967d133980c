import GCode.Command.Annotate

/-!
# The program

Everything that the command can ask about files is read before the command runs.
-/

namespace GCode.Command

def fileError (e : IO.Error) : FileError :=
  match e with
  | .noFileOrDirectory .. => .notFound
  | .inappropriateType .. => .notDirectory
  | .invalidArgument .. => .nameTooLong
  | .permissionDenied .. => .permissionDenied
  | _ => .notFound

def readText (file : String) : IO (Except FileError String) := do
  let path := (← IO.currentDir) / file
  if ← path.isDir then
    return .error .isDirectory
  try
    let bytes ← IO.FS.readBinFile path
    match String.fromUTF8? bytes with
    | some text => return .ok text
    | none => return .error .notText
  catch e =>
    return .error (fileError e)

/-- The names in a directory, if it is one. -/
def readNames (directory : String) : IO (Option (Except FileError (List String))) := do
  let path := (← IO.currentDir) / directory
  if ← path.isDir then
    try
      return some (.ok ((← path.readDir).toList.map fun entry => entry.fileName))
    catch e =>
      return some (.error (fileError e))
  else
    return none

/-- The given directories with the files in them, and one file. -/
def observe (directories : List String) (file : String) : IO FileSystem := do
  let mut names : List (String × Except FileError (List String)) := []
  let mut texts := [(file, ← readText file)]
  for directory in directories do
    match ← readNames directory with
    | none => pure ()
    | some found =>
      names := (directory, found) :: names
      for name in found.toOption.getD [] do
        let path := joinPath directory name
        texts := (path, ← readText path) :: texts
  let (directories, files) := (names, texts)
  return {
    isDirectory := fun path => (directories.lookup path).isSome
    names := fun path => (directories.lookup path).getD (.error .notFound)
    read := fun path => (files.lookup path).getD (.error .notFound) }

/-- The directory for the user's own configuration. -/
def userDirectory : IO (Option String) := do
  match ← IO.getEnv "XDG_CONFIG_HOME" with
  | some directory =>
    if directory.startsWith "/" then
      return some directory
  | none => pure ()
  return (← IO.getEnv "HOME").map fun home => joinPath home ".config"

def main (arguments : List String) : IO UInt32 := do
  let user ← userDirectory
  let files ← match Arguments.parse arguments with
    | .ok a => observe ((user.map Config.userFlavors).toList ++ a.flavorDirectory.toList) a.file
    | .error _ => observe [] ""
  match run files user arguments with
  | .ok outcome =>
    IO.print outcome.output
    IO.eprint outcome.errors
    return outcome.exitCode.toUInt32
  | .error _ =>
    IO.eprint usage
    return 2

end GCode.Command

def main (arguments : List String) : IO UInt32 :=
  GCode.Command.main arguments
