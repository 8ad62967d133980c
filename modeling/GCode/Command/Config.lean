import GCode.Command.Arguments
import GCode.Command.Failure
import GCode.Flavor.Registry

/-!
# Configuration

Where flavors are looked for, and which one is used.
-/

namespace GCode.Command

structure Config where
  file : String
  /-- The flavor that was asked for. -/
  flavor : Option String
  /-- A flavor of a later directory takes the place of an earlier one with its name. -/
  flavorDirectories : List String
  logLevel : String
  deriving DecidableEq, Repr, Inhabited

namespace Config

/-- The directory for flavors below the user's own directory for configuration. -/
def userFlavors (directory : String) : String :=
  joinPath (joinPath directory "rs274") "flavors"

/-- The configuration for some arguments, or why there is none. -/
def ofArguments (files : FileSystem) (userDirectory : Option String) (arguments : Arguments) :
    Except Failure Config :=
  let config (custom : List String) : Config :=
    { file := arguments.file
      flavor := arguments.flavor
      flavorDirectories := (userDirectory.map userFlavors).toList ++ custom
      logLevel := arguments.logLevel }
  match arguments.flavorDirectory with
  | none => .ok (config [])
  | some directory =>
    if files.isDirectory directory then
      .ok (config [directory])
    else
      .error { message := "flavor directory " ++ directory ++ " does not exist" }

def effectiveFlavor (config : Config) : String :=
  config.flavor.getD Flavor.standardName

/-- Adds the flavors of a directory. -/
def loadFlavors (files : FileSystem) (registry : Registry) (directory : String) : Except Failure Registry :=
  match registry.loadDirectory files directory with
  | (.ok _, registry) => .ok registry
  | (.error e, _) =>
    .error {
      message := "failed to load flavors from " ++ directory
      causes := e.message :: (e.cause?.map FileError.message).toList }

/-- The standard flavor and those of all directories, with the effective one active. -/
def registry (files : FileSystem) (config : Config) : Except Failure Registry := do
  let loaded ← config.flavorDirectories.foldlM (loadFlavors files) Registry.withStandard
  match loaded.activate config.effectiveFlavor with
  | (true, registry) => return registry
  | (false, registry) =>
    .error {
      message := "unknown flavor '" ++ config.effectiveFlavor ++ "', available: "
        ++ ", ".intercalate registry.names }

end Config

end GCode.Command
