import GCode.Files.Basic
import GCode.Flavor.FromToml
import GCode.Flavor.Standard

/-!
# The registry of flavors

A registry holds flavors by name, and at most one of the names is active.
-/

namespace GCode

structure Registry where
  /-- Every name once. -/
  flavors : List (String × Flavor) := []
  active : Option String := none
  deriving Inhabited

namespace Registry

def get? (registry : Registry) (name : String) : Option Flavor :=
  registry.flavors.lookup name

/-- Adds a flavor in place of the one with its name. -/
def add (registry : Registry) (flavor : Flavor) : Registry :=
  { registry with
    flavors := (flavor.name, flavor) :: registry.flavors.filter fun entry => entry.1 != flavor.name }

theorem get?_add_self (registry : Registry) (flavor : Flavor) :
    (registry.add flavor).get? flavor.name = some flavor := by
  simp [get?, add]

theorem active_add (registry : Registry) (flavor : Flavor) :
    (registry.add flavor).active = registry.active := rfl

/-- Adds a flavor if it could be loaded. -/
def addLoaded (registry : Registry) : Except LoadError Flavor → Registry
  | .ok flavor => registry.add flavor
  | .error _ => registry

def addStandard (registry : Registry) : Registry :=
  registry.addLoaded Flavor.standard

/-- Makes a name active, and says whether there is a flavor with that name. -/
def activate (registry : Registry) (name : String) : Bool × Registry :=
  if (registry.get? name).isSome then
    (true, { registry with active := some name })
  else
    (false, registry)

def activeFlavor? (registry : Registry) : Option Flavor :=
  registry.active.bind registry.get?

/-- The registry of the standard flavor, which is active. -/
def withStandard : Registry :=
  ((({} : Registry).addStandard).activate Flavor.standardName).2

/-- The names in order. -/
def names (registry : Registry) : List String :=
  (registry.flavors.map Prod.fst).mergeSort fun a b => !decide (b < a)

/-! ## Loading files -/

def readFlavor (files : FileSystem) (path : String) : Except LoadError Flavor :=
  match files.read path with
  | .ok text => Flavor.ofToml text
  | .error e => .error (.unreadable path e)

/-- The paths of the flavor files among the names in a directory, in order. -/
def flavorPaths (directory : String) (names : List String) : List String :=
  ((names.filter fun name => extension? name = some "toml").mergeSort fun a b => !decide (b < a)).map
    (joinPath directory)

/-- Adds the flavor of a file, if it has one, and counts it. -/
def loadFile (files : FileSystem) (state : Nat × Registry) (path : String) : Nat × Registry :=
  match readFlavor files path with
  | .ok flavor => (state.1 + 1, state.2.add flavor)
  | .error _ => state

/-- Adds the flavors of a directory and gives their number. A directory that is missing has none, and one
that cannot be read is an error. -/
def loadDirectory (registry : Registry) (files : FileSystem) (directory : String) :
    Except LoadError Nat × Registry :=
  if files.isDirectory directory then
    match files.names directory with
    | .ok names =>
      let (count, registry) := (flavorPaths directory names).foldl (loadFile files) (0, registry)
      (.ok count, registry)
    | .error e => (.error (.unreadable directory e), registry)
  else
    (.ok 0, registry)

end Registry

end GCode
