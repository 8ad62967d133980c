/-!
# Arguments of the command line

One file, and options with one value each. A value stands behind its option, or in the same argument
behind an equals sign.
-/

namespace GCode.Command

structure Arguments where
  file : String
  flavor : Option String := none
  flavorDirectory : Option String := none
  logLevel : String := "warn"
  deriving DecidableEq, Repr, Inhabited

/-- Why the arguments are no request to annotate a file. -/
inductive UsageError where
  | missingRequiredArgument
  | unknownArgument
  | invalidValue
  | argumentConflict
  | tooManyValues
  | displayHelp
  | displayVersion
  deriving DecidableEq, Repr, Inhabited

/-- What a value can be for. -/
inductive Slot where
  | file
  | flavor
  | flavorDirectory
  | logLevel
  deriving DecidableEq, Repr, Inhabited

namespace Slot

def ofOption? (name : List Char) : Option Slot :=
  if name = "flavor".toList then some flavor
  else if name = "flavor-dir".toList then some flavorDirectory
  else if name = "log-level".toList then some logLevel
  else none

/-- A path is never empty. -/
def isPath : Slot → Bool
  | file | flavorDirectory => true
  | _ => false

end Slot

namespace Arguments

/-- What is known after some arguments. The last slot is filled only when the next one is begun. -/
structure State where
  given : List (Slot × String) := []
  pending : Option (Slot × Option String) := none
  deriving DecidableEq, Inhabited

namespace State

def fill (state : State) (slot : Slot) (value : String) : Except UsageError State :=
  if (state.given.lookup slot).isSome then
    .error .argumentConflict
  else if slot.isPath && value.isEmpty then
    .error .invalidValue
  else
    .ok { state with given := state.given ++ [(slot, value)] }

def settle (state : State) : Except UsageError State :=
  match state.pending with
  | none => .ok state
  | some (_, none) => .error .invalidValue
  | some (slot, some value) => { state with pending := none }.fill slot value

/-- Settles what is pending and begins a slot. -/
def begin (state : State) (slot : Slot) (value : Option String) : Except UsageError State := do
  let state ← state.settle
  return { state with pending := some (slot, value) }

def hasFile (state : State) : Bool :=
  (state.given.lookup .file).isSome || state.pending.any fun p => p.1 = .file

def positional (state : State) (argument : String) : Except UsageError State :=
  if state.hasFile then .error .unknownArgument else state.begin .file (some argument)

/-- Settles what is pending, and ends with a request if that succeeds. -/
def request {α : Type} (state : State) (e : UsageError) : Except UsageError α := do
  let _ ← state.settle
  throw e

/-- An argument that starts with two dashes, without them. -/
def long (state : State) (cs : List Char) : Except UsageError State :=
  let name := cs.takeWhile (· ≠ '=')
  let value : Option String :=
    match cs.drop name.length with
    | _ :: value => some (String.ofList value)
    | [] => none
  match Slot.ofOption? name, value with
  | some slot, some value => do
    let state ← state.settle
    state.fill slot value
  | some slot, none => state.begin slot none
  | none, value =>
    if name = "help".toList ∨ name = "version".toList then
      if value.isSome then .error .tooManyValues
      else state.request (if name = "help".toList then .displayHelp else .displayVersion)
    else
      .error .unknownArgument

/-- An argument that starts with one dash and goes on with this character. -/
def short (state : State) (c : Char) : Except UsageError State :=
  if c = 'h' then state.request .displayHelp
  else if c = 'V' then state.request .displayVersion
  else .error .unknownArgument

/-- An argument that is no option. -/
def plain (state : State) (argument : String) : Except UsageError State :=
  match state.pending with
  | some (slot, none) => .ok { state with pending := some (slot, some argument) }
  | _ => state.positional argument

/-- Reads the arguments; two dashes alone end the options. -/
def read : State → List String → Except UsageError State
  | state, [] => state.settle
  | state, argument :: arguments => do
    match argument.toList with
    | ['-', '-'] => do
      let state ← arguments.foldlM positional state
      state.settle
    | '-' :: '-' :: cs => do
      let state ← state.long cs
      state.read arguments
    | '-' :: c :: _ => do
      let state ← state.short c
      state.read arguments
    | _ => do
      let state ← state.plain argument
      state.read arguments

end State

def parse (arguments : List String) : Except UsageError Arguments := do
  let state ← ({} : State).read arguments
  match state.given.lookup .file with
  | none => throw .missingRequiredArgument
  | some file =>
    return {
      file
      flavor := state.given.lookup .flavor
      flavorDirectory := state.given.lookup .flavorDirectory
      logLevel := (state.given.lookup .logLevel).getD "warn" }

end Arguments

end GCode.Command
