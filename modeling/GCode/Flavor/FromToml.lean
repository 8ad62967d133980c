import GCode.Flavor.Basic
import GCode.Toml.Document

/-!
# Flavors in TOML

A document describes a flavor by tables with the names of the fields. Other names are ignored. A record
can also be written as an array of its fields in order.
-/

namespace GCode.Flavor.FromToml

open Toml (Value Entries)

/-! ## Fields -/

def string? : Value → Option String
  | .string text => some text
  | _ => none

/-- An integer counts as a number, if it has at most 64 bits. -/
def number? : Value → Option Float
  | .float x => some x
  | .integer n => if Int64.minValue.toInt ≤ n ∧ n < UInt64.size then some (Binary64.ofInt n) else none
  | _ => none

def index? : Value → Option UInt32
  | .integer n => Number.indexOf? n
  | _ => none

def items? : Value → Option (List Value)
  | .array items => some items
  | .tables before last => some (before ++ [.table .header last])
  | _ => none

def isEmpty : Value → Bool
  | .array [] | .table _ [] => true
  | _ => false

def kindNamed? (name : String) : Option GroupKind :=
  if name = "G" then some .g else if name = "M" then some .m else none

/-- A kind is given by its name, or by the only name in a table with nothing behind it. -/
def kind? : Value → Option GroupKind
  | .string name => kindNamed? name
  | .table _ [(name, value)] => if isEmpty value then kindNamed? name else none
  | _ => none

def listOf? {α : Type} (read? : Value → Option α) (value : Value) : Option (List α) :=
  (items? value).bind fun items => items.mapM read?

/-! ## Records -/

/-- The values of the named fields; a field that is not there has none. Entries with other names have no
meaning, but their numbers have to be in range. -/
def named? (names : List String) (entries : Entries) : Option (List (Option Value)) :=
  if entries.all fun (name, value) => names.contains name || value.isInRange then
    some (names.map fun name => entries.lookup name)
  else
    none

/-- The values of the fields of a record. What follows them in an array is never looked at. -/
def fields? (names : List String) : Value → Option (List (Option Value))
  | .table _ entries => named? names entries
  | .array items =>
    if names.length ≤ items.length then some ((items.take names.length).map some) else none
  | _ => none

def required? {α : Type} (read? : Value → Option α) (value : Option Value) : Option α :=
  value.bind read?

/-- A field that may be missing, but not be of a wrong kind. -/
def optional? {α : Type} (read? : Value → Option α) : Option Value → Option (Option α)
  | none => some none
  | some value => (read? value).map some

def code? (value : Value) : Option CodeDefinition := do
  match ← fields? ["code", "meaning", "doc"] value with
  | [code, meaning, doc] =>
    return ⟨← required? string? code, ← required? string? meaning, ← optional? string? doc⟩
  | _ => none

def letter? (value : Value) : Option LetterDefinition := do
  match ← fields? ["letter", "meaning"] value with
  | [letter, meaning] => return ⟨← required? string? letter, ← required? string? meaning⟩
  | _ => none

def modalGroup? (value : Value) : Option ModalGroupDefinition := do
  match ← fields? ["index", "kind", "meaning", "gcodes"] value with
  | [index, kind, meaning, codes] =>
    return ⟨← required? index? index, (← optional? kind? kind).getD .g, ← required? string? meaning,
      ← required? (listOf? string?) codes⟩
  | _ => none

def executionGroup? (value : Value) : Option ExecutionGroupDefinition := do
  match ← fields? ["index", "meaning", "gcodes"] value with
  | [index, meaning, codes] =>
    return ⟨← required? index? index, ← required? string? meaning,
      ← required? (listOf? string?) codes⟩
  | _ => none

def parameter? (value : Value) : Option ParameterDefinition := do
  match ← fields? ["index", "value", "meaning"] value with
  | [index, x, meaning] =>
    return ⟨← required? index? index, ← required? number? x, ← required? string? meaning⟩
  | _ => none

/-- The name, version and description of a flavor. -/
def title? (value : Value) : Option (String × Option String × Option String) := do
  match ← fields? ["name", "version", "description"] value with
  | [name, version, description] =>
    return (← required? string? name, ← optional? string? version, ← optional? string? description)
  | _ => none

/-- The records of a table that may be missing. -/
def table? {α : Type} (read? : Value → Option α) : Option Value → Option (List α)
  | none => some []
  | some value => listOf? read? value

def definition? (entries : Entries) : Option FlavorDefinition := do
  let names := ["flavor", "gcodes", "letters", "modal_groups", "execution_order", "parameters"]
  match ← named? names entries with
  | [title, codes, letters, modalGroups, executionOrder, parameters] =>
    let (name, version, description) ← required? title? title
    return {
      name, version, description
      codes := ← table? code? codes
      letters := ← table? letter? letters
      modalGroups := ← table? modalGroup? modalGroups
      executionOrder := ← table? executionGroup? executionOrder
      parameters := ← table? parameter? parameters }
  | _ => none

end GCode.Flavor.FromToml

namespace GCode.Flavor

/-- The definition that a document gives. -/
def definitionOfToml (text : String) : Except LoadError FlavorDefinition :=
  match (Toml.read? text).bind FromToml.definition? with
  | some definition => .ok definition
  | none => .error .invalidDocument

def ofToml (text : String) : Except LoadError Flavor :=
  definitionOfToml text >>= load

end GCode.Flavor
