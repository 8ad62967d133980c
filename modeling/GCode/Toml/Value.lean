/-!
# TOML values
-/

namespace GCode.Toml

/-- How a table came to be, which decides what may still be added to it. -/
inductive Origin where
  /-- Written in braces; nothing can be added. -/
  | inline
  /-- Opened by a header of its own. -/
  | header
  /-- Named only as a part of a longer header. -/
  | implicit
  /-- Made by a dotted key. -/
  | dotted
  deriving DecidableEq, Repr, Inhabited

inductive Value where
  | string (text : String)
  | integer (n : Int)
  | float (x : Float)
  /-- A number that is too large to be kept. It is wrong only where it is looked at. -/
  | outOfRange
  | boolean (b : Bool)
  /-- A date or a time; what it says is not kept. -/
  | moment
  | array (items : List Value)
  | table (origin : Origin) (entries : List (String × Value))
  /-- Tables that share one header; more can be added to the last one. -/
  | tables (before : List Value) (last : List (String × Value))

instance : Inhabited Value := ⟨.boolean false⟩

/-- The entries of a table, in the order in which they were written. -/
abbrev Entries := List (String × Value)

def Entries.set (entries : Entries) (key : String) (value : Value) : Entries :=
  entries.map fun entry => if entry.1 == key then (key, value) else entry

/-! ## Range -/

mutual
/-- No number in a value is too large to be kept. -/
def Value.isInRange : Value → Bool
  | .outOfRange => false
  | .array items => itemsInRange items
  | .table _ entries => entriesInRange entries
  | .tables before last => itemsInRange before && entriesInRange last
  | _ => true

def itemsInRange : List Value → Bool
  | [] => true
  | item :: items => item.isInRange && itemsInRange items

def entriesInRange : List (String × Value) → Bool
  | [] => true
  | (_, value) :: entries => value.isInRange && entriesInRange entries
end

end GCode.Toml
