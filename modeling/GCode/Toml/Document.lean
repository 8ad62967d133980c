import GCode.Toml.Bare
import GCode.Toml.Quoted

/-!
# TOML documents

A document is a list of entries and headers, one on a line. A header says which table the entries
behind it belong to.
-/

namespace GCode.Toml

/-! ## Adding to tables -/

/-- Changes the table at the end of a path of headers. Tables on the way that are missing are made. -/
def modify (change : Entries → Option Entries) : List String → Entries → Option Entries
  | [], entries => change entries
  | key :: keys, entries =>
    match entries.lookup key with
    | none => (modify change keys []).map fun sub => entries ++ [(key, .table .implicit sub)]
    | some (.table origin sub) =>
      if origin = .inline then
        none
      else
        (modify change keys sub).map fun sub => entries.set key (.table origin sub)
    | some (.tables before last) =>
      (modify change keys last).map fun last => entries.set key (.tables before last)
    | some _ => none

/-- Opens the table with this key. A table has at most one header. -/
def openTable (key : String) (entries : Entries) : Option Entries :=
  match entries.lookup key with
  | none => some (entries ++ [(key, .table .header [])])
  | some (.table .implicit sub) => some (entries.set key (.table .header sub))
  | some _ => none

/-- Opens one more of the tables with this key. -/
def openNext (key : String) (entries : Entries) : Option Entries :=
  match entries.lookup key with
  | none => some (entries ++ [(key, .tables [] [])])
  | some (.tables before last) => some (entries.set key (.tables (before ++ [.table .header last]) []))
  | some _ => none

/-- Adds an entry with a dotted key. No table with braces or with a header of its own is on its way, but
the last of the tables that share a header can be passed through. The table that the entry comes to counts
as made by a dotted key. -/
def insert (value : Value) : List String → Entries → Option Entries
  | [], _ => none
  | [key], entries =>
    match entries.lookup key with
    | none => some (entries ++ [(key, value)])
    | some _ => none
  | key :: keys, entries =>
    match entries.lookup key with
    | none => (insert value keys []).map fun sub => entries ++ [(key, .table .dotted sub)]
    | some (.table origin sub) =>
      if origin = .inline ∨ origin = .header then
        none
      else
        (insert value keys sub).map fun sub =>
          entries.set key (.table (if keys.length = 1 then .dotted else origin) sub)
    | some (.tables before last) =>
      if keys.length = 1 then
        none
      else
        (insert value keys last).map fun last => entries.set key (.tables before last)
    | some _ => none

/-! ## Keys -/

def isKeyChar (c : Char) : Bool :=
  c.isAlphanum || c = '_' || c = '-'

/-- One part of a key: bare, or quoted on one line. -/
def keyPart? (steps : Nat) : List Char → Option (String × List Char)
  | '"' :: cs => basic steps [] cs
  | '\'' :: cs => literal cs
  | cs =>
    let key := cs.takeWhile isKeyChar
    if key.isEmpty then none else some (String.ofList key, cs.drop key.length)

/-- The parts of a key with the spaces around them, and what follows. -/
def keyParts? (steps : Nat) (cs : List Char) : Option (List String × List Char) :=
  match steps with
  | 0 => none
  | steps + 1 => do
    let (part, cs) ← keyPart? (steps + 1) (cs.dropWhile isSpace)
    match cs.dropWhile isSpace with
    | '.' :: cs => do
      let (parts, cs) ← keyParts? steps cs
      return (part :: parts, cs)
    | cs => return ([part], cs)

/-- The parts that a key can have, and the brackets that can be open in a value. -/
def depthLimit : Nat := 80

def key? (steps : Nat) (cs : List Char) : Option (List String × List Char) :=
  (keyParts? steps cs).filter fun (parts, _) => parts.length ≤ depthLimit

/-! ## Values -/

/-- The text behind a comment, at the end of its line. -/
def skipComment (cs : List Char) : Option (List Char) :=
  match cs with
  | '#' :: cs =>
    match cs.dropWhile fun c => !isControl c with
    | [] => some []
    | rest => (newline? rest).map fun _ => rest
  | cs => some cs

/-- The text behind spaces, line ends and comments. -/
def skipBlank (steps : Nat) (cs : List Char) : Option (List Char) :=
  match steps with
  | 0 => none
  | steps + 1 =>
    match cs.dropWhile isSpace with
    | '#' :: cs => (skipComment ('#' :: cs)).bind (skipBlank steps)
    | cs =>
      match newline? cs with
      | some rest => skipBlank steps rest
      | none => some cs

mutual
/-- A value in which so many more brackets can be opened. -/
def value? (steps depth : Nat) (cs : List Char) : Option (Value × List Char) :=
  match steps with
  | 0 => none
  | steps + 1 =>
    match cs with
    | '[' :: cs => if depth = 0 then none else items? steps (depth - 1) [] cs
    | '\x7b' :: cs => if depth = 0 then none else inline? steps (depth - 1) [] cs
    | '"' :: _ => (quoted? (steps + 1) cs).map fun (text, rest) => (.string text, rest)
    | '\'' :: _ => (quoted? (steps + 1) cs).map fun (text, rest) => (.string text, rest)
    | _ =>
      let text := cutBare cs
      (bare? text).map fun value => (value, cs.drop text.length)

/-- The items of an array behind those already read. -/
def items? (steps depth : Nat) (read : List Value) (cs : List Char) : Option (Value × List Char) :=
  match steps with
  | 0 => none
  | steps + 1 => do
    match ← skipBlank (steps + 1) cs with
    | ']' :: cs => some (.array read, cs)
    | cs =>
      let (item, cs) ← value? steps depth cs
      match ← skipBlank (steps + 1) cs with
      | ',' :: cs => items? steps depth (read ++ [item]) cs
      | ']' :: cs => some (.array (read ++ [item]), cs)
      | _ => none

/-- The entries of an inline table behind those already read. -/
def inline? (steps depth : Nat) (read : Entries) (cs : List Char) : Option (Value × List Char) :=
  match steps with
  | 0 => none
  | steps + 1 => do
    match ← skipBlank (steps + 1) cs with
    | '\x7d' :: cs => some (.table .inline read, cs)
    | cs =>
      let (keys, cs) ← key? (steps + 1) cs
      match cs with
      | '=' :: cs =>
        let (value, cs) ← value? steps depth (cs.dropWhile isSpace)
        let read ← insert value keys read
        match ← skipBlank (steps + 1) cs with
        | ',' :: cs => inline? steps depth read cs
        | '\x7d' :: cs => some (.table .inline read, cs)
        | _ => none
      | _ => none
end

/-! ## Lines -/

/-- A document up to some line: all its entries, and the path of the table that is open. -/
structure Document where
  entries : Entries := []
  path : List String := []

/-- A header opens the table at the end of its path. -/
def Document.enter (document : Document) (change : String → Entries → Option Entries)
    (path : List String) : Option Document := do
  let last ← path.getLast?
  let entries ← modify (change last) path.dropLast document.entries
  return ⟨entries, path⟩

/-- One header or entry, and the text behind it. -/
def statement? (steps : Nat) (document : Document) (cs : List Char) : Option (Document × List Char) :=
  match cs with
  | '[' :: '[' :: cs => do
    let (path, cs) ← key? steps cs
    let cs ← (skip ']' cs).bind (skip ']')
    return (← document.enter openNext path, cs)
  | '[' :: cs => do
    let (path, cs) ← key? steps cs
    let cs ← skip ']' cs
    return (← document.enter openTable path, cs)
  | cs => do
    let (keys, cs) ← key? steps cs
    let cs ← skip '=' cs
    let (value, cs) ← value? steps depthLimit (cs.dropWhile isSpace)
    let entries ← modify (insert value keys) document.path document.entries
    return (⟨entries, document.path⟩, cs)

/-- Only spaces and a comment can stand behind a header or an entry. -/
def lineEnd? (cs : List Char) : Option (List Char) := do
  let cs ← skipComment (cs.dropWhile isSpace)
  if cs.isEmpty || (newline? cs).isSome then some cs else none

def statements? (steps : Nat) (document : Document) (cs : List Char) : Option Document :=
  match steps with
  | 0 => none
  | steps + 1 => do
    match ← skipBlank (steps + 1) cs with
    | [] => some document
    | cs =>
      let (document, cs) ← statement? (steps + 1) document cs
      statements? steps document (← lineEnd? cs)

/-- The entries of a document, if it is well-formed. A mark of the byte order is skipped. -/
def read? (text : String) : Option Entries :=
  let cs := match text.toList with
    | '\ufeff' :: cs => cs
    | cs => cs
  (statements? (cs.length + 2) {} cs).map Document.entries

end GCode.Toml
