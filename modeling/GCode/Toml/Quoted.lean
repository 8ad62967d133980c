/-!
# Quoted strings of TOML

A reader gives what it has read and the text behind it, or nothing if the text is malformed. A reader
that repeats itself takes a bound on the number of its steps, for which the length of the text is
enough.
-/

namespace GCode.Toml

/-- Control characters other than the tab stand nowhere in a document. -/
def isControl (c : Char) : Bool :=
  (c.toNat < 0x20 && c ≠ '\t') || c = '\x7f'

def isSpace (c : Char) : Bool :=
  c = ' ' || c = '\t'

def hexDigit? (c : Char) : Option Nat :=
  if c.isDigit then some (c.toNat - '0'.toNat)
  else if 'a' ≤ c ∧ c ≤ 'f' then some (c.toNat - 'a'.toNat + 10)
  else if 'A' ≤ c ∧ c ≤ 'F' then some (c.toNat - 'A'.toNat + 10)
  else none

def hexValue? (cs : List Char) : Option Nat :=
  cs.foldlM (fun n c => (hexDigit? c).map (16 * n + ·)) 0

/-- The character whose number is written with the given count of digits. -/
def numberedChar (count : Nat) (cs : List Char) : Option (Char × List Char) := do
  if cs.length < count then
    none
  let n ← hexValue? (cs.take count)
  if n < 0xd800 || (0xe000 ≤ n && n < 0x110000) then
    return (Char.ofNat n, cs.drop count)
  else
    none

/-- The character that is escaped, behind the backslash. -/
def escapedChar : List Char → Option (Char × List Char)
  | 'b' :: cs => some ('\x08', cs)
  | 't' :: cs => some ('\t', cs)
  | 'n' :: cs => some ('\n', cs)
  | 'f' :: cs => some ('\x0c', cs)
  | 'r' :: cs => some ('\r', cs)
  | 'e' :: cs => some ('\x1b', cs)
  | '"' :: cs => some ('"', cs)
  | '\\' :: cs => some ('\\', cs)
  | 'x' :: cs => numberedChar 2 cs
  | 'u' :: cs => numberedChar 4 cs
  | 'U' :: cs => numberedChar 8 cs
  | _ => none

/-- A string of one line, behind its opening quote. -/
def basic (steps : Nat) (read cs : List Char) : Option (String × List Char) :=
  match steps, cs with
  | 0, _ => none
  | _, [] => none
  | steps + 1, c :: cs =>
    if c = '"' then
      some (String.ofList read.reverse, cs)
    else if c = '\\' then
      match escapedChar cs with
      | some (c, cs) => basic steps (c :: read) cs
      | none => none
    else if isControl c then
      none
    else
      basic steps (c :: read) cs

/-- A string of one line without escapes, behind its opening quote. -/
def literal (cs : List Char) : Option (String × List Char) :=
  let text := cs.takeWhile fun c => c ≠ '\'' && !isControl c
  match cs.drop text.length with
  | '\'' :: rest => some (String.ofList text, rest)
  | _ => none

/-- A line feed, alone or behind a carriage return, at the front. -/
def newline? : List Char → Option (List Char)
  | '\n' :: cs => some cs
  | '\r' :: '\n' :: cs => some cs
  | _ => none

def dropNewline (cs : List Char) : List Char :=
  (newline? cs).getD cs

/-- The text behind spaces and line ends. -/
def dropLines : List Char → List Char
  | '\r' :: '\n' :: cs => dropLines cs
  | c :: cs => if isSpace c || c = '\n' then dropLines cs else c :: cs
  | [] => []

/-- The text behind a backslash that ends its line, without the spaces and line ends in front. -/
def continued? (cs : List Char) : Option (List Char) :=
  (newline? (cs.dropWhile isSpace)).map dropLines

/-- Up to two quotes can stand directly before the closing three. -/
def closing? (quote : Char) (cs : List Char) : Option (List Char × List Char) :=
  let count := min (cs.takeWhile (· = quote)).length 5
  if count < 3 then none else some (List.replicate (count - 3) quote, cs.drop count)

/-- A string of many lines, behind its opening quotes; without escapes if the quotes are single ones. -/
def multiline (quote : Char) (steps : Nat) (read cs : List Char) : Option (String × List Char) :=
  match steps, cs with
  | 0, _ => none
  | _, [] => none
  | steps + 1, c :: cs =>
    match closing? quote (c :: cs) with
    | some (quotes, rest) => some (String.ofList (read.reverse ++ quotes), rest)
    | none =>
      if c = '\\' && quote = '"' then
        match continued? cs with
        | some rest => multiline quote steps read rest
        | none =>
          match escapedChar cs with
          | some (c, cs) => multiline quote steps (c :: read) cs
          | none => none
      else if c = '\r' then
        match cs with
        | '\n' :: cs => multiline quote steps ('\n' :: c :: read) cs
        | _ => none
      else if isControl c && c ≠ '\n' then
        none
      else
        multiline quote steps (c :: read) cs

/-- A string of any kind. -/
def quoted? (steps : Nat) : List Char → Option (String × List Char)
  | '"' :: '"' :: '"' :: cs => multiline '"' steps [] (dropNewline cs)
  | '\'' :: '\'' :: '\'' :: cs => multiline '\'' steps [] (dropNewline cs)
  | '"' :: cs => basic steps [] cs
  | '\'' :: cs => literal cs
  | _ => none

end GCode.Toml
