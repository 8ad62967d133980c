import GCode.Token.Cursor

/-!
# Scanners

A scanner holds one text and hands out its tokens on demand. After an error or the end it stays at the
end until it is given a new text.
-/

namespace GCode

structure Scanner where
  /-- The number of characters of the whole text. -/
  length : Nat := 0
  cursor : Cursor := {}
  halted : Bool := false
  deriving DecidableEq, Inhabited

namespace Scanner

/-- Gives the scanner a new text, whatever it did before. -/
def input (_ : Scanner) (text : String) : Scanner where
  length := text.toList.length
  cursor := Cursor.start text.toList
  halted := false

def isEmpty (scanner : Scanner) : Bool :=
  scanner.length = 0

def next (scanner : Scanner) : Option (Except LexicalError PlacedToken) × Scanner :=
  if scanner.halted then
    (none, scanner)
  else
    match scanner.cursor.next? with
    | none => (none, { scanner with halted := true })
    | some (.error e) => (some (.error e), { scanner with halted := true })
    | some (.ok (token, after)) => (some (.ok token), { scanner with cursor := after })

/-- All tokens that are left. -/
def collect (scanner : Scanner) : Except LexicalError (List PlacedToken) × Scanner :=
  let tokens := if scanner.halted then .ok [] else scanner.cursor.tokens
  (tokens, { scanner with halted := true })

def tokenize (scanner : Scanner) (text : String) : Except LexicalError (List PlacedToken) × Scanner :=
  (scanner.input text).collect

/-- What a scanner did before does not matter to a new text. -/
theorem tokenize_fst (scanner : Scanner) (text : String) :
    (scanner.tokenize text).1 = GCode.tokenize text := rfl

/-- A scanner that has halted stays so. -/
theorem next_of_halted {scanner : Scanner} (h : scanner.halted = true) :
    scanner.next = (none, scanner) := by
  simp [next, h]

end Scanner

end GCode
