import GCode.Token.Scan

/-!
# Cutting a text into tokens

A cursor stands between two tokens. It moves over one token at a time, and the text behind it gets
shorter with every move.
-/

namespace GCode

structure Cursor where
  position : Nat := 0
  /-- Whether the token before the cursor ends an operand. -/
  afterOperand : Bool := false
  rest : List Char := []
  deriving DecidableEq, Inhabited

namespace Cursor

def start (cs : List Char) : Cursor :=
  { rest := cs }

def skipGap (cursor : Cursor) : Cursor :=
  { cursor with
    position := cursor.position + (cursor.rest.takeWhile isGap).length
    rest := cursor.rest.dropWhile isGap }

/-- Over a lexeme that starts with the first character of the rest. -/
def advance (cursor : Cursor) (lexeme : Lexeme) : Cursor where
  position := cursor.position + lexeme.width
  afterOperand := lexeme.token.endsOperand
  rest := cursor.rest.drop (max lexeme.width 1)

/-- The next token and the cursor behind it; nothing at the end of the text. -/
def next? (cursor : Cursor) : Option (Except LexicalError (PlacedToken × Cursor)) :=
  let here := cursor.skipGap
  match here.rest with
  | [] => none
  | c :: cs =>
    match Lexeme.scan here.afterOperand here.position c cs with
    | .ok lexeme => some (.ok (⟨lexeme.token, here.position⟩, here.advance lexeme))
    | .error e => some (.error e)

theorem length_skipGap_le (cursor : Cursor) : cursor.skipGap.rest.length ≤ cursor.rest.length := by
  simpa [skipGap] using (List.dropWhile_suffix isGap).length_le

theorem length_next_lt {cursor after : Cursor} {token : PlacedToken}
    (h : cursor.next? = some (.ok (token, after))) : after.rest.length < cursor.rest.length := by
  have hle := cursor.length_skipGap_le
  simp only [next?] at h
  split at h
  · simp at h
  · next c cs hrest =>
    split at h
    · simp only [Option.some.injEq, Except.ok.injEq, Prod.mk.injEq] at h
      rw [← h.2]
      simp only [advance, List.length_drop]
      rw [hrest] at hle ⊢
      simp only [List.length_cons] at hle ⊢
      omega
    · simp at h

/-- The tokens up to the end of the text or to the first error. -/
def run (cursor : Cursor) : List PlacedToken × Option LexicalError :=
  match _h : cursor.next? with
  | none => ([], none)
  | some (.error e) => ([], some e)
  | some (.ok (token, after)) =>
    let (tokens, failure) := after.run
    (token :: tokens, failure)
termination_by cursor.rest.length
decreasing_by exact length_next_lt _h

/-- All tokens of the text, or the first error. -/
def tokens (cursor : Cursor) : Except LexicalError (List PlacedToken) :=
  match cursor.run with
  | (tokens, none) => .ok tokens
  | (_, some e) => .error e

end Cursor

/-- The tokens of one line. -/
def tokenize (text : String) : Except LexicalError (List PlacedToken) :=
  (Cursor.start text.toList).tokens

end GCode
