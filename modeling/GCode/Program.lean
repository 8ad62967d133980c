import GCode.Line.Basic

/-!
# Programs
-/

namespace GCode

structure Program where
  lines : List Line := []
  deriving BEq, DecidableEq, Inhabited

namespace Program

def push (program : Program) (line : Line) : Program :=
  { lines := program.lines ++ [line] }

/-- The lines that no machine may leave out. -/
def notDeleted (program : Program) : List Line :=
  program.lines.filter fun line => !line.deleted

def text (program : Program) : String :=
  "\n".intercalate (program.lines.map Line.text)

end Program

end GCode
