/-!
# Failures

Why a command could not begin with its work, and what has caused that.
-/

namespace GCode.Command

/-- A message, what has caused it, the cause of that, and so on. -/
structure Failure where
  message : String
  causes : List String := []
  deriving DecidableEq, Repr, Inhabited

namespace Failure

/-- A text behind a mark. The further lines of the text stand below the first one. -/
def hanging (mark text : String) : String :=
  let margin := List.replicate mark.toList.length ' '
  mark ++ String.ofList (text.toList.flatMap fun c => if c = '\n' then c :: margin else [c])

/-- The causes below a message. They are numbered if there are several. -/
def causeLines : List String → List String
  | [] => []
  | [cause] => ["", "Caused by:", hanging "    " cause]
  | causes =>
    "" :: "Caused by:" ::
      causes.zipIdx.map fun (cause, n) =>
        hanging (String.ofList (n.repr.toList.leftpad 5 ' ') ++ ": ") cause

/-- The lines that are printed for a failure. -/
def lines (failure : Failure) : List String :=
  ("Error: " ++ failure.message) :: causeLines failure.causes

end Failure

end GCode.Command
