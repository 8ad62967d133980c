/-!
# Comparing texts without regard to case

Only the letters `A` to `Z` have two cases here.
-/

namespace GCode.Text

def sameIgnoringCase (a b : String) : Bool :=
  a.toList.map Char.toLower == b.toList.map Char.toLower

/-- Whether the second text starts with the first one, in either case. -/
def startsIgnoringCase : List Char → List Char → Bool
  | [], _ => true
  | _ :: _, [] => false
  | k :: ks, c :: cs => k.toLower == c.toLower && startsIgnoringCase ks cs

end GCode.Text
