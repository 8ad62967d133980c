import GCode.Files.Basic

/-!
# Errors in tables
-/

namespace GCode

/-- Why the tables of a flavor cannot be loaded. -/
inductive LoadError where
  | unexpectedIndex (found : UInt32) (expected : Nat)
  | unknownCode (table code : String)
  /-- The start of the range comes after its end. -/
  | invalidRange (range : String)
  | malformedRange (entry : String)
  | duplicateEntry (table key : String)
  | alreadyAssigned (code table existing : String)
  | missingEntry (table key : String)
  | invalidCode (text : String)
  | invalidLetter (text : String)
  /-- The text is not a TOML document that describes a flavor. -/
  | invalidDocument
  /-- The file or directory cannot be read. -/
  | unreadable (path : String) (cause : FileError)
  deriving DecidableEq, Inhabited

def LoadError.message : LoadError → String
  | unexpectedIndex found expected =>
    "execution order index " ++ found.toNat.repr ++ " is out of sequence, expected " ++ expected.repr
  | unknownCode table code => table ++ " references unknown G-code '" ++ code ++ "'"
  | invalidRange range => "invalid range '" ++ range ++ "': start is after stop"
  | malformedRange entry => "malformed range '" ++ entry ++ "'"
  | duplicateEntry table key => "duplicate " ++ table ++ " entry '" ++ key ++ "'"
  | alreadyAssigned code table existing =>
    "G-code '" ++ code ++ "' already belongs to " ++ table ++ " " ++ existing
  | missingEntry table key => table ++ " " ++ key ++ " has no entries"
  | invalidCode text => "'" ++ text ++ "' is not a valid G-code"
  | invalidLetter text => "'" ++ text ++ "' is not a valid letter"
  | invalidDocument => "failed to parse flavor TOML"
  | unreadable path cause => "failed to read " ++ path ++ ": " ++ cause.message

/-- What has caused an error, where that is known. -/
def LoadError.cause? : LoadError → Option FileError
  | unreadable _ cause => some cause
  | _ => none

end GCode
