/-!
# File systems

What a program can ask about files. A path is a text, relative to the current directory.
-/

namespace GCode

inductive FileError where
  | notFound
  | notDirectory
  | isDirectory
  | nameTooLong
  | permissionDenied
  | notText
  deriving DecidableEq, Repr, Inhabited

def FileError.message : FileError → String
  | notFound => "No such file or directory (os error 2)"
  | notDirectory => "Not a directory (os error 20)"
  | isDirectory => "Is a directory (os error 21)"
  | nameTooLong => "File name too long (os error 36)"
  | permissionDenied => "Permission denied (os error 13)"
  | notText => "stream did not contain valid UTF-8"

structure FileSystem where
  isDirectory : String → Bool
  /-- The names in a directory, in any order. -/
  names : String → Except FileError (List String)
  read : String → Except FileError String

/-- The most bytes of a name in a directory. -/
def longestName : Nat := 255

/-- The most bytes of a path. -/
def longestPath : Nat := 4095

/-- The path of a name in a directory. -/
def joinPath (directory name : String) : String :=
  if directory.toList.getLast? = some '/' then directory ++ name else directory ++ "/" ++ name

/-- What stands behind the last point of a name, unless the name starts with that point. -/
def extension? (name : String) : Option String :=
  let behind := (name.toList.reverse.takeWhile (· ≠ '.')).reverse
  let stem := name.toList.length - behind.length - 1
  if behind.length < name.toList.length && stem ≠ 0 then some (String.ofList behind) else none

end GCode
