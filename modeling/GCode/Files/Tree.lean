import GCode.Files.Basic

/-!
# File trees

A finite tree of directories and files, as a list of its nodes.
-/

namespace GCode

/-- The names on the way from the root. -/
abbrev TreePath := List String

structure FileTree where
  /-- The contents of every file; a directory has none. -/
  nodes : List (TreePath × Option ByteArray) := []
  deriving Inhabited

namespace FileTree

def node? (tree : FileTree) (path : TreePath) : Option (Option ByteArray) :=
  if path.isEmpty then some none else tree.nodes.lookup path

def set (tree : FileTree) (path : TreePath) (content : Option ByteArray) : FileTree :=
  ⟨(path, content) :: tree.nodes.filter fun node => node.1 != path⟩

/-- Adds a node, and the directories on its way that are missing. -/
def add (tree : FileTree) (path : TreePath) (content : Option ByteArray) : FileTree :=
  let parents := (List.range path.length).map path.take
  let withParent (tree : FileTree) (path : TreePath) : FileTree :=
    if (tree.node? path).isSome then tree else tree.set path none
  (parents.foldl withParent tree).set path content

/-! ## Paths -/

/-- Where a path has led. -/
inductive Place where
  | node (path : TreePath)
  /-- A directory around the tree. What else is in it is not known. -/
  | outside
  deriving DecidableEq, Repr, Inhabited

def Place.parent : Place → Place
  | .node (name :: names) => .node (name :: names).dropLast
  | _ => .outside

def hasDirectory (tree : FileTree) : Place → Bool
  | .node path => (tree.node? path).any Option.isNone
  | .outside => true

/-- The node with a name in a directory. -/
def child? (tree : FileTree) (name : String) : Place → Option Place
  | .node path => if (tree.node? (path ++ [name])).isSome then some (.node (path ++ [name])) else none
  | .outside => none

/-- Goes along the parts of a path from a place. -/
def walk (tree : FileTree) : Place → List String → Except FileError Place
  | here, [] => .ok here
  | here, part :: parts =>
    if !tree.hasDirectory here then
      .error .notDirectory
    else if part = "" ∨ part = "." then
      tree.walk here parts
    else if part = ".." then
      tree.walk here.parent parts
    else if longestName < part.utf8ByteSize then
      .error .nameTooLong
    else
      match tree.child? part here with
      | some there => tree.walk there parts
      | none => .error .notFound

/-- The place that a path leads to. An absolute path starts outside the tree. -/
def resolve (tree : FileTree) (path : String) : Except FileError Place :=
  if path.isEmpty then
    .error .notFound
  else if longestPath < path.utf8ByteSize then
    .error .nameTooLong
  else
    let start := if path.toList.head? = some '/' then Place.outside else Place.node []
    tree.walk start ((path.toList.splitOn '/').map String.ofList)

def isDirectory (tree : FileTree) (path : String) : Bool :=
  match tree.resolve path with
  | .ok place => tree.hasDirectory place
  | .error _ => false

/-- The names of the nodes directly below a path. -/
def names (tree : FileTree) (path : String) : Except FileError (List String) := do
  match ← tree.resolve path with
  | .outside => return []
  | .node path =>
    match tree.node? path with
    | some none =>
      return tree.nodes.filterMap fun node => if node.1.dropLast = path then node.1.getLast? else none
    | some (some _) => .error .notDirectory
    | none => .error .notFound

def read (tree : FileTree) (path : String) : Except FileError String := do
  match ← tree.resolve path with
  | .outside => .error .isDirectory
  | .node path =>
    match tree.node? path with
    | some (some bytes) =>
      match String.fromUTF8? bytes with
      | some text => .ok text
      | none => .error .notText
    | some none => .error .isDirectory
    | none => .error .notFound

def system (tree : FileTree) : FileSystem where
  isDirectory := tree.isDirectory
  names := tree.names
  read := tree.read

end FileTree

end GCode
