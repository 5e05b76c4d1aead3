import PushRelabel.Text.Blank

/-! # Files by their paths

A tree holds the files below a working directory. A path is a sequence of names,
followed one after the other: a dot or an empty name stays where it is, two dots
lead to the directory above, and nothing is known of files outside the tree. Only
directories can be passed through, and only files can be read.
-/

namespace PushRelabel

inductive FileError where
  | missing
  | notDirectory
  | isDirectory
  | nameTooLong
deriving DecidableEq

def FileError.message : FileError → String
  | missing => "No such file or directory (os error 2)"
  | notDirectory => "Not a directory (os error 20)"
  | isDirectory => "Is a directory (os error 21)"
  | nameTooLong => "File name too long (os error 36)"

/-- Each file has the names that lead to it from the working directory. -/
structure FileTree where
  files : List (List String × List UInt8)

namespace FileTree

/-- Where a path has led so far. -/
inductive Place where
  | inside (names : List String)
  /-- A directory that is not in the tree. -/
  | outside
deriving DecidableEq

def Place.parent : Place → Place
  | inside [] => outside
  | inside names => inside names.dropLast
  | outside => outside

def namesOf (path : String) : List String :=
  (Text.pieces (· == '/') path.toList).map String.ofList

def ofFiles (files : List (String × List UInt8)) : FileTree :=
  ⟨files.map fun f => (namesOf f.1, f.2)⟩

def content? (t : FileTree) : Place → Option (List UInt8)
  | .inside names => t.files.lookup names
  | .outside => none

/-- Whether some names lead to a file, or to a directory on the way to one. -/
def exists? (t : FileTree) (names : List String) : Bool :=
  t.files.any fun f => names.isPrefixOf f.1

/-- The most bytes that a name has. -/
def nameLimit : Nat := 255

/-- The most bytes that a path has. -/
def pathLimit : Nat := 4095

def child (t : FileTree) (place : Place) (name : String) : Except FileError Place :=
  if nameLimit < name.utf8ByteSize then .error .nameTooLong
  else match place with
    | .outside => .error .missing
    | .inside names =>
        if t.exists? (names ++ [name]) then .ok (.inside (names ++ [name])) else .error .missing

/-- Follows one name of a path. -/
def follow (t : FileTree) (place : Place) (name : String) : Except FileError Place :=
  if (t.content? place).isSome then .error .notDirectory
  else match name with
    | "" => .ok place
    | "." => .ok place
    | ".." => .ok place.parent
    | _ => t.child place name

/-- A path that starts with a slash starts outside of the tree. -/
def origin (path : String) : Place :=
  if path.toList.head? = some '/' then .outside else .inside []

/-- Reads the file at a path. -/
def read (t : FileTree) (path : String) : Except FileError (List UInt8) := do
  if path.isEmpty then throw .missing
  if pathLimit < path.utf8ByteSize then throw .nameTooLong
  let place ← (namesOf path).foldlM t.follow (origin path)
  match t.content? place with
  | some bytes => return bytes
  | none => throw .isDirectory

end FileTree

end PushRelabel
