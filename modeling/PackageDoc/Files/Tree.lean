import PackageDoc.Text.Space

namespace PackageDoc

/-!
# Directory trees

The files that a package is looked for in, as a value.  Paths are texts, relative to the directory
that the tree is.
-/

/-- A file or a directory. -/
inductive FileTree where
  | file (bytes : List UInt8)
  | dir (entries : List (String × FileTree))
  deriving Repr, Inhabited

namespace FileTree

/-- Is this a directory? -/
def isDir : FileTree → Bool
  | dir _ => true
  | file _ => false

/-- The entries of a directory. -/
def entries : FileTree → List (String × FileTree)
  | dir entries => entries
  | file _ => []

/-- The entry of a name. -/
def child? (t : FileTree) (name : String) : Option FileTree :=
  (t.entries.find? fun e => e.1 == name).map Prod.snd

/-- Put a tree at the place of a name. -/
def setChild (name : String) (child : FileTree) : List (String × FileTree) → List (String × FileTree)
  | [] => [(name, child)]
  | e :: es => if e.1 = name then (name, child) :: es else e :: setChild name child es

/-- Put a tree at a path, with the directories that lead there. -/
def insert (new : FileTree) : (path : List String) → FileTree → FileTree
  | [], _ => new
  | name :: path, t =>
    dir (setChild name ((t.child? name).getD (dir []) |> insert new path) t.entries)

/-- The parts of a path that name entries. -/
def pathParts (path : String) : List String :=
  ((Text.splitOn '/' path.toList).map String.ofList).filter fun p => p != "" && p != "."

/-- A file with some contents; what has none is an empty directory. -/
def ofContents : Option (List UInt8) → FileTree
  | some bytes => file bytes
  | none => dir []

/-- The tree of some files, given by their paths. -/
def ofFiles (files : List (String × Option (List UInt8))) : FileTree :=
  files.foldl (fun t f => insert (ofContents f.2) (pathParts f.1) t) (dir [])

/-- Follow the parts of a path.  `above` are the directories around `t`, the nearest first. -/
def follow (above : List FileTree) (t : FileTree) : List String → Option FileTree
  | [] => some t
  | part :: parts =>
    if !t.isDir then none
    else if part = "" ∨ part = "." then follow above t parts
    else if part = ".." then
      match above with
      | [] => none
      | parent :: above => follow above parent parts
    else (t.child? part).bind fun c => follow (t :: above) c parts

/-- What a path leads to. -/
def at? (t : FileTree) (path : String) : Option FileTree :=
  match (Text.splitOn '/' path.toList).map String.ofList with
  | "" :: _ => none
  | parts => t.follow [] parts

/-- The contents of the file at a path. -/
def read? (t : FileTree) (path : String) : Option (List UInt8) :=
  match t.at? path with
  | some (file bytes) => some bytes
  | _ => none

end FileTree

/-- A path below a directory.  An absolute path stays as it is. -/
def joinPath (directory path : String) : String :=
  if path.toList.head? == some '/' then path
  else if directory.isEmpty || directory.toList.getLast? == some '/' then directory ++ path
  else directory ++ "/" ++ path

/-- The path of the directory that the parts of a dotted name lead to. -/
def dottedPath (parts : List String) : String :=
  parts.foldl joinPath ""

end PackageDoc
