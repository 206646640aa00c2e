import PackageDoc.Config
import PackageDoc.Declaration.Assoc
import PackageDoc.Files.Tree
import PackageDoc.Model.Origin
import PackageDoc.Text.Category

namespace PackageDoc

/-!
# Modules in directories

`findPackage` looks for a package and for all modules in it.  A module may have a source, an
interface and a native extension, which belong together by their names.  A directory is a package
when it holds such a file named `__init__`; one without is no module, but may hold some.
-/

/-- The files that modules have. -/
inductive FileKind where
  | source | stub | native
  deriving Repr, DecidableEq, Inhabited

/-- The kind of a file by the ending of its name. -/
def FileKind.ofSuffix? (suffix : String) : Option FileKind :=
  if suffix = "py" then some .source
  else if suffix = "pyi" then some .stub
  else if suffix = "pyd" ∨ suffix = "so" then some .native
  else none

/-- The name of the module that a file belongs to, and the kind of the file.  The name of a native
    extension ends at the first dot. -/
def classifyFile? (fileName : String) : Option (String × FileKind) := do
  let (suffix, stem) ← Text.splitOnce? '.' fileName.toList.reverse
  let stem := stem.reverse
  let kind ← FileKind.ofSuffix? (String.ofList suffix.reverse)
  let name := if kind = .native then stem.takeWhile fun c => c != '.' else stem
  return (String.ofList name, kind)

/-- Is the name one that a module can have? -/
def isIdentifier (name : String) : Bool :=
  match name.toList with
  | [] => false
  | c :: cs =>
    (c = '_' || Text.isAlphabetic c) && cs.all fun d => d = '_' || Text.isAlphanumeric d

/-- Directories that hold no modules of a package. -/
def excludedDirs : List String :=
  ["__pycache__", "__pypackages__", "node_modules", "site-packages"]

/-- Files that are no modules of their own. -/
def excludedStems : List String :=
  ["__init__", "__main__"]

/-- Add a file of a kind, unless there is one. -/
def ModuleFiles.add (files : ModuleFiles) (kind : FileKind) (path : String) : ModuleFiles :=
  match kind with
  | .source => { files with source := files.source <|> some path }
  | .stub => { files with stub := files.stub <|> some path }
  | .native => { files with native := files.native <|> some path }

/-- The module files of a directory, by module; of two files for one place the first name counts. -/
def moduleFilesIn (path : String) (entries : List (String × FileTree)) :
    List (String × ModuleFiles) :=
  let files := (Assoc.sorted entries).filter fun e => !e.2.isDir
  files.foldl (fun found (fileName, _) =>
    match classifyFile? fileName with
    | none => found
    | some (stem, kind) =>
      let known := (Assoc.get? found stem).getD {}
      Assoc.bind found stem (known.add kind (joinPath path fileName))) []

/-- The files of the module `stem` in a directory. -/
def moduleFiles? (tree : FileTree) (path stem : String) : Option ModuleFiles :=
  (tree.at? path).bind fun t => Assoc.get? (moduleFilesIn path t.entries) stem

/-- A module that was found. -/
structure FoundModule where
  name : String
  isPackage : Bool
  files : ModuleFiles
  deriving Repr, DecidableEq, Inhabited

/-- The modules of a directory, other than the package that it may be. -/
def leafModules (config : Config) (path package : String) (entries : List (String × FileTree)) :
    List FoundModule :=
  let candidates := (moduleFilesIn path entries).filter fun m =>
    isIdentifier m.1 && !excludedStems.contains m.1
  ((Assoc.sorted candidates).map fun m => ⟨package ++ "." ++ m.1, false, m.2⟩).filter fun m =>
    !config.isSkipped m.name

mutual

/-- The modules below a directory, which is at `path` and belongs to `package`. -/
def modulesBelow (config : Config) (path package : String) : FileTree → List FoundModule
  | .file _ => []
  | .dir entries =>
    leafModules config path package entries ++
      (Assoc.sorted (subdirModules config path package entries)).flatMap Prod.snd

/-- The modules of each subdirectory. -/
def subdirModules (config : Config) (path package : String) :
    List (String × FileTree) → List (String × List FoundModule)
  | [] => []
  | (name, t) :: rest =>
    let others := subdirModules config path package rest
    let module := package ++ "." ++ name
    if t.isDir && isIdentifier name && !excludedDirs.contains name && !config.isSkipped module then
      let here := joinPath path name
      let own := match Assoc.get? (moduleFilesIn here t.entries) "__init__" with
        | some files => [⟨module, true, files⟩]
        | none => []
      (name, own ++ modulesBelow config here module t) :: others
    else others

end

/-- A package that is in no directory of the search path. -/
structure PackageNotFound where
  root : String
  searchPath : List String
  deriving Repr, DecidableEq, Inhabited

/-- The wording of the error. -/
def PackageNotFound.message (e : PackageNotFound) : String :=
  "cannot find package " ++ e.root ++ " in search path " ++ Text.quotedList e.searchPath

/-- The modules of a package in one directory of the search path. -/
def findIn? (tree : FileTree) (config : Config) (root directory : String) :
    Option (List FoundModule) :=
  let parts := segments root
  let path := joinPath directory (dottedPath parts)
  let parent := if parts.length ≤ 1 then directory
    else joinPath directory (dottedPath parts.dropLast)
  match (tree.at? path).filter FileTree.isDir, moduleFiles? tree path "__init__" with
  | some t, some files => some (⟨root, true, files⟩ :: modulesBelow config path root t)
  | _, _ =>
    (moduleFiles? tree parent (parts.getLast?.getD root)).map fun files => [⟨root, false, files⟩]

/-- The modules of a package: the first directory that has it counts.  A package stands before its
    modules, and those before the packages beside them. -/
def findPackage (tree : FileTree) (config : Config) (root : String) (searchPath : List String) :
    Except PackageNotFound (List FoundModule) :=
  match searchPath.findSome? (findIn? tree config root) with
  | some modules => .ok modules
  | none => .error ⟨root, searchPath⟩

end PackageDoc
