import PackageDoc.Analysis.Run
import PackageDoc.Files.Discovery
import PackageDoc.Json.Render
import PackageDoc.Model.Encode
import PackageDoc.Snapshot.Decode
import PackageDoc.Yaml.Value

namespace PackageDoc

/-!
# From files to documentation

`Session.run` finds a package, reads its files, imports its modules and documents it.
`DocModel.fileText` is what is written of the result.
-/

/-- What a run is given. -/
structure Session where
  config : Config := {}
  searchPath : List String := ["."]
  /-- How modules are imported, if they are. -/
  load : Option (String → Except LoadError Snapshot) := none

/-- Why a run has no result. -/
inductive SessionError where
  | notFound (error : PackageNotFound)
  | fatal (root : String) (error : FatalError)
  deriving Repr, DecidableEq, Inhabited

/-- The wording of an error. -/
def SessionError.message : SessionError → String
  | notFound error => error.message
  | fatal root error => "resolving " ++ root ++ ": " ++ error.message

/-- The outcome of an import by way of a reply that was read. -/
def loadReply (reply : String) : Except LoadError Snapshot :=
  (readReply? reply).getD (.error (.loader "bad reply"))

namespace Session

/-- The outcome of importing a module. -/
def outcomeOf (s : Session) (name : String) : ImportOutcome :=
  match s.load with
  | none => .notAttempted
  | some load =>
    match load name with
    | .ok snapshot => .loaded snapshot
    | .error error => .failed error

/-- All that a run knows of a module before it is analysed. -/
def prepare (s : Session) (tree : FileTree) (m : FoundModule) : ModuleInput :=
  let parse (path : Option String) : Option ModuleTable :=
    (path.bind tree.read?).map fun bytes => ModuleTable.parseBytes bytes m.name m.isPackage
  { name := m.name
    isPackage := m.isPackage
    files := m.files
    source := parse m.files.source
    stub := parse m.files.stub
    outcome := s.outcomeOf m.name }

/-- The documentation of a package. -/
def run (s : Session) (tree : FileTree) (root : String) : Except SessionError DocModel :=
  match findPackage tree s.config root s.searchPath with
  | .error error => .error (.notFound error)
  | .ok modules =>
    match resolvePackage root (modules.map (s.prepare tree)) s.config with
    | .error error => .error (.fatal root error)
    | .ok model => .ok model

end Session

namespace DocModel

/-- Where the documentation is written in a directory. -/
def filePath (model : DocModel) (directory : String) : String :=
  joinPath directory (model.root.name ++ ".json")

/-- What is written of the documentation. -/
def fileText (model : DocModel) : String :=
  model.toJson.pretty ++ "\n"

end DocModel
end PackageDoc
