import PackageDoc.Analysis.Assembly
import PackageDoc.Analysis.Rules

namespace PackageDoc

/-!
# A whole analysis

`resolvePackage` documents a package.  Whatever goes wrong is reported in the documentation, except
when there is nothing to say of the root package itself.
-/

/-- Why there is no documentation. -/
inductive FatalError where
  | missingRoot (root : String)
  | rootUnresolved (root : String) (reason : UnresolvedReason) (details : List Diagnostic)
  deriving Repr, DecidableEq, Inhabited

/-- The wording of an error. -/
def FatalError.message : FatalError → String
  | missingRoot root => "root package " ++ root ++ " not found"
  | rootUnresolved root reason details =>
    details.foldl (fun text d => text ++ "\n  " ++ d.text)
      ("root package " ++ root ++ " unresolved: " ++ reason.message)

namespace Analysis

/-- An analysis whose modules are registered and merged. -/
def prepare (a : Analysis) : Analysis :=
  a.register.mergeModules

/-- Why an analysis cannot go on after merging. -/
def fatal? (a : Analysis) : Option FatalError :=
  match a.state? a.root with
  | none => some (.missingRoot a.root)
  | some s =>
    match s.status with
    | .resolved => none
    | .unresolved reason => some (.rootUnresolved a.root reason s.diagnostics)

/-- An analysis, after merging, with all its tables filled. -/
def complete (a : Analysis) : Analysis :=
  a.resolveImports.evaluateTypes.applyVisibility

/-- The documentation of a package whose analysis begins with `a`. -/
def document [YamlReader] (a : Analysis) : Except FatalError DocModel :=
  let a := a.prepare
  match a.fatal? with
  | some error => .error error
  | none =>
    match a.complete.assemble with
    | some root => .ok ⟨a.config.linkMode, root⟩
    | none => .error (.missingRoot a.root)

/-- The events of a step with its beginning and its end. -/
def phaseEvents (phase : Phase) (events : List TraceEvent) : List TraceEvent :=
  .phaseStarted phase :: events ++ [.phaseFinished phase]

/-- What documenting a package leaves in the log. -/
def events (a : Analysis) : List TraceEvent :=
  let registered := a.register
  let merged := registered.mergeModules
  let linked := merged.resolveImports
  let typed := linked.evaluateTypes
  phaseEvents .registration a.registerEvents ++ phaseEvents .merge registered.mergeEvents ++
    (if merged.fatal?.isSome then []
    else
      phaseEvents .imports merged.importEvents ++ phaseEvents .types linked.typeEvents ++
        phaseEvents .visibility typed.ruleEvents ++ phaseEvents .assemble [])

end Analysis

/-- The documentation of the package `root`, made up of some modules. -/
def resolvePackage [YamlReader] (root : String) (inputs : List ModuleInput) (config : Config) :
    Except FatalError DocModel :=
  (Analysis.start root inputs config).document

end PackageDoc
