import PackageDoc.Analysis.State

namespace PackageDoc.Analysis

/-!
# Import chains and links

`originOf` follows a name through the imports of the modules of a package to where it is defined.
The names that it passes form a path in the graph of imports; a path that comes back to a name it
has passed ends there.

`resolveImports` records where every imported name comes from, and reports the imports that lead
nowhere.
-/

/-! ### Chains -/

/-- Where a name is imported from; none for a name that the module defines or does not bind. -/
def edge? (a : Analysis) (module name : String) : Option (String × String) := do
  let merged ← a.merged? module
  if (merged.member? name).isSome then none
  else (merged.external? name).map fun decl => (decl.module, decl.name)

/-- What a name that is not bound in a module may be: a module below it. -/
def submoduleOr (a : Analysis) (module name : String) (failure : ChainFailure) : Origin :=
  let submodule := module ++ "." ++ name
  if a.isRegistered submodule then .module submodule else .unresolved module name failure

/-- Where a chain of imports ends that cannot go on from a name. -/
def chainEnd (a : Analysis) (module name : String) : Origin :=
  match a.moduleId? module with
  | none =>
    if a.isInternal module && !a.config.isSkipped module then .unresolved module name .notFound
    else .library module name
  | some id =>
    match (a.stateAt? id).bind ModuleState.merged with
    | none => .unresolved module name .unresolvedModule
    | some merged =>
      if (merged.member? name).isSome then .definition module name
      else a.submoduleOr module name .notFound

/-- Follow a name, having passed the names `visited`, over at most `steps` of them. -/
def follow (a : Analysis) :
    (steps : Nat) → (visited : List (String × String)) → (module name : String) → Origin
  | 0, _, module, name => a.submoduleOr module name .cyclic
  | steps + 1, visited, module, name =>
    if (module, name) ∈ visited then a.submoduleOr module name .cyclic
    else match a.edge? module name with
      | some (from_, target) => a.follow steps ((module, name) :: visited) from_ target
      | none => a.chainEnd module name

/-- The names that a module imports, with the imports, in order. -/
def importsOf (a : Analysis) (module : String) : List (String × ExternalDecl) :=
  ((a.merged? module).map MergedModule.externals).getD []

/-- The number of imports in the package. -/
def importCount (a : Analysis) : Nat :=
  (a.registeredNames.flatMap a.importsOf).length

/-- Where a name of a module comes from.  No more names can be passed than there are imports. -/
def originOf (a : Analysis) (module name : String) : Origin :=
  a.follow (a.importCount + 1) [] module name

/-- The module and the dotted path of the definition that a path leads to from a module. -/
def definitionAt? (a : Analysis) (module : String) : (path : List String) → Option (String × String)
  | [] => none
  | head :: rest =>
    match a.originOf module head with
    | .definition owner name =>
      let qualname := dotted (name :: rest)
      match (a.merged? owner).bind fun m => m.lookup (segments qualname) with
      | some _ => some (owner, qualname)
      | none => none
    | .module owner => a.definitionAt? owner rest
    | _ => none

/-! ### Links -/

/-- The imported names of a module with their lines and origins, in order. -/
def linksOf (a : Analysis) (s : ModuleState) : List (String × Nat × Origin) :=
  match s.merged with
  | none => []
  | some merged => merged.externals.map fun (name, decl) => (name, decl.line, a.originOf s.name name)

/-- What is to be reported of an import that leads nowhere. -/
def linkFinding (name : String) (origin : Origin) : ChainFailure → Finding
  | .cyclic => .importLoop name origin.moduleName
  | .notFound => .importMissing origin.name origin.moduleName
  | .unresolvedModule => .importThroughUnresolved name origin.moduleName

/-- The diagnostic of an import, if it leads nowhere. -/
def linkDiagnostic? : String × Nat × Origin → Option Diagnostic
  | (name, line, .unresolved m n reason) =>
    some { finding := linkFinding name (.unresolved m n reason) reason
           line := if 0 < line then some line else none }
  | _ => none

/-- Record where all imported names come from. -/
def resolveImports (a : Analysis) : Analysis :=
  { a with
    modules := a.modules.map fun s => s.report ((a.linksOf s).filterMap linkDiagnostic?)
    links := a.modules.foldl (fun links s =>
      (a.linksOf s).foldl (fun links l => Assoc.bind links (s.id, l.1) l.2.2) links) a.links }

/-- What an import leaves in the log. -/
def linkEvent (module : String) : String × Nat × Origin → TraceEvent
  | (name, _, .unresolved _ _ reason) => .linkFailed module name reason
  | (name, _, origin) => .linked module name origin

/-- What the imports leave in the log. -/
def importEvents (a : Analysis) : List TraceEvent :=
  a.modules.flatMap fun s => (a.linksOf s).map (linkEvent s.name)

end PackageDoc.Analysis
