import PackageDoc.Analysis.Merged
import PackageDoc.Declaration.Table
import PackageDoc.Model.Origin

namespace PackageDoc

/-!
# Merging of sources and snapshots

`ModuleInput.merge` makes one view of a module.  Its shape comes from the interface or, without one,
from the implementation, and only without any source from the snapshot.  A docstring that is missing
in an interface is taken from the snapshot, then from the implementation; without an interface the
snapshot's docstrings come first, because they are what readers of the running program see.
-/

/-! ### What an analysis begins with -/

/-- What came of importing a module. -/
inductive ImportOutcome where
  | loaded (snapshot : Snapshot)
  | failed (error : LoadError)
  /-- The module was not imported. -/
  | notAttempted
  deriving Repr, Inhabited

/-- The snapshot of a module that was imported. -/
def ImportOutcome.snapshot? : ImportOutcome → Option Snapshot
  | loaded snapshot => some snapshot
  | _ => none

/-- All that is known of a module beforehand. -/
structure ModuleInput where
  name : String
  isPackage : Bool := false
  files : ModuleFiles := {}
  /-- The declarations of the implementation. -/
  source : Option ModuleTable := none
  /-- The declarations of the interface. -/
  stub : Option ModuleTable := none
  outcome : ImportOutcome := .notAttempted
  deriving Repr, Inhabited

namespace ModuleInput

/-- The declarations that say what the module offers. -/
def interface? (input : ModuleInput) : Option ModuleTable :=
  input.stub <|> input.source

/-- The implementation behind an interface of its own, unless it is malformed. -/
def implementation? (input : ModuleInput) : Option ModuleTable :=
  match input.stub, input.source with
  | some _, some source => if source.hasSyntaxErrors then none else some source
  | _, _ => none

/-- Is the module a native extension? -/
def isNative (input : ModuleInput) : Bool :=
  input.files.native.isSome || (input.outcome.snapshot?.any Snapshot.isNative)

end ModuleInput

/-! ### What a source gives -/

/-- The documentation that a source gives a binding. -/
def Binding.docstring? : Binding → Option String
  | .classDef decl _ => decl.docstring
  | .function f => (f.implementation.bind FunctionDecl.docstring) <|> f.assignedDocstring
  | .variable v => v.effectiveDocstring
  | .external _ => none

/-- The shape that a source gives a definition; imports have none. -/
def Binding.shape? : Binding → Option MemberShape
  | .classDef decl _ => some (.classDef decl.bases decl.decorators)
  | .function f => some (.function (.ofDecls f.decls))
  | .variable v => some (.variable v.hint v.value v.instanceVar v.typeChecking)
  | .external _ => none

/-- Names that begin and end with two underscores. -/
def isDunder (name : String) : Bool :=
  4 < name.utf8ByteSize && ['_', '_'].isPrefixOf name.toList && ['_', '_'].isSuffixOf name.toList

/-! ### Modules with a source -/

/-- Where documentation is found beside the merged source. -/
structure DocSources where
  snapshot : Option Snapshot := none
  implementation : Option ModuleTable := none
  /-- Does the documentation of the merged source come first? -/
  sourceFirst : Bool := false

namespace DocSources

/-- The documentation of a path beside the merged source. -/
def docstring? (docs : DocSources) (path : List String) : Option String :=
  ((docs.snapshot.bind fun s => s.lookup path).bind SnapshotMember.docstring) <|>
    ((docs.implementation.bind fun t => t.scope.lookup path).bind Binding.docstring?)

/-- The documentation of a path whose documentation in the merged source is `own`. -/
def choose (docs : DocSources) (path : List String) (own : Option String) : Option String :=
  if docs.sourceFirst then own <|> docs.docstring? path else docs.docstring? path <|> own

/-- The documentation of the module. -/
def moduleDocstring (docs : DocSources) (own : Option String) : Option String :=
  let snapshot := docs.snapshot.bind Snapshot.docstring
  if docs.sourceFirst then own <|> snapshot <|> docs.implementation.bind ModuleTable.docstring
  else snapshot <|> own

end DocSources

mutual

/-- The definition that a binding makes; `path` leads to it. -/
def mergeBinding (docs : DocSources) (name : String) (path : List String) :
    Binding → Option MergedMember
  | .function f => (Binding.function f).shape?.map fun shape =>
      ⟨name, some (Binding.function f).line,
        docs.choose path (Binding.function f).docstring?, shape, []⟩
  | .classDef decl ⟨_, entries, _, _, _⟩ =>
    some ⟨name, some decl.line, docs.choose path decl.docstring,
      .classDef decl.bases decl.decorators, mergeEntries docs path entries⟩
  | .variable v => (Binding.variable v).shape?.map fun shape =>
      ⟨name, some v.line, docs.choose path v.effectiveDocstring, shape, []⟩
  | .external _ => none

/-- The definitions in the body of a class. -/
def mergeEntries (docs : DocSources) (path : List String) {names : List String} :
    Entries Binding names → List MergedMember
  | .nil => []
  | .cons name binding rest =>
    (mergeBinding docs name (path ++ [name]) binding).toList ++ mergeEntries docs path rest

end

/-- What a name of a source is bound to. -/
def mergeItem? (docs : DocSources) : String × Binding → Option MergedItem
  | (name, .external decl) => some (.external name decl)
  | (name, binding) => (mergeBinding docs name [name] binding).map .member

/-- A module with a source. -/
def mergeTable (docs : DocSources) (table : ModuleTable) : MergedModule :=
  { docstring := docs.moduleDocstring table.docstring
    items := table.scope.toList.filterMap (mergeItem? docs)
    moduleAliases := table.moduleAliases }

/-- Must a module that binds a name so have an attribute of that name when it runs? -/
def Binding.livesAtRuntime : Binding → Bool
  | .classDef _ _ | .function _ => true
  | .variable v => v.value.isSome && !v.typeChecking
  | .external _ => false

/-- The bindings of a source that its snapshot lacks. -/
def absentAtRuntime (scope : Scope) (snapshot : Snapshot) : List (String × Binding) :=
  scope.toList.filter fun (name, binding) =>
    !isDunder name && binding.livesAtRuntime &&
      (SnapshotMember.find? snapshot.members name).isNone

/-- A module without the definitions of some names. -/
def MergedModule.dropMembers (m : MergedModule) (names : List String) : MergedModule :=
  { m with items := m.items.filter fun item => !(item.member?.any fun d => names.contains d.name) }

/-! ### Modules without a source -/

/-- The declaration that a signature's text stands for. -/
def parseSignature? (name signature : String) : Option FunctionDecl :=
  let table := ModuleTable.parse ("def " ++ name ++ signature ++ ": ...\n") "__signature__" false
  match table.scope.get? name with
  | some (.function f) => if table.hasSyntaxErrors then none else f.decls.head?
  | _ => none

/-- The function that an attribute is. -/
def SnapshotMember.functionGroup (name : String) (docstring signature : Option String) :
    FunctionGroup :=
  let decl := (signature.bind (parseSignature? name)).getD { name := name, line := 0 }
  ⟨[], some { decl with line := 0, docstring := docstring }⟩

mutual

/-- The definition that an attribute is. -/
def SnapshotMember.toMember : SnapshotMember → MergedMember
  | ⟨name, kind, docstring, signature, type, _, members⟩ =>
    match kind with
    | .classObject => ⟨name, none, docstring, .classDef [] [], SnapshotMember.toMembers members⟩
    | .function =>
      ⟨name, none, docstring, .function (functionGroup name docstring signature), []⟩
    | .variable | .module =>
      ⟨name, none, docstring, .variable (type.map fun t => { raw := t }) none false false, []⟩

/-- The definitions that the attributes of a class are; modules are left out. -/
def SnapshotMember.toMembers : List SnapshotMember → List MergedMember
  | [] => []
  | m :: ms => (if m.kind = .module then [] else [m.toMember]) ++ SnapshotMember.toMembers ms

end

/-- What a name of a snapshot is bound to: an attribute that another module defines is an import. -/
def SnapshotMember.toItem (module : String) (m : SnapshotMember) : MergedItem :=
  match m.definedIn with
  | some other =>
    if other ≠ module ∧ m.kind ≠ .variable then .external m.name ⟨other, m.name, 0, false⟩
    else .member m.toMember
  | none => .member m.toMember

/-- A module of which there is only a snapshot. -/
def Snapshot.toModule (s : Snapshot) : MergedModule :=
  { docstring := s.docstring
    items := (s.members.filter fun m => m.kind ≠ .module && !isDunder m.name).map
      (SnapshotMember.toItem s.name) }

/-! ### All modules -/

namespace ModuleInput

/-- Where documentation is found beside the interface. -/
def docSources (input : ModuleInput) : DocSources :=
  ⟨input.outcome.snapshot?, input.implementation?, input.stub.isSome⟩

/-- The visibility rules: an interface's come first, then those of the running module. -/
def autodoc (input : ModuleInput) : List (String × AutodocValue) :=
  ((input.stub.bind ModuleTable.autodoc) <|> (input.outcome.snapshot?.bind Snapshot.autodoc) <|>
    (input.source.bind ModuleTable.autodoc)).getD []

/-- The diagnostic of a failed import. -/
def importDiagnostics (input : ModuleInput) : List Diagnostic :=
  match input.outcome with
  | .failed error => [{ finding := .importFailed input.name error }]
  | _ => []

/-- The diagnostics of a malformed implementation behind an interface, which are only warnings. -/
def implementationDiagnostics (input : ModuleInput) : List Diagnostic :=
  match input.stub, input.source with
  | some _, some source =>
    if source.hasSyntaxErrors then source.diagnostics.map fun d => { d with severity := .warning }
    else []
  | _, _ => []

/-- A module that has a well-formed source, with the diagnostics of what was left out. -/
def mergeInterface (input : ModuleInput) (table : ModuleTable) : List Diagnostic × MergedModule :=
  let merged := mergeTable input.docSources table
  match input.stub, input.outcome.snapshot? with
  | none, some snapshot =>
    let absent := absentAtRuntime table.scope snapshot
    (absent.map fun (name, binding) => Diagnostic.atLine (.missingAtRuntime name) binding.line,
      merged.dropMembers (absent.map Prod.fst))
  | _, _ => ([], merged)

/-- The view of a module, or the reason why there is none, with what is to be reported. -/
def merge (input : ModuleInput) : List Diagnostic × Except UnresolvedReason MergedModule :=
  let finish (merged : MergedModule) : Except UnresolvedReason MergedModule :=
    .ok { merged with autodoc := input.autodoc }
  match input.interface? with
  | some table =>
    let reported := input.importDiagnostics ++ table.diagnostics
    if table.hasSyntaxErrors then (reported, .error .syntaxError)
    else
      let (absent, merged) := input.mergeInterface table
      (reported ++ input.implementationDiagnostics ++ absent, finish merged)
  | none =>
    if input.isNative then
      (input.importDiagnostics ++ [{ finding := .nativeWithoutStub input.name }],
        .error .noStubForNative)
    else match input.outcome.snapshot? with
      | some snapshot => (input.importDiagnostics, finish snapshot.toModule)
      | none =>
        (input.importDiagnostics ++ [{ finding := .noData input.name }], .error .notFound)

end ModuleInput
end PackageDoc
