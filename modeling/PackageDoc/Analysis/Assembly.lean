import PackageDoc.Analysis.Types
import PackageDoc.Docstring.Grammar

namespace PackageDoc

/-!
# The documentation tree

`Analysis.assemble` builds the documentation from an analysed package.  A module stands below the
nearest registered package around it.  Whether something is documented is decided here: a name with
a leading underscore is not, unless a rule says so, an import is not, unless a rule says so, and
nothing is inside a module or class that is not documented itself.
-/

/-! ### Pieces of nodes -/

/-- Is the line known? -/
def knownLine (line : Nat) : Option Nat :=
  if 0 < line then some line else none

/-- The type of an annotation; one that was never evaluated is kept as text. -/
def TypeHint.type (hint : TypeHint) : TypeRef :=
  hint.resolved.getD (.raw hint.raw .unsupportedExpression [])

/-- The signature that a declaration shows. -/
def FunctionDecl.signature (decl : FunctionDecl) : Signature :=
  { params := decl.params.map fun p =>
      ⟨p.name, p.kind, p.hint.map TypeHint.type, p.default.isSome, p.default⟩
    returns := decl.returns.map TypeHint.type
    docstring := decl.docstring.map cleanDoc
    line := knownLine decl.line }

/-- The flags that the decorators of a declaration set. -/
def FunctionDecl.flags (decl : FunctionDecl) : FunctionFlags :=
  { isAsync := decl.isAsync
    isStatic := decl.hasDecorator "staticmethod"
    isClass := decl.hasDecorator "classmethod"
    isProperty := decl.hasDecorator "property" || decl.hasDecorator "cached_property" }

/-- The kind of the docstring of a definition. -/
def MemberShape.docstringKind : MemberShape → DocstringKind
  | classDef _ _ => .classDef
  | function _ => .function
  | .variable _ _ _ _ => .variable

/-- The kind of the node of a definition. -/
def MemberShape.nodeKind : MemberShape → NodeKind
  | classDef _ _ => .classDef
  | function _ => .function
  | .variable _ _ _ _ => .variable

/-- Documentation as nodes hold it: cleaned, parsed and with its diagnostics. -/
structure Documentation where
  text : Option String := none
  doc : Option Docstring := none
  diagnostics : List Diagnostic := []

/-- The documentation that a docstring at a line gives. -/
def Documentation.of [YamlReader] (kind : DocstringKind) (line : Option Nat) :
    Option String → Documentation
  | none => {}
  | some raw =>
    let doc := Docstring.parse raw kind
    { text := some (cleanDoc raw)
      doc := some doc
      diagnostics := doc.issues.map fun issue =>
        { finding := .docstringMismatch issue, line := line } }

/-- Fill in what the shape of a definition says. -/
def DocNode.withShape (node : DocNode) : MemberShape → DocNode
  | .classDef bases _ => { node with bases := bases.map TypeHint.type }
  | .function group =>
    { node with
      signature := group.primary.map FunctionDecl.signature
      flags := (group.primary.map FunctionDecl.flags).getD {}
      overloads := group.overloads.map FunctionDecl.signature }
  | .variable hint _ instanceVar _ =>
    { node with type := hint.map TypeHint.type, instanceVar := instanceVar }

/-- Names that are not documented by themselves. -/
def isPrivateName (name : String) : Bool :=
  name.toList.head? == some '_'

namespace Analysis

/-- Is a definition to be documented, as far as its own name and rules go? -/
def isVisible (a : Analysis) (q : QualifiedName) (name : String) : Bool :=
  match Assoc.get? a.rules (q.module, q.qualname) with
  | some effect => effect.includes
  | none => !isPrivateName name

/-- The docstring of a definition: a rule's comes first. -/
def rawDocstring (a : Analysis) (q : QualifiedName) (own : Option String) : Option String :=
  ((Assoc.get? a.rules (q.module, q.qualname)).bind RuleEffect.docstring?) <|> own

mutual

/-- The node of a definition; `inherited` tells whether what is around it is documented. -/
def nodeOf [YamlReader] (a : Analysis) (s : ModuleState) (q : QualifiedName) (inherited : Bool) :
    MergedMember → DocNode
  | ⟨name, line, docstring, shape, members⟩ =>
    let line := line.bind knownLine
    let documented := inherited && a.isVisible q name
    let docs := Documentation.of shape.docstringKind line (a.rawDocstring q docstring)
    DocNode.withShape
      { name := name
        qualifiedName := q
        kind := shape.nodeKind
        line := line
        documented := documented
        docstring := docs.text
        doc := docs.doc
        members := a.nodesOf s q documented members
        diagnostics := (Assoc.get? s.nodeDiagnostics q.qualname).getD [] ++ docs.diagnostics }
      shape

/-- The nodes of the definitions in a class. -/
def nodesOf [YamlReader] (a : Analysis) (s : ModuleState) (q : QualifiedName) (inherited : Bool) :
    List MergedMember → List DocNode
  | [] => []
  | m :: ms => a.nodeOf s (q.child m.name) inherited m :: a.nodesOf s q inherited ms

end

/-- The kind of the docstring of an import. -/
def originKind (a : Analysis) : Origin → DocstringKind
  | .definition module name =>
    match (a.merged? module).bind fun m => m.member? name with
    | some m => m.shape.docstringKind
    | none => .variable
  | .module _ => .module
  | .library _ _ | .unresolved _ _ _ => .variable

/-- The node of an import that a rule is about. -/
def referenceNode [YamlReader] (a : Analysis) (s : ModuleState) (name : String) (decl : ExternalDecl)
    (origin : Origin) (effect : RuleEffect) (inherited : Bool) : DocNode :=
  let line := knownLine decl.line
  let docs := Documentation.of (a.originKind origin) line effect.docstring?
  { name := name
    qualifiedName := ⟨s.name, name⟩
    kind := match origin with
      | .library _ _ => .libraryAttr
      | _ => .reference
    line := line
    documented := inherited && effect.includes
    docstring := docs.text
    doc := docs.doc
    origin := some origin
    diagnostics := docs.diagnostics }

/-- The recorded origin of an import. -/
def linkOf (a : Analysis) (s : ModuleState) (name : String) (decl : ExternalDecl) : Origin :=
  (Assoc.get? a.links (s.id, name)).getD (.unresolved decl.module decl.name .notFound)

/-- The node of an item of a module, if it has one. -/
def itemNode? [YamlReader] (a : Analysis) (s : ModuleState) (documented : Bool) :
    MergedItem → Option DocNode
  | .member m => some (a.nodeOf s ⟨s.name, m.name⟩ documented m)
  | .external name decl =>
    (Assoc.get? a.referenceRules (s.id, name)).map fun effect =>
      a.referenceNode s name decl (a.linkOf s name decl) effect documented

/-- The entry of an import. -/
def externalEntry (a : Analysis) (s : ModuleState) : String × ExternalDecl → ExternalEntry
  | (name, decl) =>
    ⟨name, decl.module, decl.name, a.linkOf s name decl, decl.typeChecking, knownLine decl.line⟩

/-- Is a module private: has it, below the root package, a part with a leading underscore? -/
def isPrivateModule (root name : String) : Bool :=
  match Text.stripStart? (root ++ ".").toList name.toList with
  | some rest => (segments (String.ofList rest)).any isPrivateName
  | none => false

/-- Is a module documented? -/
def isDocumented (a : Analysis) (s : ModuleState) : Bool :=
  s.status.isResolved && !a.config.isUndocumented s.name && !isPrivateModule a.root s.name

/-- The documentation of a module without the modules below it. -/
def moduleOf [YamlReader] (a : Analysis) (s : ModuleState) : DocModule :=
  let documented := a.isDocumented s
  let merged := s.merged.getD {}
  let docs := Documentation.of .module none merged.docstring
  { name := s.name
    isPackage := s.input.isPackage
    files := s.input.files
    status := s.status
    documented := documented
    docstring := docs.text
    doc := docs.doc
    members := merged.items.filterMap (a.itemNode? s documented)
    externals := merged.externals.map (a.externalEntry s)
    diagnostics := s.diagnostics ++ docs.diagnostics }

/-! ### The tree -/

/-- The module that a module stands below: the nearest registered package around it, else the
    root. -/
def parentOf (a : Analysis) (name : String) : String :=
  (((enclosingNames name).drop 1).find? a.isRegistered).getD a.root

/-- The modules that stand directly below a module, in the order of registration. -/
def childrenOf (a : Analysis) (name : String) : List ModuleState :=
  a.modules.filter fun s => s.name != a.root && a.parentOf s.name == name

/-- A module with the modules below it, down to `depth` levels. -/
def treeOf [YamlReader] (a : Analysis) : (depth : Nat) → ModuleState → DocModule
  | 0, s => a.moduleOf s
  | depth + 1, s => { a.moduleOf s with submodules := (a.childrenOf s.name).map (a.treeOf depth) }

/-- The documentation tree of the root package, if it is registered.  No tree is deeper than there
    are modules. -/
def assemble [YamlReader] (a : Analysis) : Option DocModule :=
  (a.state? a.root).map (a.treeOf a.modules.length)

end Analysis
end PackageDoc
