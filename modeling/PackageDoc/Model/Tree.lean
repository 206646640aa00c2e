import PackageDoc.Config
import PackageDoc.Model.Diagnostic
import PackageDoc.Model.Origin
import PackageDoc.Syntax.Stmt

namespace PackageDoc

/-!
# The documentation of a package

* `DocNode` — a definition, or a documented import, with the members of a class below it;
* `DocModule` — a module with its nodes and the modules below it;
* `DocModel` — the tree of modules from the root package.

What is not to be documented stays in the tree and is marked.
-/

/-- The name of a definition. -/
structure QualifiedName where
  module : String
  /-- The dotted path inside the module. -/
  qualname : String
  deriving Repr, DecidableEq, Inhabited

/-- The name of a member. -/
def QualifiedName.child (q : QualifiedName) (name : String) : QualifiedName :=
  { q with qualname := q.qualname ++ "." ++ name }

/-- What a node stands for. -/
inductive NodeKind where
  | classDef | function | variable
  /-- An import that is documented where it is made. -/
  | reference
  /-- An import from outside the package with a docstring of its own. -/
  | libraryAttr
  deriving Repr, DecidableEq, Inhabited

/-- A parameter of a signature. -/
structure Parameter where
  name : String
  kind : ParamKind
  type : Option TypeRef
  hasDefault : Bool
  default : Option String
  deriving Repr, DecidableEq, Inhabited

/-- How a function is called. -/
structure Signature where
  params : List Parameter
  returns : Option TypeRef
  docstring : Option String
  line : Option Nat
  deriving Repr, DecidableEq, Inhabited

/-- What the decorators of a function say about it. -/
structure FunctionFlags where
  isAsync : Bool := false
  isStatic : Bool := false
  isClass : Bool := false
  isProperty : Bool := false
  deriving Repr, DecidableEq, Inhabited

/-- A documented name. -/
structure DocNode where
  name : String
  qualifiedName : QualifiedName
  kind : NodeKind
  line : Option Nat := none
  documented : Bool := true
  docstring : Option String := none
  doc : Option Docstring := none
  type : Option TypeRef := none
  /-- The signature of the implementation. -/
  signature : Option Signature := none
  overloads : List Signature := []
  flags : FunctionFlags := {}
  bases : List TypeRef := []
  instanceVar : Bool := false
  /-- Where a documented import comes from. -/
  origin : Option Origin := none
  members : List DocNode := []
  diagnostics : List Diagnostic := []
  deriving Repr, Inhabited

namespace DocNode

/-- The first of several nodes that has a name. -/
def find? (nodes : List DocNode) (name : String) : Option DocNode :=
  nodes.find? fun n => n.name == name

/-- Follow names down from one of `nodes`. -/
def findPath? (nodes : List DocNode) : List String → Option DocNode
  | [] => none
  | [name] => find? nodes name
  | name :: names => (find? nodes name).bind fun n => findPath? n.members names

mutual

/-- A node and all below it, parents first. -/
def walk : DocNode → List DocNode
  | ⟨a, b, c, d, e, f, g, h, i, j, k, l, m, n, members, o⟩ =>
    ⟨a, b, c, d, e, f, g, h, i, j, k, l, m, n, members, o⟩ :: walkList members

/-- Several nodes and all below them. -/
def walkList : List DocNode → List DocNode
  | [] => []
  | n :: ns => n.walk ++ walkList ns

end

end DocNode

/-- An imported name of a module. -/
structure ExternalEntry where
  name : String
  importedFrom : String
  importedName : String
  origin : Origin
  typeChecking : Bool
  line : Option Nat
  deriving Repr, DecidableEq, Inhabited

/-- A documented module. -/
structure DocModule where
  name : String
  isPackage : Bool := false
  files : ModuleFiles := {}
  status : ModuleStatus
  documented : Bool := true
  docstring : Option String := none
  doc : Option Docstring := none
  members : List DocNode := []
  externals : List ExternalEntry := []
  submodules : List DocModule := []
  diagnostics : List Diagnostic := []
  deriving Repr, Inhabited

namespace DocModule

/-- The node of a top-level name. -/
def member (m : DocModule) (name : String) : Option DocNode :=
  DocNode.find? m.members name

/-- The node at a dotted path. -/
def lookup (m : DocModule) (path : String) : Option DocNode :=
  DocNode.findPath? m.members (segments path)

/-- The imported name. -/
def external (m : DocModule) (name : String) : Option ExternalEntry :=
  m.externals.find? fun e => e.name == name

/-- Is a top-level name imported or defined? -/
def linkKind (m : DocModule) (name : String) : Option LinkKind :=
  if (m.external name).isSome then some .external
  else if m.members.any fun n => n.name == name && n.origin.isNone then some .definition
  else none

mutual

/-- A module and all below it, parents first. -/
def walk : DocModule → List DocModule
  | ⟨a, b, c, d, e, f, g, h, i, subs, j⟩ =>
    ⟨a, b, c, d, e, f, g, h, i, subs, j⟩ :: walkList subs

/-- Several modules and all below them. -/
def walkList : List DocModule → List DocModule
  | [] => []
  | m :: ms => m.walk ++ walkList ms

end

/-- Is `name` the module `parent` or a name below it? -/
def covers (parent name : String) : Bool :=
  name == parent || (parent ++ ".").toList.isPrefixOf name.toList

mutual

/-- The module of a name in a tree.  Only subtrees that cover the name are searched. -/
def findModule? (name : String) : DocModule → Option DocModule
  | ⟨n, a, b, c, d, e, f, g, h, subs, i⟩ =>
    if n = name then some ⟨n, a, b, c, d, e, f, g, h, subs, i⟩ else findModuleList? name subs

/-- The module of a name in several trees. -/
def findModuleList? (name : String) : List DocModule → Option DocModule
  | [] => none
  | m :: ms =>
    match if covers m.name name then findModule? name m else none with
    | some found => some found
    | none => findModuleList? name ms

end

end DocModule

/-- The documentation of a package. -/
structure DocModel where
  linkMode : LinkMode
  root : DocModule
  deriving Repr, Inhabited

namespace DocModel

/-- The module of a name. -/
def module? (model : DocModel) (name : String) : Option DocModule :=
  model.root.findModule? name

/-- All modules, parents first. -/
def modules (model : DocModel) : List DocModule :=
  model.root.walk

/-- The number of modules. -/
def moduleCount (model : DocModel) : Nat :=
  model.modules.length

end DocModel
end PackageDoc
