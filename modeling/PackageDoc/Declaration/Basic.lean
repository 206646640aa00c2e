import PackageDoc.Declaration.Assoc
import PackageDoc.Model.Diagnostic
import PackageDoc.Syntax.Stmt
import PackageDoc.Text.Space

namespace PackageDoc

/-!
# Declarations

What the names of a module or class body are bound to: functions, classes, variables and imported
names.  Annotations are kept as text until types are evaluated.
-/

/-- The text of an annotation and, once it is evaluated, its type. -/
structure TypeHint where
  raw : String
  resolved : Option TypeRef := none
  deriving Repr, DecidableEq, Inhabited

/-- Record the type of an annotation; only the first one counts. -/
def TypeHint.resolve (a : TypeHint) (type : TypeRef) : TypeHint :=
  { a with resolved := a.resolved <|> some type }

/-- A parameter. -/
structure ParamDecl where
  name : String
  kind : ParamKind
  hint : Option TypeHint
  /-- The text of the default value. -/
  default : Option String
  deriving Repr, DecidableEq, Inhabited

/-- One `def` statement. -/
structure FunctionDecl where
  name : String
  line : Nat
  isAsync : Bool := false
  /-- The texts of the decorators, outermost first. -/
  decorators : List String := []
  isOverload : Bool := false
  params : List ParamDecl := []
  returns : Option TypeHint := none
  docstring : Option String := none
  deriving Repr, DecidableEq, Inhabited

/-- The dotted name that a decorator's text begins with. -/
def decoratorHead (text : String) : String :=
  String.ofList (Text.trim (text.toList.takeWhile fun c => c != '('))

/-- Has the function a decorator of this name, in whatever module? -/
def FunctionDecl.hasDecorator (f : FunctionDecl) (name : String) : Bool :=
  f.decorators.any fun d =>
    let head := decoratorHead d
    head == name || (segments head).getLast? == some name

/-- The `def` statements that are bound to one name. -/
structure FunctionBinding where
  /-- In the order of the source. -/
  decls : List FunctionDecl
  /-- The docstring of an assignment that stands for the implementation of overloads. -/
  assignedDocstring : Option String := none
  deriving Repr, DecidableEq, Inhabited

namespace FunctionBinding

/-- Is any of the declarations an overload? -/
def hasOverloads (f : FunctionBinding) : Bool :=
  f.decls.any FunctionDecl.isOverload

/-- The last declaration, if it is no overload. -/
def implementation (f : FunctionBinding) : Option FunctionDecl :=
  f.decls.getLast?.filter fun d => !d.isOverload

end FunctionBinding

/-- A class without its body. -/
structure ClassDecl where
  name : String
  line : Nat
  decorators : List String
  bases : List TypeHint
  docstring : Option String
  deriving Repr, DecidableEq, Inhabited

/-- A variable with what all its assignments say. -/
structure VariableDecl where
  name : String
  /-- The line of the first assignment. -/
  line : Nat
  hint : Option TypeHint := none
  docstring : Option String := none
  /-- The comments of the first assignment that has some. -/
  commentDoc : Option String := none
  /-- The text of the last assigned value. -/
  value : Option String := none
  /-- Assigned to an instance by its initializer. -/
  instanceVar : Bool := false
  /-- Bound for type checkers only. -/
  typeChecking : Bool := false
  deriving Repr, DecidableEq, Inhabited

namespace VariableDecl

/-- The docstring or, without one, the comments. -/
def effectiveDocstring (v : VariableDecl) : Option String :=
  v.docstring <|> v.commentDoc

/-- Add a later declaration: the first documentation and the last type and value count. -/
def merge (v later : VariableDecl) : VariableDecl :=
  { v with
    docstring := v.docstring <|> later.docstring
    commentDoc := v.commentDoc <|> later.commentDoc
    hint := later.hint <|> v.hint
    value := later.value <|> v.value
    instanceVar := v.instanceVar || later.instanceVar
    typeChecking := v.typeChecking && later.typeChecking }

end VariableDecl

/-- A name imported from a module. -/
structure ExternalDecl where
  module : String
  name : String
  line : Nat
  typeChecking : Bool
  deriving Repr, DecidableEq, Inhabited

/-- What a name is bound to. -/
inductive Binding where
  | function (binding : FunctionBinding)
  | classDef (decl : ClassDecl) (scope : Roster Binding)
  | variable (decl : VariableDecl)
  | external (decl : ExternalDecl)
  deriving Repr, Inhabited

/-- The bindings of a module or class body, in the order of first binding. -/
abbrev Scope := Roster Binding

namespace Binding

/-- The line of the first declaration. -/
def line : Binding → Nat
  | .function f => (f.decls.head?.map FunctionDecl.line).getD 0
  | .classDef c _ => c.line
  | .variable v => v.line
  | .external e => e.line

/-- Is the name defined here and not imported? -/
def isDefinition : Binding → Bool
  | .external _ => false
  | _ => true

/-- The bindings of a class body. -/
def scope : Binding → Scope
  | .classDef _ scope => scope
  | _ => .empty

end Binding

/-- The binding at a path through class bodies. -/
def Scope.lookup (scope : Scope) : (path : List String) → Option Binding
  | [] => none
  | [name] => scope.get? name
  | name :: path => (scope.get? name).bind fun b => Scope.lookup b.scope path

/-- Nothing is bound in an empty body, at no path. -/
theorem Scope.lookup_empty (path : List String) : Scope.lookup .empty path = none := by
  match path with
  | [] => rfl
  | [_] => rfl
  | _ :: _ :: _ => rfl

/-- Add a later declaration to the variable that has its name.  Other bindings stay as they are. -/
def Scope.mergeVariable (scope : Scope) (later : VariableDecl) : Scope :=
  match scope.get? later.name with
  | some (.variable earlier) => scope.set later.name (.variable (earlier.merge later))
  | _ => scope

/-- What one source file declares. -/
structure ModuleTable where
  name : String
  /-- The source of a package itself. -/
  isPackage : Bool
  docstring : Option String := none
  scope : Scope := .empty
  /-- Names bound to modules. -/
  moduleAliases : List (String × String) := []
  /-- Modules all of whose names are imported. -/
  starImports : List String := []
  /-- The visibility rules that the source states. -/
  autodoc : Option (List (String × AutodocValue)) := none
  diagnostics : List Diagnostic := []
  deriving Repr, Inhabited

namespace ModuleTable

/-- Is the source malformed? -/
def hasSyntaxErrors (t : ModuleTable) : Bool :=
  t.diagnostics.any fun d => d.kind == .syntaxError

end ModuleTable

/-- The part of a dotted name before its last dot. -/
def parentName (name : String) : String :=
  dotted (segments name).dropLast

/-- The package that relative imports of a module start from. -/
def packageOf (name : String) (isPackage : Bool) : String :=
  if isPackage then name else parentName name

/-- The package of a module table. -/
def ModuleTable.package (t : ModuleTable) : String :=
  packageOf t.name t.isPackage

end PackageDoc
