import PackageDoc.Declaration.Basic

namespace PackageDoc

/-!
# Merged modules

A module after its sources and its snapshot were merged into one view.

The declarations of a function come in runs: some overloads, closed by an implementation.  A name that
is defined anew begins a new run, and only the last run is bound in the end.
-/

/-! ### Overloaded functions -/

/-- The run of declarations that a name is bound to. -/
structure FunctionGroup where
  overloads : List FunctionDecl := []
  implementation : Option FunctionDecl := none
  deriving Repr, DecidableEq, Inhabited

namespace FunctionGroup

/-- The declaration that speaks for the function: the implementation or else the last overload. -/
def primary (g : FunctionGroup) : Option FunctionDecl :=
  g.implementation <|> g.overloads.getLast?

/-- Overloads first, then the implementation. -/
def decls (g : FunctionGroup) : List FunctionDecl :=
  g.overloads ++ g.implementation.toList

/-- Add a declaration.  After an implementation it begins a new run. -/
def add (g : FunctionGroup) (decl : FunctionDecl) : FunctionGroup :=
  let run := if g.implementation.isSome then [] else g.overloads
  if decl.isOverload then ⟨run ++ [decl], none⟩ else ⟨run, some decl⟩

/-- The last run of declarations. -/
def ofDecls (decls : List FunctionDecl) : FunctionGroup :=
  decls.foldl add {}

/-- Change the declaration at a place of `decls`; every place after the overloads is that of the
    implementation. -/
def modify (g : FunctionGroup) (place : Nat) (f : FunctionDecl → FunctionDecl) : FunctionGroup :=
  if place < g.overloads.length then { g with overloads := g.overloads.modify place f }
  else { g with implementation := g.implementation.map f }

end FunctionGroup

/-! ### Definitions and views -/

/-- What a definition is. -/
inductive MemberShape where
  | classDef (bases : List TypeHint) (decorators : List String)
  | function (group : FunctionGroup)
  | variable (hint : Option TypeHint) (value : Option String) (instanceVar typeChecking : Bool)
  deriving Repr, DecidableEq, Inhabited

/-- A definition. -/
structure MergedMember where
  name : String
  /-- The line of the declaration, when a source declares it. -/
  line : Option Nat := none
  /-- As it is written. -/
  docstring : Option String := none
  shape : MemberShape
  /-- The definitions in the body of a class. -/
  members : List MergedMember := []
  deriving Repr, Inhabited

namespace MergedMember

/-- The first of several definitions that has a name. -/
def find? (members : List MergedMember) (name : String) : Option MergedMember :=
  members.find? fun m => m.name == name

/-- Follow names down from one of `members`. -/
def findPath? (members : List MergedMember) : List String → Option MergedMember
  | [] => none
  | [name] => find? members name
  | name :: names => (find? members name).bind fun m => findPath? m.members names

/-- The line of the declaration, unless it is unknown. -/
def knownLine (m : MergedMember) : Option Nat :=
  m.line.filter fun line => 0 < line

end MergedMember

/-- What a name of a module is bound to. -/
inductive MergedItem where
  | member (member : MergedMember)
  | external (name : String) (decl : ExternalDecl)
  deriving Repr, Inhabited

namespace MergedItem

/-- The name that is bound. -/
def name : MergedItem → String
  | .member m => m.name
  | .external name _ => name

/-- The definition, if it is one. -/
def member? : MergedItem → Option MergedMember
  | .member m => some m
  | .external _ _ => none

/-- The import, if it is one. -/
def external? : MergedItem → Option (String × ExternalDecl)
  | .member _ => none
  | .external name decl => some (name, decl)

end MergedItem

/-- A module. -/
structure MergedModule where
  docstring : Option String := none
  /-- In the order of declaration. -/
  items : List MergedItem := []
  /-- Names bound to modules. -/
  moduleAliases : List (String × String) := []
  /-- The visibility rules, in order. -/
  autodoc : List (String × AutodocValue) := []
  deriving Repr, Inhabited

namespace MergedModule

/-- The definitions in order. -/
def members (m : MergedModule) : List MergedMember :=
  m.items.filterMap MergedItem.member?

/-- The imported names in order. -/
def externals (m : MergedModule) : List (String × ExternalDecl) :=
  m.items.filterMap MergedItem.external?

/-- The definition of a name. -/
def member? (m : MergedModule) (name : String) : Option MergedMember :=
  MergedMember.find? m.members name

/-- The import of a name. -/
def external? (m : MergedModule) (name : String) : Option ExternalDecl :=
  Assoc.get? m.externals name

/-- Is the name defined or imported? -/
def binds (m : MergedModule) (name : String) : Bool :=
  (m.member? name).isSome || (m.external? name).isSome

/-- The definition at a path through classes. -/
def lookup (m : MergedModule) (path : List String) : Option MergedMember :=
  MergedMember.findPath? m.members path

end MergedModule

/-! ### Places of type hints -/

/-- A place for a type hint in a definition. -/
inductive HintPlace where
  /-- A base of a class. -/
  | base (index : Nat)
  /-- The type of a variable. -/
  | type
  /-- A parameter of one of the declarations of a function. -/
  | param (decl index : Nat)
  | returns (decl : Nat)
  deriving Repr, DecidableEq, Inhabited

/-- Change the first element that satisfies `p`. -/
def modifyFirst {α : Type} (p : α → Bool) (f : α → α) : List α → List α
  | [] => []
  | a :: as => if p a then f a :: as else a :: modifyFirst p f as

/-- Record the type of a hint of a function. -/
def FunctionDecl.resolveParam (decl : FunctionDecl) (index : Nat) (type : TypeRef) :
    FunctionDecl :=
  { decl with
    params := decl.params.modify index fun p => { p with hint := p.hint.map (·.resolve type) } }

/-- Record the type of the result of a function. -/
def FunctionDecl.resolveReturns (decl : FunctionDecl) (type : TypeRef) : FunctionDecl :=
  { decl with returns := decl.returns.map (·.resolve type) }

/-- Record the type of a hint.  Nothing changes if there is no hint at that place. -/
def MemberShape.resolve (type : TypeRef) : HintPlace → MemberShape → MemberShape
  | .base index, .classDef bases decorators =>
    .classDef (bases.modify index (·.resolve type)) decorators
  | .type, .variable hint value instanceVar typeChecking =>
    .variable (hint.map (·.resolve type)) value instanceVar typeChecking
  | .param decl index, .function group =>
    .function (group.modify decl (·.resolveParam index type))
  | .returns decl, .function group => .function (group.modify decl (·.resolveReturns type))
  | _, shape => shape

/-- The places of a definition that have a hint, with the hints, in order. -/
def MemberShape.hints : MemberShape → List (HintPlace × TypeHint)
  | .classDef bases _ => bases.zipIdx.map fun (hint, i) => (.base i, hint)
  | .function group => group.decls.zipIdx.flatMap fun (decl, d) =>
      (decl.params.zipIdx.filterMap fun (p, i) => p.hint.map fun hint => (.param d i, hint)) ++
        (decl.returns.map fun hint => (.returns d, hint)).toList
  | .variable hint _ _ _ => (hint.map fun hint => (.type, hint)).toList

/-- Record the type of a hint of the definition that a path leads to from `m`; of definitions with
    the same name the first counts. -/
def MergedMember.resolveAt (place : HintPlace) (type : TypeRef) :
    (path : List String) → MergedMember → MergedMember
  | [], m => { m with shape := m.shape.resolve type place }
  | name :: path, m =>
    { m with members := modifyFirst (fun c => c.name == name) (resolveAt place type path) m.members }

/-- Change the definition that an item is. -/
def MergedItem.mapMember (f : MergedMember → MergedMember) : MergedItem → MergedItem
  | .member m => .member (f m)
  | .external name decl => .external name decl

/-- Record the type of a hint of the definition at a path. -/
def MergedModule.resolveAt (m : MergedModule) (place : HintPlace) (type : TypeRef) :
    (path : List String) → MergedModule
  | [] => m
  | name :: path =>
    { m with
      items := modifyFirst (fun item => item.member?.any fun d => d.name == name)
        (MergedItem.mapMember (MergedMember.resolveAt place type path)) m.items }

end PackageDoc
