import PackageDoc.Declaration.SignatureComment
import PackageDoc.Source.Span
import PackageDoc.Syntax.StmtGrammar

namespace PackageDoc

/-!
# From statements to declarations

`ModuleTable.ofSuite` walks over the statements of a source file in order and binds names the way
the language does: definitions, assignments and imports bind, the bodies of other compound
statements are entered, those of functions are not.  The body of an initializer is searched for
assignments to its first parameter, which declare instance variables.
-/

/-! ### Pieces of statements -/

/-- The text of a plain string statement. -/
def Placed.text? (s : Placed Stmt) : Option String :=
  match s.stmt with
  | .expr e => e.text?
  | _ => none

/-- The docstring of a body. -/
def bodyDocstring? (body : List (Placed Stmt)) : Option String :=
  body.head?.bind Placed.text?

/-- The beginnings of comments that speak to tools and not to readers. -/
def pragmaStarts : List (List Char) :=
  ["fmt:".toList, "isort:".toList, "noqa".toList, "pragma".toList, "pylint:".toList,
   "pyright:".toList, "type:".toList]

/-- Does a comment speak to a tool? -/
def Comment.isPragma (c : Comment) : Bool :=
  pragmaStarts.any fun start => start.isPrefixOf (Text.trim c.text.toList)

/-- The text of a comment without a leading colon. -/
def Comment.docText (c : Comment) : List Char :=
  let text := Text.trim c.text.toList
  Text.trim ((Text.stripStart? [':'] text).getD text)

/-- The documentation in the comments of a statement: those above it or, if there are none, the one
    behind it. -/
def Placed.commentDoc? (s : Placed Stmt) : Option String :=
  if s.leading.isEmpty then
    match s.trailing with
    | none => none
    | some c =>
      let text := c.docText
      if c.isPragma || text.isEmpty then none else some (String.ofList text)
  else if s.leading.any Comment.isPragma then none
  else
    let text := Text.join ['\n'] (s.leading.map Comment.docText)
    if Text.isBlank text then none else some (String.ofList text)

mutual

/-- The names that an assignment target binds. -/
def Expr.targetNames : Expr → List String
  | .name ident => [ident.name]
  | .tuple items _ | .list items _ => targetNamesList items
  | _ => []

/-- The names that several targets bind. -/
def Expr.targetNamesList : List Expr → List String
  | [] => []
  | e :: es => e.targetNames ++ targetNamesList es

end

mutual

/-- The attributes of the variable `self` that an assignment target sets. -/
def Expr.attributeTargets (self : String) : Expr → List String
  | .attr (.name ident) field _ => if ident.name = self then [field.name] else []
  | .tuple items _ | .list items _ => attributeTargetsList self items
  | _ => []

/-- The attributes of the variable `self` that several targets set. -/
def Expr.attributeTargetsList (self : String) : List Expr → List String
  | [] => []
  | e :: es => e.attributeTargets self ++ attributeTargetsList self es

end

/-- Does a decorator give a property another accessor, as `@name.setter` does? -/
def isPropertyAccessor (name : String) (decorator : Expr) : Bool :=
  decorator.dottedName?.any fun d =>
    ["setter", "getter", "deleter"].any fun accessor => d == name ++ "." ++ accessor

/-! ### The walk -/

/-- Where in a source file a statement stands. -/
structure BodyContext where
  source : List Char
  package : String
  /-- Inside a class body? -/
  inClass : Bool := false
  /-- In a branch for type checkers only? -/
  typeChecking : Bool := false

namespace BodyContext

/-- The line of a byte offset. -/
def lineOf (ctx : BodyContext) (offset : Nat) : Nat :=
  PackageDoc.lineOf ctx.source offset

/-- The text that a span covers. -/
def text (ctx : BodyContext) (span : Span) : String :=
  trimmed (span.text ctx.source)

/-- The annotation that an expression is. -/
def hint (ctx : BodyContext) (e : Expr) : TypeHint :=
  { raw := ctx.text e.span }

/-- The module of an import, made absolute; `none` when it leaves the top-level package. -/
def absoluteModule? (ctx : BodyContext) (i : ImportFrom) : Option String :=
  if i.level = 0 then i.module
  else
    let parts := (segments ctx.package).filter fun p => !p.isEmpty
    let up := i.level - 1
    let kept := parts.take (parts.length - up)
    if parts.length < up || kept.isEmpty then none
    else
      let base := dotted kept
      some (match i.module with
        | some module => base ++ "." ++ module
        | none => base)

end BodyContext

/-- What the walk has found so far. -/
structure BodyState where
  /-- The names that the modules of the annotation vocabulary are bound to. -/
  typingModules : List String := []
  /-- Names of the annotation vocabulary, by the names they are bound to. -/
  typingNames : List (String × String) := []
  moduleAliases : List (String × String) := []
  starImports : List String := []
  autodoc : Option (List (String × AutodocValue)) := none
  diagnostics : List Diagnostic := []
  /-- The bindings of the present body. -/
  scope : Scope := .empty
  /-- The instance variables of the present class. -/
  instanceVars : List VariableDecl := []

namespace BodyState

/-- Report a finding. -/
def report (s : BodyState) (finding : Finding) (line : Nat) : BodyState :=
  { s with diagnostics := s.diagnostics ++ [Diagnostic.atLine finding line] }

/-- Bind a name in the present body. -/
def bind (s : BodyState) (name : String) (binding : Binding) : BodyState :=
  { s with scope := s.scope.bind name binding }

/-- Write another binding in the place of the one that a name has in the present body. -/
def rebind (s : BodyState) (name : String) (binding : Binding) : BodyState :=
  { s with scope := s.scope.set name binding }

/-- Does an expression name `name` of the annotation vocabulary? -/
def isTyping (s : BodyState) (e : Expr) (name : String) : Bool :=
  match e.dottedName? with
  | none => false
  | some path =>
    let parts := segments path
    if parts.length ≤ 1 then Assoc.get? s.typingNames path == some name
    else parts.getLast? == some name && s.typingModules.contains (parentName path)

/-! #### Imports -/

/-- `import a.b as c`: binds a module. -/
def importModule (s : BodyState) (a : Alias) : BodyState :=
  let s := if Target.isTypingModule a.name then
    { s with typingModules := s.typingModules ++ [a.boundName] } else s
  match a.asName with
  | some name => { s with moduleAliases := Assoc.bind s.moduleAliases name a.name }
  | none =>
    let head := (segments a.name).headD a.name
    { s with moduleAliases := Assoc.bind s.moduleAliases head head }

/-- One name of an import from `module`. -/
def importName (ctx : BodyContext) (module : String) (line : Nat) (s : BodyState) (a : Alias) :
    BodyState :=
  if a.name = "*" then
    if ctx.inClass then s else { s with starImports := s.starImports ++ [module] }
  else
    s.bind a.boundName (.external ⟨module, a.name, line, ctx.typeChecking⟩)

/-- Remember the names under which the annotation vocabulary is imported. -/
def addTypingNames (known : List (String × String)) (names : List Alias) :
    List (String × String) :=
  names.foldl (fun known a => Assoc.bind known a.boundName a.name) known

/-- An import of names from a module. -/
def importFrom (ctx : BodyContext) (i : ImportFrom) (line : Nat) (s : BodyState) : BodyState :=
  match ctx.absoluteModule? i with
  | none => s.report .importBeyondTop line
  | some module =>
    if module = "__future__" then s
    else
      let s :=
        if !ctx.inClass && Target.isTypingModule module then
          { s with typingNames := addTypingNames s.typingNames i.names }
        else s
      i.names.foldl (importName ctx module line) s

/-! #### Visibility rules -/

/-- The rule that an entry of a dictionary display states. -/
def autodocRule? (entry : Option Expr × Expr) : Option (String × AutodocValue) := do
  let key ← entry.1.bind Expr.text?
  match entry.2 with
  | .bool flag _ => some (key, .flag flag)
  | value => value.text?.map fun text => (key, .docstring text)

/-- The assignment that states the visibility rules of the module. -/
def assignAutodoc (value : Option Expr) (line : Nat) (s : BodyState) : BodyState :=
  match value with
  | some (.dict entries _) =>
    let s := entries.foldl
      (fun s e => if (autodocRule? e).isNone then s.report .autodocEntry line else s) s
    { s with autodoc := some (entries.filterMap autodocRule?) }
  | _ => s.report .autodocNotDict line

/-! #### Assignments -/

/-- Bind a variable.  An assignment to an overloaded function only documents it. -/
def assignVariable (s : BodyState) (v : VariableDecl) : BodyState :=
  match s.scope.get? v.name with
  | some (.function f) =>
    if f.hasOverloads then
      s.rebind v.name
        (.function { f with assignedDocstring := f.assignedDocstring <|> v.docstring })
    else s.bind v.name (.variable v)
  | some (.variable earlier) => s.rebind v.name (.variable (earlier.merge v))
  | _ => s.bind v.name (.variable v)

/-- The variable that an assignment declares, but for its name; `docstring` is the string below
    the statement. -/
def variableOf (ctx : BodyContext) (a : Assignment) (stmt : Placed Stmt)
    (docstring : Option String) : VariableDecl :=
  { name := ""
    line := ctx.lineOf stmt.span.start
    hint := a.hint.map ctx.hint <|>
      a.typeComment.map fun type => { raw := type }
    docstring := docstring
    commentDoc := stmt.commentDoc?
    value := a.value.map fun v => ctx.text v.span
    typeChecking := ctx.typeChecking }

/-- An assignment outside functions. -/
def assign (ctx : BodyContext) (a : Assignment) (stmt : Placed Stmt)
    (docstring : Option String) (s : BodyState) : BodyState :=
  let names := Expr.targetNamesList a.targets
  let isRules := match a.targets with
    | [.name ident] => ident.name == "__autodoc__"
    | _ => false
  if isRules && !ctx.inClass then
    s.assignAutodoc a.value (ctx.lineOf stmt.span.start)
  else
    let v := variableOf ctx a stmt docstring
    names.foldl (fun s name => s.assignVariable { v with name := name }) s

/-- Add an instance variable to those of the same initializer. -/
def addInstanceVar (vars : List VariableDecl) (v : VariableDecl) : List VariableDecl :=
  if vars.any fun w => w.name == v.name then
    vars.map fun w => if w.name == v.name then w.merge v else w
  else vars ++ [v]

/-- The instance variables that an assignment in an initializer declares. -/
def assignInstance (ctx : BodyContext) (self : String) (a : Assignment) (stmt : Placed Stmt)
    (docstring : Option String) (vars : List VariableDecl) : List VariableDecl :=
  let v := { variableOf ctx a stmt docstring with instanceVar := true }
  (Expr.attributeTargetsList self a.targets).foldl
    (fun vars name => addInstanceVar vars { v with name := name }) vars

/-! #### Definitions -/

/-- The declaration that a `def` statement makes. -/
def functionDecl (ctx : BodyContext) (s : BodyState) (h : FunctionHeader)
    (docstring : Option String) : FunctionDecl :=
  let decl : FunctionDecl :=
    { name := h.name.name
      line := ctx.lineOf h.name.span.start
      isAsync := h.isAsync
      decorators := h.decorators.map fun d => ctx.text d.span
      isOverload := h.decorators.any fun d => s.isTyping d "overload"
      params := h.params.map fun p =>
        ⟨p.name.name, p.kind, p.hint.map ctx.hint,
          p.default.map fun d => ctx.text d.span⟩
      returns := h.returns.map ctx.hint
      docstring := docstring }
  match h.typeComment with
  | some comment => decl.withSignatureComment comment ctx.inClass
  | none => decl

/-- Bind a function, or add to the declarations that its name has. -/
def bindFunction (s : BodyState) (decl : FunctionDecl) : BodyState :=
  match s.scope.get? decl.name with
  | some (.function f) => s.rebind decl.name (.function { f with decls := f.decls ++ [decl] })
  | _ => s.bind decl.name (.function { decls := [decl] })

/-- Add an instance variable to a class body.  What the body itself defines comes first. -/
def bindInstanceVar (scope : Scope) (v : VariableDecl) : Scope :=
  if scope.contains v.name then scope.mergeVariable v else scope.bind v.name (.variable v)

/-- Bind a class whose body was walked over to the state `inner`, and go on in the body around
    it. -/
def bindClass (ctx : BodyContext) (h : ClassHeader) (docstring : Option String)
    (outer inner : BodyState) : BodyState :=
  let scope := inner.instanceVars.foldl bindInstanceVar inner.scope
  let decl : ClassDecl :=
    ⟨h.name.name, ctx.lineOf h.name.span.start, h.decorators.map fun d => ctx.text d.span,
      h.bases.map ctx.hint, docstring⟩
  { inner with
    scope := outer.scope.bind decl.name (.classDef decl scope)
    instanceVars := outer.instanceVars }

end BodyState

open BodyState

mutual

/-- The instance variables that the body of an initializer declares. -/
def initBody (ctx : BodyContext) (self : String) :
    List (Placed Stmt) → List VariableDecl → List VariableDecl
  | [], vars => vars
  | p :: rest, vars =>
    initBody ctx self rest (initPlaced ctx self p (rest.head?.bind Placed.text?) vars)

/-- The instance variables that a statement of an initializer declares. -/
def initPlaced (ctx : BodyContext) (self : String) :
    Placed Stmt → (docstring : Option String) → List VariableDecl → List VariableDecl
  | ⟨stmt, span, leading, trailing⟩, docstring, vars =>
    initStmt ctx self ⟨.other, span, leading, trailing⟩ docstring stmt vars

/-- The instance variables that a statement at `place` declares. -/
def initStmt (ctx : BodyContext) (self : String) (place : Placed Stmt)
    (docstring : Option String) : Stmt → List VariableDecl → List VariableDecl
  | .assign a, vars => assignInstance ctx self a place docstring vars
  | .cond _ body orelse, vars => initBody ctx self orelse (initBody ctx self body vars)
  | .block bodies, vars => initBodies ctx self bodies vars
  | _, vars => vars

/-- The instance variables that several bodies declare. -/
def initBodies (ctx : BodyContext) (self : String) :
    List (List (Placed Stmt)) → List VariableDecl → List VariableDecl
  | [], vars => vars
  | body :: bodies, vars => initBodies ctx self bodies (initBody ctx self body vars)

end

/-- A `def` statement. -/
def declareFunction (ctx : BodyContext) (h : FunctionHeader) (body : List (Placed Stmt))
    (s : BodyState) : BodyState :=
  if h.decorators.any (isPropertyAccessor h.name.name) then s
  else
    let decl := functionDecl ctx s h (bodyDocstring? body)
    let s :=
      match h.params with
      | self :: _ =>
        if ctx.inClass && h.name.name = "__init__" then
          { s with instanceVars := s.instanceVars ++ initBody ctx self.name.name body [] }
        else s
      | [] => s
    s.bindFunction decl

mutual

/-- Walk over a body. -/
def declareBody (ctx : BodyContext) : List (Placed Stmt) → BodyState → BodyState
  | [], s => s
  | p :: rest, s => declareBody ctx rest (declarePlaced ctx p (rest.head?.bind Placed.text?) s)

/-- Walk over a statement; `docstring` is the string below it. -/
def declarePlaced (ctx : BodyContext) :
    Placed Stmt → (docstring : Option String) → BodyState → BodyState
  | ⟨stmt, span, leading, trailing⟩, docstring, s =>
    declareStmt ctx ⟨.other, span, leading, trailing⟩ docstring stmt s

/-- Walk over a statement that stands at `place`. -/
def declareStmt (ctx : BodyContext) (place : Placed Stmt) (docstring : Option String) :
    Stmt → BodyState → BodyState
  | .functionDef header body, s => declareFunction ctx header body s
  | .classDef header body, s =>
    bindClass ctx header (bodyDocstring? body) s
      (declareBody { ctx with inClass := true } body { s with scope := .empty, instanceVars := [] })
  | .assign a, s => s.assign ctx a place docstring
  | .importNames names, s => if ctx.inClass then s else names.foldl importModule s
  | .importFrom i, s => s.importFrom ctx i (ctx.lineOf place.span.start)
  | .cond test body orelse, s =>
    let guarded := ctx.typeChecking || s.isTyping test "TYPE_CHECKING"
    declareBody ctx orelse (declareBody { ctx with typeChecking := guarded } body s)
  | .block bodies, s => declareBodies ctx bodies s
  | .expr _, s => s
  | .other, s => s

/-- Walk over several bodies. -/
def declareBodies (ctx : BodyContext) : List (List (Placed Stmt)) → BodyState → BodyState
  | [], s => s
  | body :: bodies, s => declareBodies ctx bodies (declareBody ctx body s)

end

namespace ModuleTable

/-- The declarations of a parsed source file. -/
def ofSuite (suite : Suite) (source name : String) (isPackage : Bool) : ModuleTable :=
  let ctx : BodyContext := { source := source.toList, package := packageOf name isPackage }
  let issues := suite.issues.map fun i =>
    Diagnostic.atLine (.malformedSource i.error) (ctx.lineOf i.span.start)
  let s := declareBody ctx suite.body { diagnostics := issues }
  { name := name
    isPackage := isPackage
    docstring := bodyDocstring? suite.body
    scope := s.scope
    moduleAliases := s.moduleAliases
    starImports := s.starImports
    autodoc := s.autodoc
    diagnostics := s.diagnostics }

/-- The declarations of a source text. -/
def parse (source name : String) (isPackage : Bool) : ModuleTable :=
  ofSuite (Suite.parse source) source name isPackage

/-- The declarations of a source file.  One that cannot be decoded declares nothing and counts as
    malformed. -/
def parseBytes (bytes : List UInt8) (name : String) (isPackage : Bool) : ModuleTable :=
  match decodeSource bytes with
  | .ok source => parse source name isPackage
  | .error error =>
    { name := name, isPackage := isPackage,
      diagnostics := [{ finding := .undecodableSource error }] }

end ModuleTable
end PackageDoc
