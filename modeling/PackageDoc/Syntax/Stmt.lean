import PackageDoc.Syntax.Error
import PackageDoc.Syntax.Expr

namespace PackageDoc

/-!
# Statements

The statements of a source text, with the comments that belong to them.
-/

/-- A comment without its `#` and the blanks around its text. -/
structure Comment where
  text : String
  span : Span
  deriving Repr, DecidableEq, Inhabited

/-- How arguments reach a parameter. -/
inductive ParamKind where
  | positionalOnly | positionalOrKeyword | varPositional | keywordOnly | varKeyword
  deriving Repr, DecidableEq, Inhabited

/-- A parameter of a function. -/
structure Param where
  name : Ident
  kind : ParamKind
  hint : Option Expr
  default : Option Expr
  deriving Repr, Inhabited

/-- A function definition without its body. -/
structure FunctionHeader where
  name : Ident
  isAsync : Bool
  decorators : List Expr
  params : List Param
  returns : Option Expr
  /-- The text of a `# type:` comment for the whole signature. -/
  typeComment : Option String
  deriving Repr, Inhabited

/-- A class definition without its body. -/
structure ClassHeader where
  name : Ident
  decorators : List Expr
  bases : List Expr
  /-- Keyword arguments; one without a name is a `**` argument. -/
  keywords : List (Option String × Expr)
  deriving Repr, Inhabited

/-- An assignment, or a declaration when it has no value. -/
structure Assignment where
  targets : List Expr
  hint : Option Expr
  value : Option Expr
  typeComment : Option String := none
  deriving Repr, Inhabited

/-- An imported name and the name that it is bound to. -/
structure Alias where
  name : String
  asName : Option String
  span : Span
  deriving Repr, DecidableEq, Inhabited

/-- The name that an import binds. -/
def Alias.boundName (a : Alias) : String :=
  a.asName.getD a.name

/-- `from module import names`, the module being relative to the package `level - 1` packages up
    when `level` is positive. -/
structure ImportFrom where
  module : Option String
  level : Nat
  names : List Alias
  deriving Repr, DecidableEq, Inhabited

/-- A statement with its place and its comments. -/
structure Placed (α : Type) where
  stmt : α
  span : Span
  /-- The comment lines directly above. -/
  leading : List Comment := []
  /-- The comment at the end of the line. -/
  trailing : Option Comment := none
  deriving Repr, Inhabited

/-- A statement. -/
inductive Stmt where
  | functionDef (header : FunctionHeader) (body : List (Placed Stmt))
  | classDef (header : ClassHeader) (body : List (Placed Stmt))
  | assign (assignment : Assignment)
  | importNames (names : List Alias)
  | importFrom (source : ImportFrom)
  | cond (test : Expr) (body orelse : List (Placed Stmt))
  /-- Any other compound statement with the bodies of its clauses. -/
  | block (bodies : List (List (Placed Stmt)))
  | expr (value : Expr)
  /-- A statement that neither binds nor documents anything. -/
  | other
  deriving Repr, Inhabited

/-- A source text, parsed. -/
structure Suite where
  body : List (Placed Stmt)
  span : Span
  issues : List SyntaxIssue
  deriving Repr, Inhabited

end PackageDoc
