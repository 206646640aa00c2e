import PackageDoc.Source.Span

namespace PackageDoc

/-!
# Expressions

Only the shapes that matter for documentation have a structure: dotted names, subscripts, calls,
literals, displays and unions.  Any other expression is `unmodelled`, known by its span alone.
-/

/-- A name and where it stands. -/
structure Ident where
  name : String
  span : Span
  deriving Repr, DecidableEq, Inhabited

/-- An expression. -/
inductive Expr where
  | name (ident : Ident)
  /-- `value.field` -/
  | attr (value : Expr) (field : Ident) (span : Span)
  /-- `value[index]` -/
  | subscript (value index : Expr) (span : Span)
  /-- `func(args, keywords)`; a keyword without a name is a `**` argument. -/
  | call (func : Expr) (args : List Expr) (keywords : List (Option String × Expr)) (span : Span)
  /-- One or more adjacent string literals. -/
  | str (value : String) (isBytes isFormatted : Bool) (span : Span)
  | num (text : String) (span : Span)
  | bool (value : Bool) (span : Span)
  | none (span : Span)
  | ellipsis (span : Span)
  | tuple (items : List Expr) (span : Span)
  | list (items : List Expr) (span : Span)
  /-- An entry without a key is a `**` entry. -/
  | dict (entries : List (Option Expr × Expr)) (span : Span)
  /-- `left | right` -/
  | union (left right : Expr) (span : Span)
  | unmodelled (span : Span)
  deriving Repr, Inhabited

namespace Expr

/-- Where an expression stands. -/
def span : Expr → Span
  | name ident => ident.span
  | attr _ _ s | subscript _ _ s | call _ _ _ s | str _ _ _ s | num _ s | bool _ s | none s
  | ellipsis s | tuple _ s | list _ s | dict _ s | union _ _ s | unmodelled s => s

/-- The dotted name that an expression is, if it is one. -/
def dottedName? : Expr → Option String
  | name ident => some ident.name
  | attr value field _ => value.dottedName?.map fun base => base ++ "." ++ field.name
  | _ => Option.none

/-- The text of a plain string literal. -/
def text? : Expr → Option String
  | str value false false _ => some value
  | _ => Option.none

end Expr
end PackageDoc
