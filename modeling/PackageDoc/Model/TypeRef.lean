import PackageDoc.Text.Printable

namespace PackageDoc

/-!
# Evaluated types

* `Target` — what a name in an annotation refers to;
* `TypeRef` — the type that an annotation denotes, or its text with the reason why none was found;
* `TypeRef.unionOf` — unions in normal form: no nested unions, no duplicates.
-/

/-- Where a target lives. -/
inductive TargetScope where
  /-- A definition of the documented package. -/
  | package
  /-- A module of the documented package. -/
  | module
  /-- A name outside the package. -/
  | library
  | builtin
  deriving Repr, DecidableEq, Inhabited

/-- What a name refers to. -/
structure Target where
  /-- The module that owns the target, or is the target itself. -/
  module : String
  /-- The dotted path inside the module; empty for a module. -/
  qualname : String
  scope : TargetScope
  deriving Repr, DecidableEq, Inhabited

namespace Target

/-- A builtin such as `int` or `None`. -/
def ofBuiltin (name : String) : Target :=
  ⟨"builtins", name, .builtin⟩

/-- The dotted name of the target with its module. -/
def fullName (t : Target) : String :=
  if t.qualname.isEmpty then t.module else t.module ++ "." ++ t.qualname

/-- The modules that define the vocabulary of annotations. -/
def isTypingModule (module : String) : Bool :=
  module == "typing" || module == "typing_extensions"

/-- Is the target `name` of the vocabulary of annotations? -/
def isTyping (t : Target) (name : String) : Bool :=
  t.scope == .library && isTypingModule t.module && t.qualname == name

/-- The name shown to readers: builtins go without their module. -/
def text (t : Target) : String :=
  match t.scope with
  | .builtin => t.qualname
  | _ => t.fullName

end Target

/-- Why an annotation was kept as text. -/
inductive RawReason where
  /-- Written as `X | Y` or `(A) -> R`; only its names are linked. -/
  | alternateSyntax
  /-- Not an expression. -/
  | unparseable
  /-- The name is bound nowhere in scope. -/
  | undefinedName (name : String)
  /-- The text of a forward reference denotes no type. -/
  | unresolvedForwardRef (text : String)
  /-- The import chain of the name loops. -/
  | cyclicImport (name : String)
  /-- The import chain of the name ends nowhere. -/
  | unresolvedImport (name : String)
  /-- An expression, but not one that denotes a type. -/
  | unsupportedExpression
  /-- Forward references inside forward references. -/
  | tooDeep
  deriving Repr, DecidableEq, Inhabited

/-- The wording of a reason. -/
def RawReason.message : RawReason → String
  | alternateSyntax => "alternate annotation syntax"
  | unparseable => "annotation does not parse"
  | undefinedName name => "name " ++ Text.quoted name ++ " is not defined"
  | unresolvedForwardRef text => "forward reference " ++ Text.quoted text ++ " cannot be resolved"
  | cyclicImport name => "name " ++ Text.quoted name ++ " is part of an import cycle"
  | unresolvedImport name => "import of " ++ Text.quoted name ++ " is unresolved"
  | unsupportedExpression => "unsupported type expression"
  | tooDeep => "forward references nest too deeply"

/-- A name inside an annotation's text, by its byte offsets there, and what it refers to. -/
structure TextLink where
  start : Nat
  stop : Nat
  target : Target
  deriving Repr, DecidableEq, Inhabited

/-- The type that an annotation denotes. -/
inductive TypeRef where
  | resolved (target : Target)
  /-- A subscripted type such as `List[int]`. -/
  | generic (base : TypeRef) (args : List TypeRef)
  | union (members : List TypeRef)
  /-- `Literal[...]` with its values as they are written. -/
  | literal (values : List String)
  /-- A parameter list in brackets, as in `Callable[[A, B], R]`. -/
  | params (items : List TypeRef)
  | ellipsis
  /-- The text of an annotation that was not evaluated. -/
  | raw (text : String) (reason : RawReason) (links : List TextLink)
  deriving Repr, Inhabited

namespace TypeRef

mutual

/-- Equality of types. -/
def beq : TypeRef → TypeRef → Bool
  | resolved s, resolved t => s == t
  | generic b as, generic c bs => beq b c && beqList as bs
  | union as, union bs => beqList as bs
  | literal as, literal bs => as == bs
  | params as, params bs => beqList as bs
  | ellipsis, ellipsis => true
  | raw s r ls, raw t q ks => s == t && r == q && ls == ks
  | _, _ => false

/-- Equality of lists of types. -/
def beqList : List TypeRef → List TypeRef → Bool
  | [], [] => true
  | a :: as, b :: bs => beq a b && beqList as bs
  | _, _ => false

end

mutual

/-- The test for equal types finds equal types. -/
theorem beq_eq_true_iff : ∀ a b : TypeRef, beq a b = true ↔ a = b
  | resolved _, b => by cases b <;> simp [beq]
  | generic a as, b => by
    cases b <;> simp [beq]
    rw [beq_eq_true_iff a, beqList_eq_true_iff as]
  | union as, b => by
    cases b <;> simp [beq]
    rw [beqList_eq_true_iff as]
  | literal _, b => by cases b <;> simp [beq]
  | params as, b => by
    cases b <;> simp [beq]
    rw [beqList_eq_true_iff as]
  | ellipsis, b => by cases b <;> simp [beq]
  | raw _ _ _, b => by cases b <;> simp [beq, and_assoc]

/-- So does the one for lists of types. -/
theorem beqList_eq_true_iff : ∀ as bs : List TypeRef, beqList as bs = true ↔ as = bs
  | [], bs => by cases bs <;> simp [beqList]
  | a :: as, bs => by
    cases bs <;> simp [beqList]
    rw [beq_eq_true_iff a, beqList_eq_true_iff as]

end

instance : DecidableEq TypeRef := fun a b =>
  decidable_of_iff (beq a b = true) (beq_eq_true_iff a b)

/-- Was the annotation kept as text for a reason other than its syntax? -/
def isFailure : TypeRef → Bool
  | raw _ .alternateSyntax _ => false
  | raw _ _ _ => true
  | _ => false

/-- The members that a type contributes to a union. -/
def unionMembers : TypeRef → List TypeRef
  | union members => members
  | t => [t]

/-- Append `t` unless it is there already. -/
def insertNew (ts : List TypeRef) (t : TypeRef) : List TypeRef :=
  if t ∈ ts then ts else ts ++ [t]

/-- The union of types: nested unions are spliced in place and later duplicates dropped. -/
def unionOf (members : List TypeRef) : TypeRef :=
  union ((members.flatMap unionMembers).foldl insertNew [])

mutual

/-- The type as it is shown to readers. -/
def text : TypeRef → String
  | resolved target => target.text
  | generic base args => base.text ++ "[" ++ listText args ++ "]"
  | union members => "Union[" ++ listText members ++ "]"
  | literal values => "Literal[" ++ String.intercalate ", " values ++ "]"
  | params items => "[" ++ listText items ++ "]"
  | ellipsis => "..."
  | raw text _ _ => text

/-- Types separated by commas. -/
def listText : List TypeRef → String
  | [] => ""
  | [t] => t.text
  | t :: ts => t.text ++ ", " ++ listText ts

end

end TypeRef
end PackageDoc
