import PackageDoc.Analysis.Target
import PackageDoc.Syntax.ExprGrammar

namespace PackageDoc

/-!
# Evaluation of annotations

`TypeEnv.evaluate` reads the text of an annotation as a type.  Texts that use `|` or `->` are kept,
with the names in them linked.  A string inside an annotation is an annotation itself, and is
evaluated in turn down to a fixed depth.
-/

/-- How deep strings inside annotations are followed. -/
def forwardDepth : Nat := 8

/-! ### Texts in the alternate syntax -/

/-- Is the text written with `|` or `->`? -/
def isAlternateSyntax (text : String) : Bool :=
  (tokenize text).1.any fun t => t.kind == .pipe || t.kind == .arrow

/-- The longest dotted names among tokens.  `run` is a name that may go on and `dot` tells whether
    the token before was a dot. -/
def nameRuns (run : Option Span) (dot : Bool) : List Token → List Span
  | [] => run.toList
  | t :: ts =>
    let isName := t.kind == .name
    let isDot := t.kind == .dot
    match run with
    | none => if isName && !dot then nameRuns (some t.span) false ts else nameRuns none isDot ts
    | some span =>
      if dot then
        if isName then nameRuns (some (span.cover t.span)) false ts
        else span :: nameRuns none isDot ts
      else if isDot then nameRuns run true ts
      else span :: nameRuns (if isName then some t.span else none) false ts

namespace TypeEnv

/-- Links for those of some dotted names of a text that refer to something. -/
def linksAt (env : TypeEnv) (scope : Option ClassScope) (text : String) :
    List Span → Eval (List TextLink)
  | [] => pure []
  | span :: spans => do
    let name := String.ofList ((span.text text.toList).toList.filter fun c => !Text.isSpace c)
    let found ← tryCatch (do return [⟨span.start, span.stop, ← env.target scope name⟩])
      fun _ => pure []
    return found ++ (← env.linksAt scope text spans)

/-- Links for the dotted names of a text. -/
def links (env : TypeEnv) (scope : Option ClassScope) (text : String) : Eval (List TextLink) :=
  env.linksAt scope text (nameRuns none false (tokenize text).1)

/-! ### Expressions -/

/-- The meaning of `base[args]`.  `all` evaluates the arguments, `first` the first of them. -/
def subscripted (text : String) (base : TypeRef) (args : List Expr)
    (all : Unit → Eval (List TypeRef)) (first : Unit → Eval TypeRef) : Eval TypeRef :=
  let is (name : String) : Bool := match base with
    | .resolved target => target.isTyping name
    | _ => false
  if is "Literal" then pure (.literal (args.map fun arg => arg.span.text text.toList))
  else if is "Union" then do return .unionOf (← all ())
  else if is "Optional" then do
    return .unionOf ((← all ()) ++ [.resolved (Target.ofBuiltin "None")])
  else if is "Annotated" then do return .generic base [← first ()]
  else do return .generic base (← all ())

mutual

/-- The type that an expression of `text` denotes.  Strings are evaluated by `forward`. -/
def evalExpr (env : TypeEnv) (scope : Option ClassScope) (text : String)
    (forward : String → Eval TypeRef) : Expr → Eval TypeRef
  | .name ident => do return .resolved (← env.target scope ident.name)
  | .attr value field span =>
    match (Expr.attr value field span).dottedName? with
    | some name => do return .resolved (← env.target scope name)
    | none => throw .unsupportedExpression
  | .none _ => pure (.resolved (Target.ofBuiltin "None"))
  | .ellipsis _ => pure .ellipsis
  | .str value isBytes isFormatted _ =>
    if isBytes || isFormatted then throw .unsupportedExpression else forward value
  | .list items _ => do return .params (← evalAll env scope text forward items)
  | .tuple [] _ => pure (.params [])
  | .subscript value (.tuple items _) _ => do
    let base ← evalExpr env scope text forward value
    subscripted text base items (fun _ => evalAll env scope text forward items)
      (fun _ => evalFirst env scope text forward items)
  | .subscript value index _ => do
    let base ← evalExpr env scope text forward value
    subscripted text base [index]
      (fun _ => do return [← evalExpr env scope text forward index])
      (fun _ => evalExpr env scope text forward index)
  | _ => throw .unsupportedExpression

/-- The types that expressions denote. -/
def evalAll (env : TypeEnv) (scope : Option ClassScope) (text : String)
    (forward : String → Eval TypeRef) : List Expr → Eval (List TypeRef)
  | [] => pure []
  | e :: es => do
    let type ← evalExpr env scope text forward e
    return type :: (← evalAll env scope text forward es)

/-- The type that the first of some expressions denotes. -/
def evalFirst (env : TypeEnv) (scope : Option ClassScope) (text : String)
    (forward : String → Eval TypeRef) : List Expr → Eval TypeRef
  | [] => throw .unsupportedExpression
  | e :: _ => evalExpr env scope text forward e

end

/-- The expressions of which none denotes a type. -/
def isNoType : Expr → Bool
  | .num .. | .bool .. | .call .. | .dict .. | .union .. | .unmodelled _ => true
  | .tuple items _ => !items.isEmpty
  | _ => false

/-- An expression that can be no type is refused, whatever it is made of. -/
theorem evalExpr_of_isNoType {env : TypeEnv} {scope : Option ClassScope} {text : String}
    {forward : String → Eval TypeRef} {e : Expr} (h : isNoType e = true) :
    env.evalExpr scope text forward e = throw .unsupportedExpression := by
  cases e with
  | tuple items span =>
    cases items with
    | nil => cases h
    | cons e es => simp [evalExpr]
  | num | bool | call | dict | union | unmodelled => simp [evalExpr]
  | _ => cases h

/-- What is kept by all ways in which expressions are evaluated holds of every expression.  With it,
    `Q` holds of the lists of which all expressions are evaluated, and `R` of those of which the first
    is. -/
theorem evalExpr_induction {P : Expr → Prop} {Q R : List Expr → Prop}
    (name : ∀ ident, P (.name ident))
    (dotted : ∀ value field span name,
      (Expr.attr value field span).dottedName? = some name → P (.attr value field span))
    (undotted : ∀ value field span,
      (Expr.attr value field span).dottedName? = none → P (.attr value field span))
    (none : ∀ span, P (.none span)) (ellipsis : ∀ span, P (.ellipsis span))
    (prefixed : ∀ value isBytes isFormatted span, (isBytes || isFormatted) = true →
      P (.str value isBytes isFormatted span))
    (str : ∀ value isBytes isFormatted span, ¬(isBytes || isFormatted) = true →
      P (.str value isBytes isFormatted span))
    (list : ∀ items span, Q items → P (.list items span))
    (emptyTuple : ∀ span, P (.tuple [] span))
    (subscriptTuple : ∀ value items span span', P value → Q items → R items →
      P (.subscript value (.tuple items span) span'))
    (subscript : ∀ value index span, (∀ items span', index ≠ .tuple items span') → P value →
      P index → P (.subscript value index span))
    (other : ∀ e, isNoType e = true → P e) (allNil : Q [])
    (allCons : ∀ e es, P e → Q es → Q (e :: es)) (firstNil : R [])
    (firstCons : ∀ e es, P e → R (e :: es)) (e : Expr) : P e := by
  refine evalExpr.induct P R Q name dotted undotted none ellipsis prefixed str list emptyTuple
    subscriptTuple subscript (fun e hname hattr hnone hellipsis hstr hlist htuple hitems hindex => ?_)
    firstNil firstCons allNil allCons e
  refine other e ?_
  cases e with
  | tuple items span =>
    cases items with
    | nil => exact (htuple span rfl).elim
    | cons e es => rfl
  | name ident => exact (hname ident rfl).elim
  | attr value field span => exact (hattr value field span rfl).elim
  | subscript value index span => exact (hindex value index span rfl).elim
  | str value isBytes isFormatted span => exact (hstr value isBytes isFormatted span rfl).elim
  | none span => exact (hnone span rfl).elim
  | ellipsis span => exact (hellipsis span rfl).elim
  | list items span => exact (hlist items span rfl).elim
  | _ => rfl

/-- The meaning of a string inside an annotation, which `eval` evaluates. -/
def forwardRef (eval : String → Eval TypeRef) (text : String) : Eval TypeRef :=
  tryCatch (eval text) fun reason =>
    match reason with
    | .tooDeep => throw .tooDeep
    | _ => throw (.unresolvedForwardRef text)

/-- The type that a text without blanks at its ends denotes.  Strings in it are evaluated by
    `forward`. -/
def evalTrimmed (env : TypeEnv) (scope : Option ClassScope) (forward : String → Eval TypeRef)
    (text : String) : Eval TypeRef :=
  if isAlternateSyntax text then do
    return .raw text .alternateSyntax (← env.links scope text)
  else match Expr.parse? text with
    | none => throw .unparseable
    | some e => env.evalExpr scope text forward e

/-- The type that a text denotes, strings being followed down to `depth - 1` levels. -/
def evalText (env : TypeEnv) (scope : Option ClassScope) : (depth : Nat) → String → Eval TypeRef
  | 0, _ => throw .tooDeep
  | depth + 1, raw =>
    env.evalTrimmed scope (forwardRef (env.evalText scope depth)) (trimmed raw)

/-- The type of an annotation by the outcome of its evaluation.  A text that denotes none is kept
    with the reason. -/
def outcomeType (raw : String) : Except RawReason TypeRef → TypeRef
  | .ok type => type
  | .error reason => .raw (trimmed raw) reason []

/-- The type of an annotation.  There is no answer when a name in the text cannot be followed to an
    end. -/
def evaluate (env : TypeEnv) (scope : Option ClassScope) (raw : String) : Option TypeRef :=
  (env.evalText scope (forwardDepth + 1) raw).run.map (outcomeType raw)

end TypeEnv
end PackageDoc
