import PackageDoc.Syntax.Cursor
import PackageDoc.Syntax.Expr
import PackageDoc.Syntax.StringLiteral
import PackageDoc.Token.Lexer

namespace PackageDoc

/-!
# The grammar of expressions

* `Expr.read` reads one expression of the modelled language;
* `Expr.readUntil` reads an expression that ends at a given token, whatever its shape;
* `Expr.parse?` reads a text that is one modelled expression.

The mutual recursion below goes down a bound on its depth.  A call consumes a token at least every
fifth level, so the bound `Expr.depthBound` is never reached.
-/

/-- Reads a part of an expression, or fails on what is not modelled. -/
abbrev ExprReader := StateT Cursor Option

namespace ExprReader

/-- The next token. -/
def peek : ExprReader Token := do
  return (← get).peek

/-- Is the next token of this kind? -/
def at? (kind : TokenKind) : ExprReader Bool := do
  return (← get).at? kind

/-- Pass the next token. -/
def advance : ExprReader Token := do
  let c ← get
  set c.advance
  return c.peek

/-- Pass the next token if it has this kind. -/
def eat (kind : TokenKind) : ExprReader Bool := do
  if ← at? kind then
    let _ ← advance
    return true
  else
    return false

/-- Pass the next token, which must have this kind. -/
def expect (kind : TokenKind) : ExprReader Token := do
  if ← at? kind then advance else failure

/-- Pass a name. -/
def ident : ExprReader Ident := do
  let t ← expect .name
  return ⟨t.text, t.span⟩

end ExprReader

open ExprReader

namespace Expr

/-- The literals at the beginning of a token list, joined to one behind `value`. -/
def joinLiterals (value : StringValue) (span : Span) (prev : Token) :
    List Token → StringValue × Span × Cursor
  | [] => (value, span, ⟨prev, []⟩)
  | t :: ts =>
    if t.kind = .string then
      let next := decodeLiteral t.text
      joinLiterals ⟨value.value ++ next.value, value.isBytes || next.isBytes,
        value.isFormatted || next.isFormatted⟩ (span.cover t.span) t ts
    else (value, span, ⟨prev, t :: ts⟩)

/-- One or more adjacent string literals. -/
def literals : ExprReader Expr := do
  let c ← get
  let (value, span, c') := joinLiterals ⟨"", false, false⟩ c.peek.span c.prev c.rest
  set c'
  return str value.value value.isBytes value.isFormatted span

/-- Does a call or class argument with a keyword come next? -/
def atKeyword : ExprReader Bool := do
  let c ← get
  return c.at? .name && c.kindAfter == .equals

/-- Add an argument in front of others. -/
def consArgument (arg : Expr ⊕ (Option String × Expr))
    (args : List Expr × List (Option String × Expr)) :
    List Expr × List (Option String × Expr) :=
  match arg with
  | .inl e => (e :: args.1, args.2)
  | .inr k => (args.1, k :: args.2)

mutual

/-- Operands joined by `|`. -/
def read : Nat → ExprReader Expr
  | 0 => failure
  | n + 1 => do
    let left ← operand n
    unionTail n left

/-- Further operands of a union that begins with `left`. -/
def unionTail : Nat → Expr → ExprReader Expr
  | 0, _ => failure
  | n + 1, left => do
    if ← eat .pipe then
      let right ← operand n
      unionTail n (union left right (left.span.cover right.span))
    else
      return left

/-- A negative number, or an atom with its trailers. -/
def operand : Nat → ExprReader Expr
  | 0 => failure
  | n + 1 => do
    let c ← get
    if c.at? .minus && c.kindAfter == .number then
      let minus ← advance
      let number ← advance
      return num ("-" ++ number.text) (minus.span.cover number.span)
    else
      let e ← atom n
      trailers n e

/-- The attributes, subscripts and calls behind `e`. -/
def trailers : Nat → Expr → ExprReader Expr
  | 0, _ => failure
  | n + 1, e => do
    match (← peek).kind with
    | .dot =>
      let _ ← advance
      let field ← ident
      trailers n (attr e field (e.span.cover field.span))
    | .lbracket =>
      let _ ← advance
      let index ← subscripts n
      let close ← expect .rbracket
      trailers n (subscript e index (e.span.cover close.span))
    | .lparen =>
      let _ ← advance
      let args ← arguments n
      let close ← expect .rparen
      trailers n (call e args.1 args.2 (e.span.cover close.span))
    | _ => return e

/-- A literal, a name or a display in brackets. -/
def atom : Nat → ExprReader Expr
  | 0 => failure
  | n + 1 => do
    let t ← peek
    match t.kind with
    | .name =>
      let _ ← advance
      return name ⟨t.text, t.span⟩
    | .keyword .None =>
      let _ ← advance
      return none t.span
    | .keyword .True =>
      let _ ← advance
      return bool true t.span
    | .keyword .False =>
      let _ ← advance
      return bool false t.span
    | .number =>
      let _ ← advance
      return num t.text t.span
    | .ellipsis =>
      let _ ← advance
      return ellipsis t.span
    | .string => literals
    | .lparen =>
      let _ ← advance
      parenthesized n t
    | .lbracket =>
      let _ ← advance
      let items ← elements n .rbracket
      let close ← expect .rbracket
      return list items (t.span.cover close.span)
    | .lbrace =>
      let _ ← advance
      let entries ← dictEntries n
      let close ← expect .rbrace
      return dict entries (t.span.cover close.span)
    | _ => failure

/-- What follows the parenthesis `openParen`: a tuple, or an expression on its own. -/
def parenthesized : Nat → Token → ExprReader Expr
  | 0, _ => failure
  | n + 1, openParen => do
    if ← at? .rparen then
      let close ← advance
      return tuple [] (openParen.span.cover close.span)
    else
      let first ← read n
      if ← at? .comma then
        let others ← moreElements n .rparen
        let close ← expect .rparen
        return tuple (first :: others) (openParen.span.cover close.span)
      else
        let _ ← expect .rparen
        return first

/-- Expressions separated by commas, up to the token `close`. -/
def elements : Nat → TokenKind → ExprReader (List Expr)
  | 0, _ => failure
  | n + 1, close => do
    if ← at? close then
      return []
    else
      let first ← read n
      let others ← moreElements n close
      return first :: others

/-- Expressions after a comma each; a last comma may stand alone before `close`. -/
def moreElements : Nat → TokenKind → ExprReader (List Expr)
  | 0, _ => failure
  | n + 1, close => do
    if ← eat .comma then
      if ← at? close then
        return []
      else
        let first ← read n
        let others ← moreElements n close
        return first :: others
    else
      return []

/-- The inside of a subscript; several items form a tuple. -/
def subscripts : Nat → ExprReader Expr
  | 0 => failure
  | n + 1 => do
    let first ← read n
    if ← at? .comma then
      let others ← moreElements n .rbracket
      return tuple (first :: others) (others.foldl (fun s e => s.cover e.span) first.span)
    else
      return first

/-- One entry of a dictionary display. -/
def dictEntry : Nat → ExprReader (Option Expr × Expr)
  | 0 => failure
  | n + 1 => do
    if ← eat .doubleStar then
      let value ← read n
      return (Option.none, value)
    else
      let key ← read n
      let _ ← expect .colon
      let value ← read n
      return (some key, value)

/-- The entries of a dictionary display. -/
def dictEntries : Nat → ExprReader (List (Option Expr × Expr))
  | 0 => failure
  | n + 1 => do
    if ← at? .rbrace then
      return []
    else
      let entry ← dictEntry n
      if ← eat .comma then
        let others ← dictEntries n
        return entry :: others
      else
        return [entry]

/-- One argument of a call. -/
def argument : Nat → ExprReader (Expr ⊕ (Option String × Expr))
  | 0 => failure
  | n + 1 => do
    if ← eat .doubleStar then
      let value ← read n
      return .inr (Option.none, value)
    else if ← atKeyword then
      let key ← ident
      let _ ← advance
      let value ← read n
      return .inr (some key.name, value)
    else
      let _ ← eat .star
      let value ← read n
      return .inl value

/-- The arguments of a call, those by position and those by keyword. -/
def arguments : Nat → ExprReader (List Expr × List (Option String × Expr))
  | 0 => failure
  | n + 1 => do
    if ← at? .rparen then
      return ([], [])
    else
      let first ← argument n
      if ← eat .comma then
        let others ← arguments n
        return consArgument first others
      else
        return consArgument first ([], [])

end

/-- A bound on the depth of reading one expression at a place. -/
def depthBound (c : Cursor) : Nat :=
  8 * (c.rest.length + 1)

/-! ### Expressions of any shape -/

/-- Does a token of this kind end an expression that `stops` end too? -/
def endsAt (stops : List TokenKind) (kind : TokenKind) : Bool :=
  stops.contains kind || kind.isLineEnd || kind == .comment || kind == .semicolon

/-- Pass an expression of unknown shape.  A token of `stops` ends it only outside brackets, and a
    colon that belongs to a `lambda` does not end it.  The number is the offset where it ends. -/
def skipShape (stops : List TokenKind) (depth lambdas stop : Nat) (prev : Token) :
    (rest : List Token) → Nat × Cursor
  | [] => (stop, ⟨prev, []⟩)
  | t :: ts =>
    if t.kind.isLineEnd then (stop, ⟨prev, t :: ts⟩)
    else if depth = 0 then
      if t.kind = .colon && 0 < lambdas then
        skipShape stops 0 (lambdas - 1) t.span.stop t ts
      else if t.kind.isCloseBracket || endsAt stops t.kind then (stop, ⟨prev, t :: ts⟩)
      else
        skipShape stops (if t.kind.isOpenBracket then 1 else 0)
          (if t.kind = .keyword .Lambda then lambdas + 1 else lambdas) t.span.stop t ts
    else if t.kind.isOpenBracket then skipShape stops (depth + 1) lambdas t.span.stop t ts
    else if t.kind.isCloseBracket then skipShape stops (depth - 1) lambdas t.span.stop t ts
    else skipShape stops depth lambdas t.span.stop t ts

/-- Pass an expression of unknown shape. -/
def readUnmodelled (stops : List TokenKind) (c : Cursor) : Expr × Cursor :=
  let start := c.peek.span.start
  let r := skipShape stops 0 0 start c.prev c.rest
  (unmodelled ⟨start, r.1⟩, r.2)

/-- Read an expression that ends at one of `stops` or with the statement.  It is unmodelled when
    the modelled language does not reach that far. -/
def readUntil (stops : List TokenKind) (c : Cursor) : Expr × Cursor :=
  match (read (depthBound c)).run c with
  | some (e, c') => if endsAt stops c'.kind then (e, c') else readUnmodelled stops c
  | Option.none => readUnmodelled stops c

/-- Expressions after a comma each, up to one of `stops`, in at most `n` steps. -/
def readItems (stops : List TokenKind) : (n : Nat) → Cursor → List Expr × Cursor
  | 0, c => ([], c)
  | n + 1, c =>
    if c.at? .comma then
      let c := c.advance
      if endsAt stops c.kind then ([], c)
      else
        let item := readUntil (.comma :: stops) c
        let others := readItems stops n item.2
        (item.1 :: others.1, others.2)
    else ([], c)

/-- Like `readUntil`, but several expressions separated by commas form a tuple. -/
def readTupleUntil (stops : List TokenKind) (c : Cursor) : Expr × Cursor :=
  let first := readUntil (.comma :: stops) c
  if first.2.at? .comma then
    let others := readItems stops first.2.rest.length first.2
    (tuple (first.1 :: others.1) (others.1.foldl (fun s e => s.cover e.span) first.1.span),
      others.2)
  else first

/-- The expression that a text is, if it is one expression of the modelled language. -/
def parse? (source : String) : Option Expr :=
  let (tokens, issues) := tokenize source
  let c := Cursor.start tokens (Text.byteLength source.toList)
  if issues.isEmpty then
    match (read (depthBound c)).run c with
    | some (e, c') =>
      let c' := if c'.at? .newline then c'.advance else c'
      let c' := c'.skipWhile fun k => k == .dedent
      if c'.at? .eof then some e else Option.none
    | Option.none => Option.none
  else Option.none

end Expr
end PackageDoc
