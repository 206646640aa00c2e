import PackageDoc.Syntax.ExprGrammar
import PackageDoc.Syntax.Stmt

namespace PackageDoc

/-!
# The grammar of statements

`Suite.parse` reads a whole source text.  The structure of statements is read exactly.  A statement
that cannot be read is reported and passed over to the end of its line, so that reading always
reaches the end of the text.

Loops over tokens and the mutual recursion over blocks go down a bound that is computed from the
number of tokens left; each round consumes at least one.
-/

/-- Where the reading of statements stands. -/
structure StmtState where
  cursor : Cursor
  /-- The issues found so far, last first. -/
  issues : List SyntaxIssue := []

/-- Reads a part of a statement.  After a failure the cursor stays where it was met. -/
abbrev StmtReader := EStateM SyntaxIssue StmtState

/-- The type that a `type:` comment states; `type: ignore` states none. -/
def typeComment? (comment : String) : Option String :=
  match Text.stripStart? "type:".toList comment.toList with
  | none => none
  | some rest =>
    let type := Text.trim rest
    if type.isEmpty || "ignore".toList.isPrefixOf type then none else some (String.ofList type)

/-- The comment that a comment token holds. -/
def Comment.ofToken (t : Token) : Comment :=
  let cs := t.text.toList
  ⟨String.ofList (Text.trim ((Text.stripStart? ['#'] cs).getD cs)), t.span⟩

namespace StmtReader

/-! ### Tokens -/

/-- The present place. -/
def cursor : StmtReader Cursor := do
  return (← get).cursor

/-- Go on from a place. -/
def moveTo (c : Cursor) : StmtReader Unit :=
  modify fun s => { s with cursor := c }

/-- The next token. -/
def peek : StmtReader Token := do
  return (← cursor).peek

/-- Is the next token of this kind? -/
def at? (kind : TokenKind) : StmtReader Bool := do
  return (← cursor).at? kind

/-- Pass the next token. -/
def advance : StmtReader Token := do
  let c ← cursor
  moveTo c.advance
  return c.peek

/-- Pass the next token if it has this kind. -/
def eat (kind : TokenKind) : StmtReader Bool := do
  if ← at? kind then
    let _ ← advance
    return true
  else
    return false

/-- Pass the tokens that satisfy `p`. -/
def skipWhile (p : TokenKind → Bool) : StmtReader Unit := do
  moveTo ((← cursor).skipWhile p)

/-- Fail at the next token. -/
def fail {α : Type} (error : SyntaxError) : StmtReader α := do
  throw ⟨(← peek).span, error⟩

/-- Report an issue and go on. -/
def report (issue : SyntaxIssue) : StmtReader Unit :=
  modify fun s => { s with issues := issue :: s.issues }

/-- Pass the next token, which must have this kind. -/
def expect (kind : TokenKind) : StmtReader Token := do
  if ← at? kind then advance else fail (.expected kind (← peek).kind)

/-- Pass a name. -/
def ident : StmtReader Ident := do
  let t ← expect .name
  return ⟨t.text, t.span⟩

/-- A bound on the rounds of a loop that consumes a token in each. -/
def rounds : StmtReader Nat := do
  return (← cursor).rest.length + 1

/-- Read an expression that ends at one of `stops`. -/
def exprUntil (stops : List TokenKind) : StmtReader Expr := do
  let r := Expr.readUntil stops (← cursor)
  moveTo r.2
  return r.1

/-- Read an expression, or a tuple without parentheses, that ends at one of `stops`. -/
def tupleUntil (stops : List TokenKind) : StmtReader Expr := do
  let r := Expr.readTupleUntil stops (← cursor)
  moveTo r.2
  return r.1

/-! ### Recovery -/

/-- Pass the rest of a simple statement. -/
def skipStatement : StmtReader Unit :=
  skipWhile fun k => !(k.isLineEnd || k == .semicolon || k == .comment)

/-- Pass the rest of the logical line and its end. -/
def skipLine : StmtReader Unit := do
  skipWhile fun k => !k.isLineEnd
  let _ ← eat .newline

/-! ### Imports -/

/-- Further parts of a dotted name. -/
def dottedTail : Nat → Ident → StmtReader Ident
  | 0, name => pure name
  | n + 1, name => do
    let c ← cursor
    if c.at? .dot && c.kindAfter == .name then
      let _ ← advance
      let part ← ident
      dottedTail n ⟨name.name ++ "." ++ part.name, name.span.cover part.span⟩
    else
      return name

/-- A dotted name. -/
def dottedName : StmtReader Ident := do
  let first ← ident
  dottedTail (← rounds) first

/-- `name`, or `name as other`. -/
def importedAs (name : StmtReader Ident) : StmtReader Alias := do
  let name ← name
  if ← eat (.keyword .As) then
    let other ← ident
    return ⟨name.name, some other.name, name.span.cover other.span⟩
  else
    return ⟨name.name, none, name.span⟩

/-- Imported modules, separated by commas. -/
def moduleAliases : Nat → StmtReader (List Alias)
  | 0 => pure []
  | n + 1 => do
    let first ← importedAs dottedName
    if ← eat .comma then
      let others ← moduleAliases n
      return first :: others
    else
      return [first]

/-- `import a.b as c, d` -/
def importNames : StmtReader Stmt := do
  let _ ← expect (.keyword .Import)
  return .importNames (← moduleAliases (← rounds))

/-- The number of dots before the module of a relative import. -/
def importLevel : Nat → StmtReader Nat
  | 0 => pure 0
  | n + 1 => do
    match (← peek).kind with
    | .dot =>
      let _ ← advance
      return (← importLevel n) + 1
    | .ellipsis =>
      let _ ← advance
      return (← importLevel n) + 3
    | _ => return 0

/-- Imported names, separated by commas; in parentheses the last may have a comma too. -/
def nameAliases (inParens : Bool) : Nat → StmtReader (List Alias)
  | 0 => pure []
  | n + 1 => do
    if inParens && (← at? .rparen) then
      return []
    else
      let first ← importedAs ident
      if ← eat .comma then
        let others ← nameAliases inParens n
        return first :: others
      else
        return [first]

/-- The names of an import from a module, or `*` for all of them. -/
def importedNames : StmtReader (List Alias) := do
  if ← at? .star then
    let star ← advance
    return [⟨"*", none, star.span⟩]
  else
    let inParens ← eat .lparen
    let names ← nameAliases inParens (← rounds)
    if inParens then
      let _ ← expect .rparen
    return names

/-- `from ..module import (a as b, c)` -/
def importFrom : StmtReader Stmt := do
  let _ ← expect (.keyword .From)
  let level ← importLevel (← rounds)
  let module ← if ← at? .name then some <$> dottedName else pure none
  if module.isNone && level == 0 then
    fail .expectedModuleName
  let _ ← expect (.keyword .Import)
  return .importFrom ⟨module.map Ident.name, level, ← importedNames⟩

/-! ### Simple statements -/

/-- Values assigned one after the other; all but the last are targets too. -/
def assignedValues : Nat → StmtReader (List Expr × Expr)
  | 0 => return ([], ← tupleUntil [.equals])
  | n + 1 => do
    let _ ← advance
    let value ← tupleUntil [.equals]
    if ← at? .equals then
      let rest ← assignedValues n
      return (value :: rest.1, rest.2)
    else
      return ([], value)

/-- An expression statement or an assignment of any form. -/
def exprStatement : StmtReader Stmt := do
  let first ← tupleUntil [.equals, .colon, .augAssign]
  match (← peek).kind with
  | .colon =>
    let _ ← advance
    let hint ← exprUntil [.equals]
    let value ← if ← eat .equals then some <$> tupleUntil [] else pure none
    return .assign { targets := [first], hint := some hint, value := value }
  | .equals =>
    let values ← assignedValues (← rounds)
    return .assign { targets := first :: values.1, hint := none, value := some values.2 }
  | .augAssign =>
    skipStatement
    return .other
  | _ => return .expr first

/-- One simple statement. -/
def smallStatement : StmtReader Stmt := do
  match (← peek).kind with
  | .keyword .Import => importNames
  | .keyword .From => importFrom
  | .keyword .Pass | .keyword .Break | .keyword .Continue =>
    let _ ← advance
    return .other
  | .keyword .Return | .keyword .Raise | .keyword .Del | .keyword .Global | .keyword .Nonlocal
  | .keyword .Assert | .keyword .Yield | .keyword .Await =>
    skipStatement
    return .other
  | _ => exprStatement

/-- Read a statement, or report why it cannot be read and pass over it by `recover`. -/
def orReport (recover : StmtReader Unit) (read : StmtReader Stmt) : StmtReader Stmt :=
  tryCatch read fun issue => do
    report issue
    recover
    return .other

/-- Read a statement together with its span. -/
def placed (read : StmtReader Stmt) : StmtReader (Placed Stmt) := do
  let start := (← peek).span
  let stmt ← read
  return { stmt := stmt, span := start.cover (← cursor).prev.span }

/-- The statements of a line, separated by semicolons. -/
def smallStatements : Nat → StmtReader (List (Placed Stmt))
  | 0 => pure []
  | n + 1 => do
    let first ← placed (orReport skipStatement smallStatement)
    if ← eat .semicolon then
      let kind := (← peek).kind
      if kind.isLineEnd || kind == .comment then
        return [first]
      else
        let others ← smallStatements n
        return first :: others
    else
      return [first]

end StmtReader

/-- Attach the comment at the end of a line to a statement; it may state the type of an
    assignment. -/
def Placed.withTrailing (comment : Comment) (s : Placed Stmt) : Placed Stmt :=
  let stmt := match s.stmt with
    | .assign a => .assign { a with typeComment := typeComment? comment.text }
    | stmt => stmt
  { s with stmt := stmt, trailing := some comment }

/-- Change the last element of a list. -/
def modifyLast {α : Type} (f : α → α) : List α → List α
  | [] => []
  | [a] => [f a]
  | a :: as => a :: modifyLast f as

namespace StmtReader

/-- A line of simple statements with the comment at its end. -/
def simpleLine : StmtReader (List (Placed Stmt)) := do
  let stmts ← smallStatements (← rounds)
  let stmts ←
    if ← at? .comment then
      let comment ← advance
      pure (modifyLast (Placed.withTrailing (Comment.ofToken comment)) stmts)
    else
      pure stmts
  unless ← eat .newline do
    unless ← at? .eof do
      report ⟨(← peek).span, .invalidSyntax⟩
      skipLine
  return stmts

/-! ### Headers of compound statements -/

/-- One parameter with its annotation and its default. -/
def param (kind : ParamKind) : StmtReader Param := do
  let name ← ident
  let hint ←
    if ← eat .colon then some <$> exprUntil [.comma, .rparen, .equals] else pure none
  let default ← if ← eat .equals then some <$> exprUntil [.comma, .rparen] else pure none
  return ⟨name, kind, hint, default⟩

/-- Parameters up to the closing parenthesis, behind those already in `params`.  A slash makes
    all before it positional, a star all after it keyword parameters. -/
def paramList : Nat → ParamKind → List Param → StmtReader (List Param)
  | 0, _, params => pure params
  | n + 1, kind, params => do
    let again (kind : ParamKind) (params : List Param) : StmtReader (List Param) := do
      if ← eat .comma then paramList n kind params else return params
    match (← peek).kind with
    | .rparen => return params
    | .slash =>
      let _ ← advance
      again kind (params.map fun p => { p with kind := .positionalOnly })
    | .star =>
      let _ ← advance
      if ← at? .name then
        let p ← param .varPositional
        again .keywordOnly (params ++ [p])
      else
        again .keywordOnly params
    | .doubleStar =>
      let _ ← advance
      let p ← param .varKeyword
      again kind (params ++ [p])
    | .name =>
      let p ← param kind
      again kind (params ++ [p])
    | _ => fail .invalidParameter

/-- Pass the type parameters in brackets behind the name of a definition. -/
def skipTypeParams : StmtReader Unit := do
  if ← at? .lbracket then
    moveTo (← cursor).skipBrackets

/-- A function header through its colon. -/
def functionHeader (decorators : List Expr) (isAsync : Bool) : StmtReader FunctionHeader := do
  let _ ← expect (.keyword .Def)
  let name ← ident
  skipTypeParams
  let _ ← expect .lparen
  let params ← paramList (← rounds) .positionalOrKeyword []
  let _ ← expect .rparen
  let returns ← if ← eat .arrow then some <$> exprUntil [.colon] else pure none
  let _ ← expect .colon
  let next ← peek
  let typeComment :=
    if next.kind = .comment then typeComment? (Comment.ofToken next).text else none
  return ⟨name, isAsync, decorators, params, returns, typeComment⟩

/-- One argument of a class header. -/
def classArgument : StmtReader (Expr ⊕ (Option String × Expr)) := do
  let stops := [.comma, .rparen]
  let c ← cursor
  if c.at? .name && c.kindAfter == .equals then
    let key ← ident
    let _ ← advance
    return .inr (some key.name, ← exprUntil stops)
  else if ← eat .doubleStar then
    return .inr (none, ← exprUntil stops)
  else
    let _ ← eat .star
    return .inl (← exprUntil stops)

/-- The bases and the keyword arguments of a class. -/
def classArguments : Nat → StmtReader (List Expr × List (Option String × Expr))
  | 0 => pure ([], [])
  | n + 1 => do
    if (← at? .rparen) || (← at? .eof) then
      return ([], [])
    else
      let first ← classArgument
      if ← eat .comma then
        let others ← classArguments n
        return Expr.consArgument first others
      else
        return Expr.consArgument first ([], [])

/-- A class header through its colon. -/
def classHeader (decorators : List Expr) : StmtReader ClassHeader := do
  let _ ← expect (.keyword .Class)
  let name ← ident
  skipTypeParams
  let args ←
    if ← eat .lparen then
      let args ← classArguments (← rounds)
      let _ ← expect .rparen
      pure args
    else
      pure ([], [])
  let _ ← expect .colon
  return ⟨name, decorators, args.1, args.2⟩

/-- Find the colon that ends a header.  Colons in brackets and those of a `lambda` do not.  The
    place is behind the colon, or where the line ends without one. -/
def headerEnd (depth lambdas : Nat) (prev : Token) : (rest : List Token) → Bool × Cursor
  | [] => (false, ⟨prev, []⟩)
  | t :: ts =>
    if t.kind.isLineEnd || t.kind = .comment then (false, ⟨prev, t :: ts⟩)
    else if t.kind.isOpenBracket then headerEnd (depth + 1) lambdas t ts
    else if t.kind.isCloseBracket then headerEnd (depth - 1) lambdas t ts
    else if depth = 0 && t.kind = .keyword .Lambda then headerEnd depth (lambdas + 1) t ts
    else if depth = 0 && t.kind = .colon then
      if lambdas = 0 then (true, ⟨t, ts⟩) else headerEnd depth (lambdas - 1) t ts
    else headerEnd depth lambdas t ts

/-- Pass a header through its colon. -/
def skipHeader : StmtReader Unit := do
  let c ← cursor
  let r := headerEnd 0 0 c.prev c.rest
  moveTo r.2
  unless r.1 do
    fail .expectedColon

/-- Decorators, each on lines of its own. -/
def decorators : Nat → StmtReader (List Expr)
  | 0 => pure []
  | n + 1 => do
    if ← eat .atSign then
      let first ← exprUntil []
      unless ← eat .newline do
        fail .expectedNewlineAfterDecorator
      skipWhile fun k => k == .comment || k == .blankLine
      let others ← decorators n
      return first :: others
    else
      return []

/-! ### Blocks and compound statements -/

/-- Comment lines collected over the next lines without a statement.  A blank line detaches the
    comments above it. -/
def pendingComments (pending : List Comment) (prev : Token) :
    (rest : List Token) → List Comment × Cursor
  | [] => (pending, ⟨prev, []⟩)
  | t :: ts =>
    if t.kind = .comment then pendingComments (pending ++ [Comment.ofToken t]) t ts
    else if t.kind = .blankLine then
      pendingComments (if prev.kind = .comment then pending else []) t ts
    else (pending, ⟨prev, t :: ts⟩)

/-- Give the comments above a line to its first statement. -/
def withLeading (pending : List Comment) : List (Placed Stmt) → List (Placed Stmt)
  | [] => []
  | s :: ss => { s with leading := pending } :: ss

/-- A signature may be typed by a comment on the first line of the body instead of one behind the
    header. -/
def bodyTypeComment? : List (Placed Stmt) → Option String
  | [] => none
  | s :: _ => s.leading.head?.bind fun c => typeComment? c.text

mutual

/-- Statements up to the end of the text or, in a block, to its end. -/
def statements : Nat → (pending : List Comment) → (inBlock : Bool) →
    StmtReader (List (Placed Stmt))
  | 0, _, _ => pure []
  | n + 1, pending, inBlock => do
    let t ← peek
    match t.kind with
    | .eof => return []
    | .dedent =>
      let _ ← advance
      if inBlock then return [] else statements n [] inBlock
    | .comment =>
      let _ ← advance
      statements n (pending ++ [Comment.ofToken t]) inBlock
    | .blankLine =>
      let afterComment := (← cursor).prev.kind == .comment
      let _ ← advance
      statements n (if afterComment then pending else []) inBlock
    | .newline =>
      let _ ← advance
      statements n pending inBlock
    | .indent =>
      report ⟨t.span, .unexpectedIndent⟩
      let _ ← advance
      let nested ← statements n [] true
      let others ← statements n pending inBlock
      return nested ++ others
    | _ =>
      let line ← statementLine n
      let others ← statements n [] inBlock
      return withLeading pending line ++ others

/-- A line of simple statements, or a compound statement. -/
def statementLine : Nat → StmtReader (List (Placed Stmt))
  | 0 => pure []
  | n + 1 => do
    let c ← cursor
    if c.at? .atSign || c.at? (.keyword .Def) || c.at? (.keyword .Class) ||
        c.at? (.keyword .Async) || c.at? (.keyword .If) || c.kind.startsCompound ||
        (c.at? .name && c.lineEndsWithColon) then
      return [← placed (orReport skipLine (compound n))]
    else
      simpleLine

/-- A compound statement. -/
def compound : Nat → StmtReader Stmt
  | 0 => pure .other
  | n + 1 => do
    let c ← cursor
    match c.kind with
    | .atSign => decorated n
    | .keyword .Def => function n [] false
    | .keyword .Class => classDef n []
    | .keyword .If => conditional n
    | .keyword .Async =>
      let _ ← advance
      if c.kindAfter == .keyword .Def then function n [] true
      else return .block (← clauses n)
    | _ => return .block (← clauses n)

/-- The block behind a colon: indented lines, or simple statements on the same line. -/
def block : Nat → StmtReader (List (Placed Stmt))
  | 0 => pure []
  | n + 1 => do
    let _ ← eat .comment
    if ← eat .newline then
      let c ← cursor
      let r := pendingComments [] c.prev c.rest
      moveTo r.2
      if ← eat .indent then statements n r.1 true else fail .expectedBlock
    else
      simpleLine

/-- Decorators and the definition below them. -/
def decorated : Nat → StmtReader Stmt
  | 0 => pure .other
  | n + 1 => do
    let decorators ← decorators (← rounds)
    let c ← cursor
    match c.kind with
    | .keyword .Def => function n decorators false
    | .keyword .Class => classDef n decorators
    | .keyword .Async =>
      if c.kindAfter == .keyword .Def then
        let _ ← advance
        function n decorators true
      else
        fail .expectedDefinitionAfterDecorator
    | _ => fail .expectedDefinitionAfterDecorator

/-- `def name(params) -> returns: body` -/
def function : Nat → List Expr → Bool → StmtReader Stmt
  | 0, _, _ => pure .other
  | n + 1, decorators, isAsync => do
    let header ← functionHeader decorators isAsync
    let body ← block n
    let typeComment := header.typeComment <|> bodyTypeComment? body
    return .functionDef { header with typeComment := typeComment } body

/-- `class Name(bases): body` -/
def classDef : Nat → List Expr → StmtReader Stmt
  | 0, _ => pure .other
  | n + 1, decorators => do
    let header ← classHeader decorators
    let body ← block n
    return .classDef header body

/-- `if` or `elif` with the clauses that continue it. -/
def conditional : Nat → StmtReader Stmt
  | 0 => pure .other
  | n + 1 => do
    let _ ← advance
    let test ← exprUntil [.colon]
    let _ ← expect .colon
    let body ← block n
    if ← at? (.keyword .Elif) then
      let other ← placed (conditional n)
      return .cond test body [other]
    else if ← eat (.keyword .Else) then
      let _ ← expect .colon
      let orelse ← block n
      return .cond test body orelse
    else
      return .cond test body []

/-- The clauses of any other compound statement. -/
def clauses : Nat → StmtReader (List (List (Placed Stmt)))
  | 0 => pure []
  | n + 1 => do
    skipHeader
    let body ← block n
    match (← peek).kind with
    | .keyword .Else | .keyword .Elif | .keyword .Except | .keyword .Finally =>
      let others ← clauses n
      return body :: others
    | _ => return [body]

end

end StmtReader

/-- Read a source text. -/
def Suite.parse (source : String) : Suite :=
  let (tokens, issues) := tokenize source
  let stop := Text.byteLength source.toList
  let start : StmtState := { cursor := Cursor.start tokens stop, issues := issues.reverse }
  let span : Span := ⟨0, stop⟩
  match (StmtReader.statements (8 * (tokens.length + 1)) [] false).run start with
  | .ok body s => ⟨body, span, s.issues.reverse⟩
  | .error issue s => ⟨[], span, (issue :: s.issues).reverse⟩

end PackageDoc
