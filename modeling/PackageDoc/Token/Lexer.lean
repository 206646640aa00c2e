import PackageDoc.Text.Space
import PackageDoc.Syntax.Error

namespace PackageDoc

/-!
# From characters to tokens

Tokenization walks over the characters with the state `Lexer`:

* at the start of a physical line outside brackets, `Lexer.lineStart` measures the indentation and
  emits the layout tokens;
* anywhere else, `Lexer.token` reads one token or skips what is none.

Every step consumes a character or leaves the start of a line, which is what bounds the walk in
`tokenize`.  Nothing stops it: what cannot be read is reported and passed over.
-/

/-- The columns between two tab stops. -/
def tabSize : Nat := 8

/-- The start of a name.  Every character beyond ASCII may be part of one. -/
def isNameStart (c : Char) : Bool :=
  c.isAlpha || c == '_' || 0x80 ≤ c.toNat

/-- A later character of a name. -/
def isNamePart (c : Char) : Bool :=
  isNameStart c || c.isDigit

/-- The characters that end a line. -/
def isLineBreak (c : Char) : Bool :=
  c == '\n' || c == '\r'

/-- The blanks between the tokens of a line. -/
def isGap (c : Char) : Bool :=
  c == ' ' || c == '\t' || c == '\x0c'

/-- Operators and delimiters.  Of two that fit, the first is meant, so longer ones come first. -/
def operators : List (List Char × TokenKind) :=
  [("**=".toList, .augAssign), ("//=".toList, .augAssign), (">>=".toList, .augAssign),
   ("<<=".toList, .augAssign), ("...".toList, .ellipsis), ("->".toList, .arrow),
   (":=".toList, .operator), ("**".toList, .doubleStar), ("//".toList, .operator),
   ("<<".toList, .operator), (">>".toList, .operator), ("==".toList, .operator),
   ("!=".toList, .operator), ("<=".toList, .operator), (">=".toList, .operator),
   ("+=".toList, .augAssign), ("-=".toList, .augAssign), ("*=".toList, .augAssign),
   ("/=".toList, .augAssign), ("%=".toList, .augAssign), ("&=".toList, .augAssign),
   ("|=".toList, .augAssign), ("^=".toList, .augAssign), ("@=".toList, .augAssign),
   ("(".toList, .lparen), (")".toList, .rparen), ("[".toList, .lbracket),
   ("]".toList, .rbracket), ("\x7b".toList, .lbrace), ("\x7d".toList, .rbrace),
   (":".toList, .colon), (",".toList, .comma), (";".toList, .semicolon), (".".toList, .dot),
   ("@".toList, .atSign), ("=".toList, .equals), ("|".toList, .pipe), ("*".toList, .star),
   ("/".toList, .slash), ("-".toList, .minus), ("+".toList, .operator), ("%".toList, .operator),
   ("&".toList, .operator), ("^".toList, .operator), ("~".toList, .operator),
   ("<".toList, .operator), (">".toList, .operator)]

/-- The letters, in any case, that may stand before the opening quote of a string. -/
def isStringLead (word : List Char) : Bool :=
  ["r", "b", "f", "u", "rb", "br", "fr", "rf"].contains (String.ofList (word.map Char.toLower))

/-! ### Lexemes

Each of these functions cuts a text after the lexeme at its beginning. -/

/-- A line terminator, which is `\n`, `\r\n` or `\r`; empty when there is none. -/
def spanLineBreak : List Char → List Char × List Char
  | '\r' :: '\n' :: cs => (['\r', '\n'], cs)
  | '\r' :: cs => (['\r'], cs)
  | '\n' :: cs => (['\n'], cs)
  | cs => ([], cs)

/-- The rest of the line, without its terminator. -/
def spanLine (cs : List Char) : List Char × List Char :=
  cs.span fun c => !isLineBreak c

/-- The rest of a number after the character `prev`.  A sign belongs to it after the `e` of an
    exponent, which a hexadecimal number has none of. -/
def spanNumber (hex : Bool) (prev : Char) : List Char → List Char × List Char
  | [] => ([], [])
  | c :: cs =>
    let exponentSign := !hex && (c == '+' || c == '-') && (prev == 'e' || prev == 'E')
    if c.isAlphanum || c == '_' || c == '.' || exponentSign then
      let r := spanNumber hex c cs
      (c :: r.1, r.2)
    else
      ([], c :: cs)

/-- The blanks at the start of a line, and the column that they lead to from `column`. -/
def spanIndent (column : Nat) : List Char → Nat × List Char × List Char
  | [] => (column, [], [])
  | c :: cs =>
    let next :=
      if c = ' ' then some (column + 1)
      else if c = '\t' then some ((column / tabSize + 1) * tabSize)
      else if c = '\x0c' then some 0
      else none
    match next with
    | none => (column, [], c :: cs)
    | some column' =>
      let r := spanIndent column' cs
      (r.1, c :: r.2.1, r.2.2)

/-- The body of a string literal cut after its closing quote. -/
structure StringBody where
  text : List Char
  rest : List Char
  /-- Was the closing quote found? -/
  closed : Bool

/-- Put characters in front of a body that was read behind them. -/
def StringBody.after (cs : List Char) (body : StringBody) : StringBody :=
  { body with text := cs ++ body.text }

/-- Read a string literal from behind its opening quote.  A backslash protects the character
    after it, a line terminator included; only a tripled quote lets the literal run over lines. -/
def spanString (quote : Char) (triple : Bool) : List Char → StringBody
  | [] => ⟨[], [], false⟩
  | ['\\'] => ⟨['\\'], [], false⟩
  | '\\' :: '\r' :: '\n' :: cs => (spanString quote triple cs).after ['\\', '\r', '\n']
  | '\\' :: c :: cs => (spanString quote triple cs).after ['\\', c]
  | c :: cs =>
    if isLineBreak c && !triple then ⟨[], c :: cs, false⟩
    else if c = quote then
      if !triple then ⟨[c], cs, true⟩
      else match cs with
        | c₁ :: c₂ :: cs' =>
          if c₁ = quote && c₂ = quote then ⟨[c, c₁, c₂], cs', true⟩
          else (spanString quote triple (c₁ :: c₂ :: cs')).after [c]
        | cs => (spanString quote triple cs).after [c]
    else (spanString quote triple cs).after [c]

/-! ### The walk -/

/-- Where a tokenization stands. -/
structure Lexer where
  /-- The characters still to be read. -/
  rest : List Char
  /-- The byte offset of `rest`. -/
  offset : Nat := 0
  /-- The columns of the enclosing blocks, innermost first; the last is 0. -/
  indents : List Nat := [0]
  /-- How many brackets are open. -/
  depth : Nat := 0
  /-- Is the next character the first of a physical line? -/
  atLineStart : Bool := true
  /-- The tokens read so far, last first. -/
  tokens : List Token := []
  /-- The issues found so far, last first. -/
  issues : List SyntaxIssue := []

namespace Lexer

/-- Pass over `text`, with `rest` behind it. -/
def skip (s : Lexer) (text rest : List Char) : Lexer :=
  { s with rest := rest, offset := s.offset + Text.byteLength text }

/-- Pass over `text` as a token. -/
def emit (s : Lexer) (kind : TokenKind) (text rest : List Char) : Lexer :=
  let next := s.skip text rest
  { next with tokens := ⟨kind, ⟨s.offset, next.offset⟩, String.ofList text⟩ :: s.tokens }

/-- A token of no characters. -/
def mark (s : Lexer) (kind : TokenKind) : Lexer :=
  s.emit kind [] s.rest

/-- Report an error about the next `text`. -/
def report (s : Lexer) (error : SyntaxError) (text : List Char) : Lexer :=
  let issue := ⟨⟨s.offset, s.offset + Text.byteLength text⟩, error⟩
  { s with issues := issue :: s.issues }

/-- Pass over a comment. -/
def comment (s : Lexer) : Lexer :=
  let r := spanLine s.rest
  s.emit .comment r.1 r.2

/-- End a line that holds no statement. -/
def blankLine (s : Lexer) : Lexer :=
  let r := spanLineBreak s.rest
  s.emit .blankLine r.1 r.2

/-- Close the blocks that are indented further than `column`. -/
def closeBlocks (column : Nat) : List Nat → Lexer → Lexer
  | [], s => { s with indents := [] }
  | c :: cs, s =>
    if column < c then closeBlocks column cs ((s.mark .dedent))
    else { s with indents := c :: cs }

/-- Make `column` the indentation of the line that begins here. -/
def indentTo (s : Lexer) (column : Nat) : Lexer :=
  let current := s.indents.headD 0
  if current < column then
    { s.mark .indent with indents := column :: s.indents }
  else if column < current then
    let s := closeBlocks column s.indents s
    if s.indents.headD 0 = column then s
    else
      let s := s.report .unindentMismatch []
      { s with indents := column :: s.indents }
  else s

/-- The step at the start of a physical line.  Lines without a statement leave the layout alone;
    `none` stands for the end of the text. -/
def lineStart (s : Lexer) : Option Lexer :=
  let indent := spanIndent 0 s.rest
  let s := s.skip indent.2.1 indent.2.2
  match s.rest with
  | [] => none
  | c :: cs =>
    if isLineBreak c then some s.blankLine
    else if c = '#' then some s.comment.blankLine
    else
      let broken := spanLineBreak cs
      if c = '\\' && !broken.1.isEmpty then some (s.skip (c :: broken.1) broken.2)
      else some (Lexer.indentTo { s with atLineStart := false } indent.1)

/-- Read a string literal whose opening quote follows the letters `lead`. -/
def stringLiteral (s : Lexer) (lead : List Char) (quote : Char) (cs : List Char) : Lexer :=
  let triple := [quote, quote].isPrefixOf cs
  let opening := if triple then [quote, quote, quote] else [quote]
  let body := spanString quote triple (if triple then cs.drop 2 else cs)
  let text := lead ++ opening ++ body.text
  let s :=
    if body.closed then s
    else if triple then s.report .unterminatedTripleString text
    else s.report .unterminatedString text
  s.emit .string text body.rest

/-- Read a name, a keyword or a string literal with letters before its quote. -/
def word (s : Lexer) : Lexer :=
  let r := s.rest.span isNamePart
  let name :=
    match Keyword.ofText? (String.ofList r.1) with
    | some keyword => s.emit (.keyword keyword) r.1 r.2
    | none => s.emit .name r.1 r.2
  match r.2 with
  | [] => name
  | c :: cs =>
    if (c = '"' || c = '\'') && isStringLead r.1 then s.stringLiteral r.1 c cs else name

/-- Read a number that begins with `c`. -/
def number (s : Lexer) (c : Char) (cs : List Char) : Lexer :=
  let hex := c == '0' && (cs.head? == some 'x' || cs.head? == some 'X')
  let r := spanNumber hex c cs
  s.emit .number (c :: r.1) r.2

/-- Read an operator or a delimiter, keeping count of the open brackets. -/
def punctuation (s : Lexer) (c : Char) (cs : List Char) : Lexer :=
  match operators.find? fun op => op.1.isPrefixOf (c :: cs) with
  | none => (s.report (.invalidCharacter c) [c]).emit .error [c] cs
  | some (text, kind) =>
    let rest := (c :: cs).drop text.length
    if kind.isOpenBracket then
      { s with depth := s.depth + 1 }.emit kind text rest
    else if kind.isCloseBracket then
      if s.depth = 0 then (s.report .unmatchedBracket text).emit kind text rest
      else { s with depth := s.depth - 1 }.emit kind text rest
    else s.emit kind text rest

/-- The step inside a line.  `none` stands for the end of the text. -/
def token (s : Lexer) : Option Lexer :=
  let gap := s.rest.span isGap
  let s := s.skip gap.1 gap.2
  match s.rest with
  | [] => none
  | c :: cs =>
    if isLineBreak c then
      let r := spanLineBreak (c :: cs)
      if s.depth = 0 then some { s.emit .newline r.1 r.2 with atLineStart := true }
      else some (s.skip r.1 r.2)
    else if c = '#' then
      if s.depth = 0 then some s.comment
      else
        let r := spanLine (c :: cs)
        some (s.skip r.1 r.2)
    else if c = '\\' then
      let r := spanLineBreak cs
      let s := if r.1.isEmpty then s.report .strayBackslash [c] else s
      some (s.skip (c :: r.1) r.2)
    else if c = '"' || c = '\'' then some (s.stringLiteral [] c cs)
    else if c.isDigit || (c = '.' && cs.head?.any Char.isDigit) then some (s.number c cs)
    else if isNameStart c then some s.word
    else some (s.punctuation c cs)

/-- One step of the walk. -/
def step (s : Lexer) : Option Lexer :=
  if s.atLineStart && s.depth == 0 then s.lineStart else s.token

/-- At most `n` steps. -/
def run : (n : Nat) → Lexer → Lexer
  | 0, s => s
  | n + 1, s => match s.step with
    | none => s
    | some s' => run n s'

/-- Close the brackets, the line and the blocks that the text leaves open. -/
def finish (s : Lexer) (stop : Nat) : Lexer :=
  let s := { s with rest := [], offset := stop }
  let s := if 0 < s.depth then s.report .openBracketAtEnd [] else s
  let s :=
    match s.tokens with
    | [] => s
    | last :: _ => if last.kind.closesLine then s else s.mark .newline
  let s := (s.indents.drop 1).foldl (fun s _ => s.mark .dedent) s
  { s with indents := [0] }.mark .eof

end Lexer

/-- The tokens of a text, the last being the end of the text, and what is wrong with it.  A byte
    order mark at the beginning is passed over. -/
def tokenize (source : String) : List Token × List SyntaxIssue :=
  let cs := source.toList
  let start : Lexer := { rest := cs }
  let start := match cs with
    | c :: rest => if c.toNat = 0xfeff then start.skip [c] rest else start
    | [] => start
  let s := (Lexer.run (2 * cs.length + 2) start).finish (Text.byteLength cs)
  (s.tokens.reverse, s.issues.reverse)

end PackageDoc
