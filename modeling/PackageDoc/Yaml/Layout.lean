import PackageDoc.Yaml.Tag

namespace PackageDoc.Yaml

/-!
# From characters to tokens

Tokens are found on demand, because what a node is becomes clear only later: a scalar is a key if a
colon follows it on the same line.  `Layout` keeps the tokens that were found and not yet taken,
the columns of the open blocks, and the nodes that may still turn out to be keys.

Some tokens have no characters of their own: blocks begin and end where the indentation says so, and a
key may be recognised only at its colon.

* `Layout.peek` — the next token;
* `Layout.take` — go on behind it.

A fault is given by its line.
-/

/-! ### Tokens -/

/-- A piece of a text. -/
inductive Token where
  | textEnd
  | directive (value : Directive)
  | documentStart
  | documentEnd
  /-- The beginning of a sequence of entries on one column. -/
  | sequenceBlock
  /-- The beginning of a mapping whose keys stand on one column. -/
  | mappingBlock
  | blockEnd
  | sequenceOpen
  | sequenceClose
  | mappingOpen
  | mappingClose
  /-- The dash of an entry. -/
  | entry
  | comma
  | key
  | value
  | reference (name : String)
  | anchor (name : String)
  | tag (text : TagText)
  | scalar (text : List Char) (isPlain : Bool)
  deriving Repr, DecidableEq, Inhabited

/-- A token and the line on which it begins. -/
structure TokenAt where
  token : Token
  line : Nat
  deriving Repr, DecidableEq, Inhabited

/-! ### Layout -/

/-- A node that is a key if a colon follows. -/
structure PossibleKey where
  /-- Is it a fault if none follows? -/
  required : Bool
  /-- The number of its first token. -/
  number : Nat
  mark : Mark
  deriving Repr, Inhabited

namespace PossibleKey

/-- A key ends on the line on which it begins, and is not longer than 1024 bytes. -/
def isStale (k : PossibleKey) (m : Mark) : Bool :=
  k.mark.line < m.line || k.mark.index + 1024 < m.index

end PossibleKey

/-- The state of the search for tokens. -/
structure Layout where
  cursor : Cursor
  /-- The tokens that were found and not yet taken. -/
  tokens : List TokenAt := []
  /-- The number of tokens that were taken. -/
  taken : Nat := 0
  /-- The columns of the open blocks, innermost first. -/
  columns : List Nat := []
  /-- May a key begin here? -/
  keyAllowed : Bool := true
  /-- The possible key of the innermost flow collection, or of the blocks around all of them. -/
  key : Option PossibleKey := none
  /-- Those outside of it, innermost first: one for each open flow collection. -/
  outerKeys : List (Option PossibleKey) := []
  deriving Repr, Inhabited

namespace Layout

/-- The state at the beginning of a text. -/
def ofText (text : List Char) (isCut : Bool) : Layout :=
  { cursor := ⟨{}, text, isCut⟩ }

/-- The line that has been reached. -/
def line (l : Layout) : Nat :=
  l.cursor.mark.line

/-- The column that has been reached. -/
def column (l : Layout) : Nat :=
  l.cursor.mark.column

/-- The text that is left. -/
def rest (l : Layout) : List Char :=
  l.cursor.rest

/-- Is a flow collection open? -/
def inFlow (l : Layout) : Bool :=
  !l.outerKeys.isEmpty

/-- A fault at the place that has been reached. -/
def fail {α : Type} (l : Layout) : Except Nat α :=
  .error l.cursor.faultLine

/-- Text that cannot be read is a fault when it comes into sight. -/
def inSight (l : Layout) : Except Nat Layout :=
  if l.cursor.seesCut then l.fail else .ok l

/-- The result of reading characters here. -/
def scan {α : Type} (l : Layout) (r : Scan (α × List Char)) : Except Nat (α × List Char) :=
  r.mapError fun rest => (l.cursor.moveTo rest).faultLine

/-- Add a token that begins here. -/
def push (l : Layout) (t : Token) : Layout :=
  { l with tokens := l.tokens ++ [⟨t, l.line⟩] }

/-- Add a token that begins here and ends where only `rest` is left. -/
def pushTo (l : Layout) (t : Token) (rest : List Char) : Layout :=
  { l.push t with cursor := l.cursor.moveTo rest }

/-- Add a token of some characters. -/
def pushChars (l : Layout) (t : Token) (n : Nat) : Layout :=
  l.pushTo t (l.rest.drop n)

/-- Say whether a key may begin here. -/
def allowKey (l : Layout) (allowed : Bool) : Layout :=
  { l with keyAllowed := allowed }

/-! ### Blanks and comments -/

/-- Where the search for the next token is on a line. -/
inductive GapPlace where
  | lineStart
  | withinLine
  | comment
  deriving Repr, DecidableEq, Inhabited

/-- What follows blanks, line breaks, comments, and byte order marks at the beginning of lines. -/
def skipGaps : (place : GapPlace) → List Char → List Char
  | _, [] => []
  | place, c :: cs =>
    if isBreak c then skipGaps .lineStart cs
    else if place == .comment || c == '#' then skipGaps .comment cs
    else if isBlank c || (place == .lineStart && c == byteOrderMark) then skipGaps .withinLine cs
    else c :: cs

/-- Go on to the next token.  On a new line of a block a key may begin. -/
def toNextToken (l : Layout) : Layout :=
  let place : GapPlace := if l.column = 0 then .lineStart else .withinLine
  let cursor := l.cursor.moveTo (skipGaps place l.rest)
  let newLine := l.line < cursor.mark.line
  { l with cursor := cursor, keyAllowed := l.keyAllowed || (newLine && !l.inFlow) }

/-! ### Possible keys -/

/-- Forget the nodes that cannot be keys any more. -/
def dropStale (l : Layout) : Except Nat Layout :=
  let m := l.cursor.mark
  let keys := l.key :: l.outerKeys
  if keys.any fun k => k.any fun k => k.isStale m && k.required then l.fail
  else
    let fresh (k : Option PossibleKey) : Option PossibleKey := k.filter fun k => !k.isStale m
    .ok { l with key := fresh l.key, outerKeys := l.outerKeys.map fresh }

/-- The last node is not a key. -/
def dropKey (l : Layout) : Except Nat Layout :=
  if l.key.any fun k => k.required then l.fail else .ok { l with key := none }

/-- What begins here may be a key.  It has to be one where all keys of the block begin. -/
def saveKey (l : Layout) : Except Nat Layout :=
  if l.keyAllowed then do
    let required := !l.inFlow && l.columns.head? == some l.column
    let l ← l.dropKey
    .ok { l with key := some ⟨required, l.taken + l.tokens.length, l.cursor.mark⟩ }
  else .ok l

/-! ### Blocks -/

/-- Open a block on a column right of the open ones; `place` adds its first token. -/
def openBlock (l : Layout) (column : Nat) (place : Layout → Layout) : Layout :=
  if !l.inFlow && l.columns.head?.all fun c => c < column then
    place { l with columns := column :: l.columns }
  else l

/-- Close the blocks that do not satisfy a condition. -/
def closeBlocks (l : Layout) (isOpen : Nat → Bool) : Layout :=
  if l.inFlow then l
  else
    let closed := l.columns.takeWhile fun c => !isOpen c
    { l with
      columns := l.columns.drop closed.length
      tokens := l.tokens ++ closed.map fun _ => ⟨.blockEnd, l.line⟩ }

/-- Insert a token before the one with a number. -/
def insertAt (l : Layout) (number : Nat) (t : TokenAt) : Layout :=
  let i := number - l.taken
  { l with tokens := l.tokens.take i ++ t :: l.tokens.drop i }

/-! ### Tokens -/

/-- The end of the text, which always stands at the beginning of a line. -/
def fetchEnd (l : Layout) : Except Nat Layout := do
  let m := l.cursor.mark
  let m := if m.column = 0 then m else ⟨m.index, m.line + 1, 0⟩
  let l := { l with cursor := { l.cursor with mark := m } }
  let l ← (l.closeBlocks fun _ => false).dropKey
  .ok ((l.allowKey false).push .textEnd)

/-- A directive. -/
def fetchDirective (l : Layout) : Except Nat Layout := do
  let l ← (l.closeBlocks fun _ => false).dropKey
  let (d, rest) ← l.scan (directive (l.rest.drop 1))
  .ok ((l.allowKey false).pushTo (.directive d) rest)

/-- A mark between documents. -/
def fetchDocumentMark (l : Layout) (t : Token) : Except Nat Layout := do
  let l ← (l.closeBlocks fun _ => false).dropKey
  .ok ((l.allowKey false).pushChars t 3)

/-- The beginning of a flow collection. -/
def fetchOpen (l : Layout) (t : Token) : Except Nat Layout := do
  let l ← l.saveKey
  .ok ({ l with key := none, outerKeys := l.key :: l.outerKeys, keyAllowed := true }.pushChars t 1)

/-- The end of a flow collection. -/
def fetchClose (l : Layout) (t : Token) : Except Nat Layout := do
  let l ← l.dropKey
  let l := match l.outerKeys with
    | [] => l
    | key :: outer => { l with key := key, outerKeys := outer }
  .ok ((l.allowKey false).pushChars t 1)

/-- A comma. -/
def fetchComma (l : Layout) : Except Nat Layout := do
  let l ← l.dropKey
  .ok ((l.allowKey true).pushChars .comma 1)

/-- The dash of an entry. -/
def fetchEntry (l : Layout) : Except Nat Layout := do
  if !l.inFlow && !l.keyAllowed then l.fail
  else
    let l ← (l.openBlock l.column (·.push .sequenceBlock)).dropKey
    .ok ((l.allowKey true).pushChars .entry 1)

/-- The question mark of a key. -/
def fetchKey (l : Layout) : Except Nat Layout := do
  if !l.inFlow && !l.keyAllowed then l.fail
  else
    let l ← (l.openBlock l.column (·.push .mappingBlock)).dropKey
    .ok ((l.allowKey !l.inFlow).pushChars .key 1)

/-- The colon of a value.  It makes the last node a key. -/
def fetchValue (l : Layout) : Except Nat Layout :=
  match l.key with
  | some k =>
    let l := l.insertAt k.number ⟨.key, k.mark.line⟩
    let l := l.openBlock k.mark.column (·.insertAt k.number ⟨.mappingBlock, k.mark.line⟩)
    .ok ({ l with key := none, keyAllowed := false }.pushChars .value 1)
  | none =>
    if !l.inFlow && !l.keyAllowed then l.fail
    else
      let l := l.openBlock l.column (·.push .mappingBlock)
      .ok ((l.allowKey !l.inFlow).pushChars .value 1)

/-- An anchor or alias. -/
def fetchName (l : Layout) (t : String → Token) : Except Nat Layout := do
  let l ← l.saveKey
  let (name, rest) ← l.scan (anchorName (l.rest.drop 1))
  .ok ((l.allowKey false).pushTo (t name) rest)

/-- A tag. -/
def fetchTag (l : Layout) : Except Nat Layout := do
  let l ← l.saveKey
  let (text, rest) ← l.scan (tag l.inFlow l.rest)
  .ok ((l.allowKey false).pushTo (.tag text) rest)

/-- A block scalar. -/
def fetchBlockScalar (l : Layout) (folded : Bool) : Except Nat Layout := do
  let l ← l.dropKey
  let (text, rest) ← l.scan (blockScalar folded l.columns.head? (l.rest.drop 1))
  .ok ((l.allowKey true).pushTo (.scalar text false) rest)

/-- A quoted scalar. -/
def fetchQuoted (l : Layout) (quote : Quote) : Except Nat Layout := do
  let l ← l.saveKey
  let (text, rest) ← l.scan (quoted quote (l.rest.drop 1))
  .ok ((l.allowKey false).pushTo (.scalar text false) rest)

/-- A plain scalar.  It takes the blanks behind it along. -/
def fetchPlain (l : Layout) : Except Nat Layout := do
  let l ← l.saveKey
  let indent := match l.columns.head? with
    | some column => column + 1
    | none => 0
  let (scalar, rest) ← l.scan (plain l.inFlow indent l.rest)
  .ok ((l.allowKey scalar.endsLine).pushTo (.scalar scalar.text true) rest)

/-- May a plain scalar begin with a character? -/
def beginsPlain (c : Char) : Bool :=
  !(isGap c || isFlowIndicator c || c == '-' || c == '?' || c == ':' || c == '#' || c == '&' ||
    c == '*' || c == '!' || c == '|' || c == '>' || c == '\'' || c == '"' || c == '%' ||
    c == '@' || c == '\x60')

/-- The token that begins with a character, `behind` being the text after it. -/
def fetchChar (l : Layout) (c : Char) (behind : List Char) : Except Nat Layout :=
  let atIndicator := atGap behind
  if l.column = 0 && c == '%' then l.fetchDirective
  else if l.column = 0 && atDocumentStart l.rest then l.fetchDocumentMark .documentStart
  else if l.column = 0 && atDocumentEnd l.rest then l.fetchDocumentMark .documentEnd
  else if c == '[' then l.fetchOpen .sequenceOpen
  else if c == '{' then l.fetchOpen .mappingOpen
  else if c == ']' then l.fetchClose .sequenceClose
  else if c == '}' then l.fetchClose .mappingClose
  else if c == ',' then l.fetchComma
  else if c == '-' && atIndicator then l.fetchEntry
  else if c == '?' && (l.inFlow || atIndicator) then l.fetchKey
  else if c == ':' && (l.inFlow || atIndicator) then l.fetchValue
  else if c == '*' then l.fetchName .reference
  else if c == '&' then l.fetchName .anchor
  else if c == '!' then l.fetchTag
  else if c == '|' && !l.inFlow then l.fetchBlockScalar false
  else if c == '>' && !l.inFlow then l.fetchBlockScalar true
  else if c == '\'' then l.fetchQuoted .single
  else if c == '"' then l.fetchQuoted .double
  else if beginsPlain c || c == '-' || (!l.inFlow && (c == '?' || c == ':')) then l.fetchPlain
  else l.fail

/-- Find one more token, and the ends of blocks before it. -/
def fetch (l : Layout) : Except Nat Layout := do
  let l ← l.toNextToken.inSight
  let l ← l.dropStale
  let l := l.closeBlocks fun c => c ≤ l.column
  match l.rest with
  | [] => l.fetchEnd
  | c :: behind => l.fetchChar c behind >>= inSight

/-- Is the next token not known yet?  It is not while it may be the beginning of a key. -/
def needsMore (l : Layout) : Bool :=
  l.tokens.isEmpty || (l.key :: l.outerKeys).any fun k => k.any fun k => k.number = l.taken

/-- Find tokens until the next one is known. -/
def fill : (bound : Nat) → Layout → Except Nat Layout
  | 0, l => .ok l
  | bound + 1, l => do
    let l ← if l.tokens.isEmpty then .ok l else l.dropStale
    if l.needsMore then
      let l ← l.fetch
      fill bound l
    else .ok l

/-- The next token.  Every search but the last two uses up a character. -/
def peek (l : Layout) : Except Nat (TokenAt × Layout) := do
  let l ← fill (l.rest.length + 2) l
  .ok (l.tokens.headD ⟨.textEnd, l.line⟩, l)

/-- Go on behind the next token. -/
def take (l : Layout) : Layout :=
  { l with tokens := l.tokens.drop 1, taken := l.taken + 1 }

end Layout

end PackageDoc.Yaml
