import PackageDoc.Token.Basic

namespace PackageDoc

/-!
# A place in a token stream

A `Cursor` stands between two tokens: the one read last and those still to be read.  Every token
stream ends with the token `eof`, which is never passed.
-/

/-- A place in a token stream. -/
structure Cursor where
  /-- The token read last; the end of the text before anything is read. -/
  prev : Token
  /-- The tokens still to be read. -/
  rest : List Token
  deriving Repr, Inhabited

namespace Cursor

/-- The place before the first token of a stream over a text of `stop` bytes. -/
def start (tokens : List Token) (stop : Nat) : Cursor :=
  ⟨⟨.eof, ⟨stop, stop⟩, ""⟩, tokens⟩

/-- The next token. -/
def peek (c : Cursor) : Token :=
  c.rest.headD c.prev

/-- The kind of the next token. -/
def kind (c : Cursor) : TokenKind :=
  c.peek.kind

/-- The place after the next token. -/
def advance (c : Cursor) : Cursor :=
  match c.rest with
  | [] => c
  | t :: ts => ⟨t, ts⟩

/-- The kind of the token after the next. -/
def kindAfter (c : Cursor) : TokenKind :=
  c.advance.kind

/-- Is the next token of this kind? -/
def at? (c : Cursor) (kind : TokenKind) : Bool :=
  c.kind == kind

/-- Pass the tokens at the beginning of `rest` that satisfy `p`. -/
def skipTokens (p : TokenKind → Bool) (prev : Token) : (rest : List Token) → Cursor
  | [] => ⟨prev, []⟩
  | t :: ts => if p t.kind then skipTokens p t ts else ⟨prev, t :: ts⟩

/-- The place after the next tokens that satisfy `p`. -/
def skipWhile (c : Cursor) (p : TokenKind → Bool) : Cursor :=
  skipTokens p c.prev c.rest

/-- Where a balanced group of brackets ends, `depth` of them being open. -/
def skipGroup (depth : Nat) (prev : Token) : (rest : List Token) → Cursor
  | [] => ⟨prev, []⟩
  | t :: ts =>
    if t.kind.isLineEnd then ⟨prev, t :: ts⟩
    else if t.kind.isOpenBracket then skipGroup (depth + 1) t ts
    else if t.kind.isCloseBracket then
      if depth ≤ 1 then ⟨t, ts⟩ else skipGroup (depth - 1) t ts
    else skipGroup depth t ts

/-- The place after the bracketed group that begins with the next token, or the end of the line
    when the group is not closed on it. -/
def skipBrackets (c : Cursor) : Cursor :=
  skipGroup 0 c.prev c.rest

/-- Does the logical line end with a colon?  A name then introduces a compound statement, as in
    `match x:`. -/
def lineEndsWithColon (c : Cursor) : Bool :=
  let line := c.rest.takeWhile fun t => !(t.kind.isLineEnd || t.kind == .comment)
  line.getLast?.any fun t => t.kind == .colon

end Cursor
end PackageDoc
