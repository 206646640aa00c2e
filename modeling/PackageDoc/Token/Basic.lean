import PackageDoc.Source.Span

namespace PackageDoc

/-!
# Tokens

Logical lines end in `newline`, blank and comment-only lines in `blankLine`; a change of
indentation is a token of its own.  Comments inside brackets are no tokens.

`Keyword` has the reserved words of Python.  Words that are reserved only in some places, such as
`match` and `type`, are plain names.
-/

/-! ### Keywords -/

/-- A reserved word.  The constructors are capitalised because several of the words are reserved
    in this language too. -/
inductive Keyword where
  | False | None | True | And | As | Assert | Async | Await | Break | Class | Continue | Def
  | Del | Elif | Else | Except | Finally | For | From | Global | If | Import | In | Is | Lambda
  | Nonlocal | Not | Or | Pass | Raise | Return | Try | While | With | Yield
  deriving Repr, DecidableEq, Inhabited

namespace Keyword

/-- Every keyword, ordered by its text. -/
def all : List Keyword :=
  [.False, .None, .True, .And, .As, .Assert, .Async, .Await, .Break, .Class, .Continue, .Def,
   .Del, .Elif, .Else, .Except, .Finally, .For, .From, .Global, .If, .Import, .In, .Is, .Lambda,
   .Nonlocal, .Not, .Or, .Pass, .Raise, .Return, .Try, .While, .With, .Yield]

/-- The word itself. -/
def text : Keyword → String
  | .False => "False" | .None => "None" | .True => "True" | .And => "and" | .As => "as"
  | .Assert => "assert" | .Async => "async" | .Await => "await" | .Break => "break"
  | .Class => "class" | .Continue => "continue" | .Def => "def" | .Del => "del"
  | .Elif => "elif" | .Else => "else" | .Except => "except" | .Finally => "finally"
  | .For => "for" | .From => "from" | .Global => "global" | .If => "if" | .Import => "import"
  | .In => "in" | .Is => "is" | .Lambda => "lambda" | .Nonlocal => "nonlocal" | .Not => "not"
  | .Or => "or" | .Pass => "pass" | .Raise => "raise" | .Return => "return" | .Try => "try"
  | .While => "while" | .With => "with" | .Yield => "yield"

/-- The keyword that `word` spells. -/
def ofText? (word : String) : Option Keyword :=
  all.find? fun k => k.text == word

/-- Keywords that open, or continue, a compound statement with a body of its own. -/
def startsCompound : Keyword → Bool
  | .For | .While | .Try | .With | .Except | .Finally | .Else | .Elif => true
  | _ => false

/-- The name of the keyword's token kind in messages. -/
def label (k : Keyword) : String :=
  match k.text.toList with
  | [] => "Kw"
  | c :: cs => String.ofList ('K' :: 'w' :: c.toUpper :: cs)

end Keyword

/-! ### Kinds of tokens -/

/-- The kinds of tokens. -/
inductive TokenKind where
  | error | eof
  | newline | blankLine | indent | dedent | comment
  | name | number | string
  | lparen | rparen | lbracket | rbracket | lbrace | rbrace
  | colon | comma | semicolon | dot | atSign | equals | arrow | ellipsis | pipe | star | doubleStar
  | slash | minus | augAssign | operator
  | keyword (word : Keyword)
  deriving Repr, DecidableEq, Inhabited

namespace TokenKind

/-- The name of the kind in messages. -/
def label : TokenKind → String
  | error => "Error" | eof => "Eof" | newline => "Newline" | blankLine => "Nl"
  | indent => "Indent" | dedent => "Dedent" | comment => "Comment" | name => "Name"
  | number => "Number" | string => "String" | lparen => "LParen" | rparen => "RParen"
  | lbracket => "LBracket" | rbracket => "RBracket" | lbrace => "LBrace" | rbrace => "RBrace"
  | colon => "Colon" | comma => "Comma" | semicolon => "Semicolon" | dot => "Dot" | atSign => "At"
  | equals => "Equals" | arrow => "Arrow" | ellipsis => "Ellipsis" | pipe => "Pipe"
  | star => "Star" | doubleStar => "DoubleStar" | slash => "Slash" | minus => "Minus"
  | augAssign => "AugAssign" | operator => "Op" | keyword word => word.label

/-- Does the token open a bracket? -/
def isOpenBracket : TokenKind → Bool
  | lparen | lbracket | lbrace => true
  | _ => false

/-- Does the token close a bracket? -/
def isCloseBracket : TokenKind → Bool
  | rparen | rbracket | rbrace => true
  | _ => false

/-- Does the token introduce the header of a compound statement? -/
def startsCompound : TokenKind → Bool
  | keyword word => word.startsCompound
  | _ => false

/-- Does the token end a logical line? -/
def isLineEnd : TokenKind → Bool
  | newline | eof => true
  | _ => false

/-- Is no line open after the token? -/
def closesLine : TokenKind → Bool
  | newline | blankLine | dedent => true
  | _ => false

end TokenKind

/-- A token, where it stands and how it is spelled there. -/
structure Token where
  kind : TokenKind
  span : Span
  text : String
  deriving Repr, DecidableEq, Inhabited

end PackageDoc
