namespace PackageDoc.Yaml

/-!
# Characters and places of a YAML text

* `isAllowed` — the characters that a text may hold at all;
* `readablePart` — the part of a text before a character that it may not hold;
* `normalizeBreaks` — one spelling for the line breaks `\r\n`, `\r`, `\n` and U+0085;
* `Mark` — a place in a text;
* `Cursor` — a place together with the text behind it.
-/

/-! ### Classes of characters -/

/-- The characters that a text may hold. -/
def isAllowed (c : Char) : Bool :=
  let n := c.toNat
  n == 0x09 || n == 0x0a || n == 0x0d || (0x20 ≤ n && n ≤ 0x7e) || n == 0x85 ||
    (0xa0 ≤ n && n ≤ 0xfffd) || 0x10000 ≤ n

/-- Line breaks, `\r` and U+0085 having been replaced. -/
def isBreak (c : Char) : Bool :=
  c == '\n' || c == '\u2028' || c == '\u2029'

/-- Blanks within a line. -/
def isBlank (c : Char) : Bool :=
  c == ' ' || c == '\t'

/-- Blanks and line breaks. -/
def isGap (c : Char) : Bool :=
  isBlank c || isBreak c

/-- The characters of anchors, handles of tags and names of directives. -/
def isWordChar (c : Char) : Bool :=
  c.isAlphanum || c == '_' || c == '-'

/-- The characters that separate the parts of flow collections. -/
def isFlowIndicator (c : Char) : Bool :=
  c == ',' || c == '[' || c == ']' || c == '{' || c == '}'

/-- The byte order mark. -/
def byteOrderMark : Char := '\ufeff'

/-- Write every line break as `\n`, except for the separators U+2028 and U+2029. -/
def normalizeBreaks : List Char → List Char
  | [] => []
  | '\r' :: '\n' :: cs => '\n' :: normalizeBreaks cs
  | c :: cs => (if c == '\r' || c == '\u0085' then '\n' else c) :: normalizeBreaks cs

/-! ### Pieces

A text is taken in pieces of limited size, and the characters of a piece are checked when a reader
comes to it.
-/

/-- The greatest number of bytes of a piece. -/
def pieceSize : Nat := 16384

/-- The characters at the beginning of a text that have together at most `bytes` bytes, and the
    rest. -/
def splitPiece : (bytes : Nat) → List Char → List Char × List Char
  | _, [] => ([], [])
  | bytes, c :: cs =>
    if c.utf8Size ≤ bytes then
      let (piece, rest) := splitPiece (bytes - c.utf8Size) cs
      (c :: piece, rest)
    else ([], c :: cs)

/-- The pieces of a text, at most `bound` of them, before the first that holds a character that is
    not allowed. -/
def readablePart : (bound : Nat) → List Char → List Char
  | 0, _ => []
  | bound + 1, cs =>
    let (piece, rest) := splitPiece pieceSize cs
    if piece.isEmpty || !piece.all isAllowed then [] else piece ++ readablePart bound rest

/-! ### What a text begins with -/

/-- Does the text end here, or with it the line or the word? -/
def atGap : List Char → Bool
  | [] => true
  | c :: _ => isGap c

/-- Does the text or the line end here? -/
def atLineEnd : List Char → Bool
  | [] => true
  | c :: _ => isBreak c

/-- Does the text begin with one of some characters? -/
def beginsWith (p : Char → Bool) : List Char → Bool
  | [] => false
  | c :: _ => p c

/-- Does the text begin with the mark of the beginning of a document? -/
def atDocumentStart : List Char → Bool
  | '-' :: '-' :: '-' :: cs => atGap cs
  | _ => false

/-- Does the text begin with the mark of the end of a document? -/
def atDocumentEnd : List Char → Bool
  | '.' :: '.' :: '.' :: cs => atGap cs
  | _ => false

/-- Does the text begin with a mark between documents? -/
def atDocumentMark (cs : List Char) : Bool :=
  atDocumentStart cs || atDocumentEnd cs

/-! ### Places -/

/-- A place in a text. -/
structure Mark where
  /-- The number of bytes before it. -/
  index : Nat := 0
  /-- The number of line breaks before it. -/
  line : Nat := 0
  /-- The number of characters before it on its line. -/
  column : Nat := 0
  deriving Repr, DecidableEq, Inhabited

namespace Mark

/-- The place after a character. -/
def next (m : Mark) (c : Char) : Mark :=
  let index := m.index + c.utf8Size
  if isBreak c then ⟨index, m.line + 1, 0⟩ else ⟨index, m.line, m.column + 1⟩

/-- The place after some characters. -/
def after (m : Mark) (cs : List Char) : Mark :=
  cs.foldl next m

end Mark

/-- A place and the text behind it. -/
structure Cursor where
  mark : Mark
  rest : List Char
  /-- Is there more text behind it, which cannot be read? -/
  isCut : Bool := false
  deriving Repr, Inhabited

namespace Cursor

/-- Go on to where only `rest` is left, which is an end of the text behind the place. -/
def moveTo (c : Cursor) (rest : List Char) : Cursor :=
  { c with mark := c.mark.after (c.rest.take (c.rest.length - rest.length)), rest := rest }

/-- Does a reader here look at text that cannot be read?  It looks at four characters at a time. -/
def seesCut (c : Cursor) : Bool :=
  c.isCut && (c.rest.drop 3).isEmpty

/-- The line of a fault here. -/
def faultLine (c : Cursor) : Nat :=
  if c.seesCut then 0 else c.mark.line

end Cursor
end PackageDoc.Yaml
