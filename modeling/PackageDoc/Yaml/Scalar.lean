import PackageDoc.Text.Utf8
import PackageDoc.Yaml.Mark

namespace PackageDoc.Yaml

/-!
# The texts of scalars

How the characters of a scalar give its text, for each of the ways in which scalars are written.

* `plain` — words without quotes;
* `quoted` — in single or double quotes;
* `blockScalar` — lines below a header `|` or `>`.

Each takes the text behind the place where the scalar begins and gives the text of the scalar and
what follows it.  A fault is given as the text behind the place where it was found.
-/

/-- A result, or the text behind a fault. -/
abbrev Scan :=
  Except (List Char)

/-! ### Folding -/

/-- What blanks and line breaks between two words stand for.  Without a line break they stand for
    themselves; a single line break is a blank, and of several the first is dropped. -/
def foldGap (gap : List Char) : List Char :=
  match gap.filter isBreak with
  | [] => gap
  | '\n' :: [] => [' ']
  | '\n' :: breaks => breaks
  | breaks => breaks

/-- The column after a gap that begins behind a character. -/
def columnAfter (gap : List Char) : Nat :=
  gap.foldl (fun column c => if isBreak c then 0 else column + 1) 1

/-! ### Plain scalars -/

/-- The characters that may not follow a colon inside a word in a flow collection. -/
def isMisplacedAfterColon (c : Char) : Bool :=
  c == '?' || isFlowIndicator c

/-- A word of a plain scalar.  It ends at a blank, at a colon before one and, in a flow collection,
    at an indicator. -/
def plainWord (inFlow : Bool) : List Char → Scan (List Char × List Char)
  | [] => .ok ([], [])
  | c :: cs =>
    if isGap c then .ok ([], c :: cs)
    else if inFlow && c == ':' && beginsWith isMisplacedAfterColon cs then .error (c :: cs)
    else if (c == ':' && atGap cs) || (inFlow && isFlowIndicator c) then .ok ([], c :: cs)
    else do
      let (word, rest) ← plainWord inFlow cs
      .ok (c :: word, rest)

/-- The end of a plain scalar. -/
structure PlainEnd where
  text : List Char
  /-- Is there a line break behind its last word? -/
  endsLine : Bool
  deriving Repr, Inhabited

/-- The words of a plain scalar behind a gap, which has led to `column`.  In a block, later lines
    have to be indented by at least `indent`.  `bound` limits the number of words. -/
def plainWords (inFlow : Bool) (indent : Nat) :
    (bound : Nat) → (gap : List Char) → (column : Nat) → List Char → Scan (PlainEnd × List Char)
  | 0, gap, _, cs => .ok (⟨[], gap.any isBreak⟩, cs)
  | bound + 1, gap, column, cs =>
    if (column == 0 && atDocumentMark cs) || beginsWith (· == '#') cs then
      .ok (⟨[], gap.any isBreak⟩, cs)
    else do
      let (word, rest) ← plainWord inFlow cs
      if word.isEmpty then .ok (⟨[], gap.any isBreak⟩, rest)
      else
        let text := foldGap gap ++ word
        let (next, rest) := rest.span isGap
        let column := columnAfter next
        if next.isEmpty || (!inFlow && next.any isBreak && column < indent) then
          .ok (⟨text, next.any isBreak⟩, rest)
        else do
          let (more, rest) ← plainWords inFlow indent bound next column rest
          .ok ({ more with text := text ++ more.text }, rest)

/-- A plain scalar. -/
def plain (inFlow : Bool) (indent : Nat) (cs : List Char) : Scan (PlainEnd × List Char) :=
  plainWords inFlow indent (cs.length + 1) [] 1 cs

/-! ### Quoted scalars -/

/-- The character with a number of `width` hexadecimal digits. -/
def hexChar? (width : Nat) (cs : List Char) : Option Char :=
  let digits := cs.take width
  if digits.length = width then (Text.hexValue? 0 digits).bind Text.charOfNat? else none

/-- The character that a backslash and a letter stand for. -/
def namedEscape? : Char → Option Char
  | '0' => some '\x00'
  | 'a' => some '\x07'
  | 'b' => some '\x08'
  | 't' => some '\t'
  | '\t' => some '\t'
  | 'n' => some '\n'
  | 'v' => some '\x0b'
  | 'f' => some '\x0c'
  | 'r' => some '\r'
  | 'e' => some '\x1b'
  | ' ' => some ' '
  | '"' => some '"'
  | '/' => some '/'
  | '\\' => some '\\'
  | 'N' => some '\u0085'
  | '_' => some '\u00a0'
  | 'L' => some '\u2028'
  | 'P' => some '\u2029'
  | _ => none

/-- The character that is written behind a backslash, and what follows. -/
def escape? : List Char → Option (Char × List Char)
  | [] => none
  | c :: cs =>
    match Text.escapeWidth? c with
    | some width => (hexChar? width cs).map fun d => (d, cs.drop width)
    | none => (namedEscape? c).map fun d => (d, cs)

/-- The ways of quoting. -/
inductive Quote where
  | single
  | double
  deriving Repr, DecidableEq, Inhabited

/-- The character that opens and closes a quoted scalar. -/
def Quote.char : Quote → Char
  | .single => '\''
  | .double => '"'

/-- A word of a quoted scalar. -/
structure QuotedWord where
  text : List Char
  /-- Does a backslash take away the line break behind it? -/
  joined : Bool
  deriving Repr, Inhabited

/-- A word of a quoted scalar.  It ends at a blank and at the closing quote. -/
def quotedWord (quote : Quote) : (bound : Nat) → List Char → Scan (QuotedWord × List Char)
  | 0, cs => .ok (⟨[], false⟩, cs)
  | _, [] => .ok (⟨[], false⟩, [])
  | bound + 1, c :: cs =>
    let more (d : Char) (rest : List Char) : Scan (QuotedWord × List Char) := do
      let (word, rest) ← quotedWord quote bound rest
      .ok ({ word with text := d :: word.text }, rest)
    if isGap c then .ok (⟨[], false⟩, c :: cs)
    else match quote with
      | .single =>
        if c != '\'' then more c cs
        else if beginsWith (· == '\'') cs then more c (cs.drop 1)
        else .ok (⟨[], false⟩, c :: cs)
      | .double =>
        if c == '"' then .ok (⟨[], false⟩, c :: cs)
        else if c != '\\' then more c cs
        else if beginsWith isBreak cs then .ok (⟨[], true⟩, cs)
        else match escape? cs with
          | some (d, rest) => more d rest
          | none => .error (c :: cs)

/-- The words of a quoted scalar from `column` to the closing quote. -/
def quotedWords (quote : Quote) :
    (bound : Nat) → (column : Nat) → List Char → Scan (List Char × List Char)
  | 0, _, cs => .error cs
  | bound + 1, column, cs =>
    if (column == 0 && atDocumentMark cs) || cs.isEmpty then .error cs
    else do
      let (word, rest) ← quotedWord quote cs.length cs
      if beginsWith (· == quote.char) rest then .ok (word.text, rest.drop 1)
      else
        let (gap, rest) := rest.span isGap
        let folded := if word.joined then (gap.filter isBreak).drop 1 else foldGap gap
        let (more, rest) ← quotedWords quote bound (columnAfter gap) rest
        .ok (word.text ++ folded ++ more, rest)

/-- A quoted scalar, without its opening quote. -/
def quoted (quote : Quote) (cs : List Char) : Scan (List Char × List Char) :=
  quotedWords quote (cs.length + 1) 1 cs

/-! ### Block scalars -/

/-- What becomes of the line breaks at the end of a block scalar. -/
inductive Chomping where
  | strip
  | clip
  | keep
  deriving Repr, DecidableEq, Inhabited

/-- The first line of a block scalar. -/
structure BlockHeader where
  chomping : Chomping
  /-- By how much its lines are indented, when that is said. -/
  indent : Option Nat
  deriving Repr, Inhabited

/-- What a sign says about the line breaks at the end. -/
def chomping? : Char → Option Chomping
  | '+' => some .keep
  | '-' => some .strip
  | _ => none

/-- Take a sign off a text. -/
def takeChomping (cs : List Char) : Option Chomping × List Char :=
  match cs with
  | [] => (none, [])
  | c :: rest => match chomping? c with
    | some chomping => (some chomping, rest)
    | none => (none, cs)

/-- Take a digit off a text. -/
def takeDigit (cs : List Char) : Option Nat × List Char :=
  match cs with
  | [] => (none, [])
  | c :: rest => if c.isDigit then (some (c.toNat - '0'.toNat), rest) else (none, cs)

/-- The end of a line that holds nothing more than a comment. -/
def endOfLine (cs : List Char) : Scan (Unit × List Char) :=
  let rest := cs.dropWhile isBlank
  let rest := if beginsWith (· == '#') rest then rest.dropWhile fun c => !isBreak c else rest
  if atLineEnd rest then .ok ((), rest.drop 1) else .error rest

/-- The header of a block scalar, without the character that opens it, to the end of its line.  Sign
    and digit stand in any order. -/
def blockHeader (cs : List Char) : Scan (BlockHeader × List Char) := do
  let (before, rest) := takeChomping cs
  let (digit, rest) := takeDigit rest
  if digit = some 0 then .error cs
  else
    let (behind, rest) := if before.isNone && digit.isSome then takeChomping rest else (none, rest)
    let ((), rest) ← endOfLine rest
    .ok (⟨(before.orElse fun () => behind).getD .clip, digit⟩, rest)

/-- The blank lines at the beginning of a text. -/
structure BlankLines where
  breaks : List Char := []
  /-- The greatest number of blanks at the beginning of a line, the next one included. -/
  width : Nat := 0
  /-- The number of blanks at the beginning of the next line. -/
  column : Nat := 0
  deriving Repr, Inhabited

/-- Skip blank lines, and on the next line up to `limit` blanks. -/
def blankLines (limit : Option Nat) :
    (bound : Nat) → List Char → BlankLines × List Char
  | 0, cs => ({}, cs)
  | bound + 1, cs =>
    let blanks := (cs.takeWhile (· == ' ')).length
    let column := match limit with
      | some n => min n blanks
      | none => blanks
    match cs.drop column with
    | [] => (⟨[], column, column⟩, [])
    | c :: rest =>
      if isBreak c then
        let (more, rest) := blankLines limit bound rest
        (⟨c :: more.breaks, max column more.width, more.column⟩, rest)
      else (⟨[], column, column⟩, c :: rest)

/-- The lines of a block scalar that have been read. -/
structure BlockText where
  text : List Char := []
  /-- The line break behind the last line. -/
  lead : List Char := []
  /-- Those of the blank lines behind it. -/
  breaks : List Char := []
  /-- Does the last line begin with a blank? -/
  indented : Bool := false
  deriving Repr, Inhabited

namespace BlockText

/-- Add a line.  When lines are folded, the break between two lines that are not indented any
    further is a blank, or nothing if blank lines follow. -/
def addLine (folded : Bool) (b : BlockText) (line lead breaks : List Char) : BlockText :=
  let indented := beginsWith isBlank line
  let joint :=
    if folded && b.lead == ['\n'] && !b.indented && !indented then
      if b.breaks.isEmpty then [' '] else []
    else b.lead
  ⟨b.text ++ joint ++ b.breaks ++ line, lead, breaks, indented⟩

/-- The text of a block scalar. -/
def chomp (b : BlockText) : Chomping → List Char
  | .strip => b.text
  | .clip => b.text ++ b.lead
  | .keep => b.text ++ b.lead ++ b.breaks

end BlockText

/-- The lines of a block scalar that are indented by `indent`; the text begins on `column`. -/
def blockLines (folded : Bool) (indent : Nat) :
    (bound : Nat) → BlockText → (column : Nat) → List Char → BlockText × List Char
  | 0, b, _, cs => (b, cs)
  | bound + 1, b, column, cs =>
    if column != indent || cs.isEmpty then (b, cs)
    else
      let (line, rest) := cs.span fun c => !isBreak c
      let (blank, next) := blankLines (some indent) (cs.length + 1) (rest.drop 1)
      blockLines folded indent bound (b.addLine folded line (rest.take 1) blank.breaks)
        blank.column next

/-- A block scalar inside a block whose entries stand on column `outer`, without the character that
    opens it. -/
def blockScalar (folded : Bool) (outer : Option Nat) (cs : List Char) : Scan (List Char × List Char) := do
  let (header, rest) ← blockHeader cs
  let limit := header.indent.map fun n => outer.getD 0 + n
  let (blank, rest) := blankLines limit (rest.length + 1) rest
  let least := match outer with
    | some column => column + 1
    | none => 1
  let indent := limit.getD (max blank.width least)
  let (b, rest) :=
    blockLines folded indent (rest.length + 1) { breaks := blank.breaks } blank.column rest
  .ok (b.chomp header.chomping, rest)

end PackageDoc.Yaml
