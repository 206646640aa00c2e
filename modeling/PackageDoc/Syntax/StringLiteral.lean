import PackageDoc.Text.Utf8
import PackageDoc.Text.Space

namespace PackageDoc

/-!
# String literals

What the source text of one string literal, letters and quotes included, stands for.
-/

/-- A number in hexadecimal digits, which may follow one plus sign; at least one digit. -/
def signedHexValue? : List Char → Option Nat
  | [] => none
  | ['+'] => none
  | '+' :: cs => Text.hexValue? 0 cs
  | cs => Text.hexValue? 0 cs

/-- The character that a numeric escape with `width` digits names at the beginning of `cs`. -/
def numericEscape? (width : Nat) (cs : List Char) : Option Char :=
  let digits := cs.take width
  if Text.byteLength digits = width then (signedHexValue? digits).bind Text.charOfNat? else none

/-- The character that a backslash and `c` stand for. -/
def simpleEscape? : Char → Option Char
  | 'n' => some '\n'
  | 't' => some '\t'
  | 'r' => some '\r'
  | '0' => some '\x00'
  | 'a' => some '\x07'
  | 'b' => some '\x08'
  | 'f' => some '\x0c'
  | 'v' => some '\x0b'
  | '\\' => some '\\'
  | '\'' => some '\''
  | '"' => some '"'
  | _ => none

/-- The characters that the backslash escape of `c` yields, `rest` being what follows it, and how
    many characters of `rest` belong to the escape.  An unknown escape stands for itself. -/
def escapeValue (c : Char) (rest : List Char) : List Char × Nat :=
  if c = '\n' then ([], 0)
  else if c = '\r' then ([], if rest.head? = some '\n' then 1 else 0)
  else match simpleEscape? c with
    | some d => ([d], 0)
    | none =>
      match (Text.escapeWidth? c).bind fun width =>
        (numericEscape? width rest).map fun d => ([d], width) with
      | some r => r
      | none => (['\\', c], 0)

/-- Carry out the escapes.  `skip` characters at the beginning belong to the escape before. -/
def unescapeFrom : (skip : Nat) → List Char → List Char
  | _, [] => []
  | skip + 1, _ :: cs => unescapeFrom skip cs
  | 0, ['\\'] => ['\\']
  | 0, '\\' :: c :: cs =>
    let r := escapeValue c cs
    r.1 ++ unescapeFrom r.2 cs
  | 0, c :: cs => c :: unescapeFrom 0 cs

/-- The text that the body of a literal stands for. -/
def unescape (cs : List Char) : List Char :=
  unescapeFrom 0 cs

/-- A string literal, decoded. -/
structure StringValue where
  /-- The text; replacement fields of a formatted literal stay as they are written. -/
  value : String
  isBytes : Bool
  isFormatted : Bool
  deriving Repr, DecidableEq, Inhabited

/-- A quote character. -/
def isQuote (c : Char) : Bool :=
  c == '\'' || c == '"'

/-- What stands between the quotes of a literal that begins with its opening quote.  Without a
    closing quote that is everything after the opening one. -/
def literalBody : List Char → List Char
  | [] => []
  | q :: cs =>
    let quote := if [q, q].isPrefixOf cs then [q, q, q] else [q]
    let rest := (q :: cs).drop quote.length
    (Text.stripEnd? quote rest).getD rest

/-- The body of a literal, which follows the letters in front of it. -/
def literalContent (text : String) : List Char :=
  literalBody (text.toList.span fun c => !isQuote c).2

/-- Decode a string literal. -/
def decodeLiteral (text : String) : StringValue :=
  let lead := (text.toList.span fun c => !isQuote c).1.map Char.toLower
  let body := literalContent text
  { value := String.ofList (if lead.contains 'r' then body else unescape body)
    isBytes := lead.contains 'b'
    isFormatted := lead.contains 'f' }

end PackageDoc
