import PackageDoc.Text.Printable
import PackageDoc.Text.Utf8

namespace PackageDoc

/-!
# Decoding of source files

A source file is UTF-8 unless a comment on its first or second line declares another encoding.
A byte order mark is removed.
-/

/-- An encoding that sources may have. -/
inductive Encoding where
  | utf8 | latin1 | ascii
  deriving Repr, DecidableEq, Inhabited

/-- The encoding's name in messages. -/
def Encoding.text : Encoding → String
  | utf8 => "utf-8"
  | latin1 => "latin-1"
  | ascii => "ascii"

/-- The encoding that a declaration names, in any case and with `_` for `-`. -/
def Encoding.ofName? (name : String) : Option Encoding :=
  let normal := String.ofList (name.toList.map fun c => if c = '_' then '-' else c.toLower)
  if ["utf-8", "utf8", "utf-8-sig", "u8"].contains normal then some .utf8
  else if ["latin-1", "latin1", "l1", "iso-8859-1", "iso8859-1", "iso-latin-1",
      "cp819"].contains normal then some .latin1
  else if ["ascii", "us-ascii"].contains normal then some .ascii
  else none

/-- Why a file is not a source text. -/
inductive DecodeError where
  | unsupportedEncoding (name : String)
  /-- The bytes from `offset` on are none of the encoding's. -/
  | invalidBytes (encoding : Encoding) (offset : Nat)
  /-- A byte order mark stands before a declaration of another encoding. -/
  | markMismatch (name : String)
  deriving Repr, DecidableEq, Inhabited

/-- The wording of an error. -/
def DecodeError.message : DecodeError → String
  | unsupportedEncoding name => "unsupported encoding " ++ Text.quoted name
  | invalidBytes encoding offset =>
    "invalid " ++ encoding.text ++ " data at byte " ++ toString offset
  | markMismatch name => "UTF-8 byte order mark with declared encoding " ++ Text.quoted name

/-! ### Declarations -/

/-- A line without the blanks at its beginning. -/
def trimBlanks (line : List UInt8) : List UInt8 :=
  line.dropWhile fun b => b == 0x20 || b == 0x09 || b == 0x0c

/-- The bytes of an encoding's name. -/
def isNameByte (b : UInt8) : Bool :=
  (Char.ofNat b.toNat).isAlphanum || b == 0x2d || b == 0x5f || b == 0x2e

/-- What follows the first `word` of a line. -/
def afterWord? (word : List UInt8) : List UInt8 → Option (List UInt8)
  | [] => none
  | b :: bs => if word.isPrefixOf (b :: bs) then some ((b :: bs).drop word.length)
    else afterWord? word bs

/-- The name behind `coding:` or `coding=` in a comment line. -/
def codingName? (line : List UInt8) : Option String :=
  match trimBlanks line with
  | 0x23 :: line => do
    let rest ← afterWord? (Text.asciiBytes "coding".toList) line
    match rest with
    | sep :: rest =>
      let name := (trimBlanks rest).takeWhile isNameByte
      if (sep == 0x3a || sep == 0x3d) && !name.isEmpty then
        some (String.ofList (name.map fun b => Char.ofNat b.toNat))
      else none
    | [] => none
  | _ => none

/-- The first line of a byte string, and what follows its `\n`. -/
def cutLine (bs : List UInt8) : List UInt8 × Option (List UInt8) :=
  let line := bs.takeWhile fun b => b != 0x0a
  match bs.drop line.length with
  | [] => (line, none)
  | _ :: rest => (line, some rest)

/-- The name of the declared encoding.  The second line counts only below a blank line or a
    comment. -/
def declaredEncoding? (body : List UInt8) : Option String :=
  let (first, rest) := cutLine body
  match codingName? first with
  | some name => some name
  | none =>
    let text := trimBlanks first
    if text.isEmpty || text.head? == some 0x23 || text == [0x0d] then
      rest.bind fun rest => codingName? (cutLine rest).1
    else none

/-- Decode the bytes of a source file. -/
def decodeSource (bytes : List UInt8) : Except DecodeError String :=
  let marked := [0xef, 0xbb, 0xbf].isPrefixOf bytes
  let body := if marked then bytes.drop 3 else bytes
  let shift := if marked then 3 else 0
  let decode : Encoding → Except DecodeError String
    | .utf8 =>
      match Text.decodeUtf8 body with
      | .ok cs => .ok (String.ofList cs)
      | .error offset => .error (.invalidBytes .utf8 (offset + shift))
    | .ascii =>
      let valid := body.takeWhile fun b => b < 0x80
      if valid.length = body.length then
        .ok (String.ofList (body.map fun b => Char.ofNat b.toNat))
      else .error (.invalidBytes .ascii valid.length)
    | .latin1 => .ok (String.ofList (body.map fun b => Char.ofNat b.toNat))
  match declaredEncoding? body with
  | none => decode .utf8
  | some name =>
    match Encoding.ofName? name with
    | none => .error (.unsupportedEncoding name)
    | some encoding =>
      if marked && encoding != .utf8 then .error (.markMismatch name) else decode encoding

end PackageDoc
