import PackageDoc.Json.Raw
import PackageDoc.Text.Utf8

namespace PackageDoc.RawJson

/-!
# Reading of JSON texts

`RawJson.parse?` reads a text that is one JSON document.  Every reader takes what is left of the
text and gives back what is left after it; each of them takes at least one character, so that the
length of the text bounds the depth of reading.
-/

/-- The blanks between the parts of a document. -/
def isGap (c : Char) : Bool :=
  c = ' ' || c = '\n' || c = '\t' || c = '\r'

/-- A text without the blanks before it. -/
def skipGap (cs : List Char) : List Char :=
  cs.dropWhile isGap

/-- What follows a character that must stand at the beginning. -/
def expect? (wanted : Char) : List Char → Option (List Char)
  | [] => none
  | c :: rest => if c = wanted then some rest else none

/-! ### Numbers -/

/-- One or more digits. -/
def digits? (cs : List Char) : Option (List Char × List Char) :=
  match cs.span Char.isDigit with
  | ([], _) => none
  | found => some found

/-- The digits before the point: a leading zero stands alone. -/
def integer? : List Char → Option (List Char × List Char)
  | '0' :: rest => if rest.head?.any Char.isDigit then none else some (['0'], rest)
  | cs => digits? cs

/-- The digits after the point; tells whether there is a point. -/
def fraction? : List Char → Option (Bool × List Char)
  | '.' :: rest => (digits? rest).map fun r => (true, r.2)
  | cs => some (false, cs)

/-- The exponent; tells whether there is one. -/
def exponent? : List Char → Option (Bool × List Char)
  | c :: rest =>
    if c = 'e' || c = 'E' then
      let rest := match rest with
        | s :: more => if s = '+' || s = '-' then more else rest
        | [] => rest
      (digits? rest).map fun r => (true, r.2)
    else some (false, c :: rest)
  | [] => some (false, [])

/-- The number that decimal digits denote. -/
def ofDigits (ds : List Char) : Nat :=
  ds.foldl (fun n d => 10 * n + (d.toNat - '0'.toNat)) 0

/-- A number.  A zero with a sign is not an integer. -/
def number? (cs : List Char) : Option (RawJson × List Char) := do
  let (negative, cs) := match cs with
    | '-' :: rest => (true, rest)
    | _ => (false, cs)
  let (whole, cs) ← integer? cs
  let (hasPoint, cs) ← fraction? cs
  let (hasExponent, cs) ← exponent? cs
  let n := ofDigits whole
  let isInteger := !hasPoint && !hasExponent && !(negative && n = 0)
  return (num (if isInteger then some (if negative then -(n : Int) else n) else none), cs)

/-! ### Strings -/

/-- A part of a string: a character, or an escape that gives a unit of 16 bits. -/
inductive StringPart where
  | char (c : Char)
  | unit (n : Nat)
  deriving Repr, DecidableEq, Inhabited

/-- The characters that a backslash stands before, with what they denote. -/
def escapes : List (Char × Char) :=
  [('"', '"'), ('\\', '\\'), ('/', '/'), ('b', '\x08'), ('f', '\x0c'), ('n', '\n'), ('r', '\r'),
    ('t', '\t')]

/-- The parts of a string from behind its opening quote, and what follows its closing quote. -/
def stringParts? : List Char → Option (List StringPart × List Char)
  | [] => none
  | '"' :: rest => some ([], rest)
  | '\\' :: 'u' :: a :: b :: c :: d :: rest => do
    let n ← Text.hexValue? 0 [a, b, c, d]
    let (parts, rest) ← stringParts? rest
    return (.unit n :: parts, rest)
  | '\\' :: e :: rest => do
    let c ← escapes.lookup e
    let (parts, rest) ← stringParts? rest
    return (.char c :: parts, rest)
  | c :: rest =>
    if c.toNat < 0x20 || c = '\\' then none
    else (stringParts? rest).map fun r => (.char c :: r.1, r.2)

/-- The text of a string.  Two units that are halves of a character denote it together. -/
def partsText? : List StringPart → Option (List Char)
  | [] => some []
  | .char c :: parts => (partsText? parts).map (c :: ·)
  | .unit hi :: parts =>
    if 0xd800 ≤ hi && hi < 0xdc00 then
      match parts with
      | .unit lo :: parts =>
        if 0xdc00 ≤ lo && lo < 0xe000 then
          (partsText? parts).map
            (Char.ofNat (0x10000 + (hi - 0xd800) * 0x400 + (lo - 0xdc00)) :: ·)
        else none
      | _ => none
    else if 0xdc00 ≤ hi && hi < 0xe000 then none
    else (partsText? parts).map (Char.ofNat hi :: ·)

/-- The value of a string from behind its opening quote. -/
def string? (cs : List Char) : Option (Option String × List Char) :=
  (stringParts? cs).map fun r => ((partsText? r.1).map String.ofList, r.2)

/-! ### Values -/

mutual

/-- A value at the beginning of a text. -/
def value? : (depth : Nat) → List Char → Option (RawJson × List Char)
  | 0, _ => none
  | depth + 1, cs =>
    match cs with
    | 'n' :: 'u' :: 'l' :: 'l' :: rest => some (null, rest)
    | 't' :: 'r' :: 'u' :: 'e' :: rest => some (bool true, rest)
    | 'f' :: 'a' :: 'l' :: 's' :: 'e' :: rest => some (bool false, rest)
    | '"' :: rest => (string? rest).map fun r => (str r.1, r.2)
    | '[' :: rest =>
      match skipGap rest with
      | ']' :: rest => some (arr [], rest)
      | rest => (elements? depth rest).map fun r => (arr r.1, r.2)
    | '{' :: rest =>
      match skipGap rest with
      | '}' :: rest => some (obj [], rest)
      | rest => (members? depth rest).map fun r => (obj r.1, r.2)
    | _ => number? cs

/-- One or more items and the bracket that closes their array. -/
def elements? : (depth : Nat) → List Char → Option (List RawJson × List Char)
  | 0, _ => none
  | depth + 1, cs => do
    let (item, rest) ← value? depth cs
    match skipGap rest with
    | ']' :: rest => some ([item], rest)
    | ',' :: rest =>
      let (items, rest) ← elements? depth (skipGap rest)
      some (item :: items, rest)
    | _ => none

/-- One or more fields and the brace that closes their object. -/
def members? : (depth : Nat) → List Char → Option (List (Option String × RawJson) × List Char)
  | 0, _ => none
  | depth + 1, cs => do
    let rest ← expect? '"' cs
    let (name, rest) ← string? rest
    let rest ← expect? ':' (skipGap rest)
    let (value, rest) ← value? depth (skipGap rest)
    match skipGap rest with
    | '}' :: rest => some ([(name, value)], rest)
    | ',' :: rest =>
      let (fields, rest) ← members? depth (skipGap rest)
      some ((name, value) :: fields, rest)
    | _ => none

end

/-- The document that a text is. -/
def parse? (text : String) : Option RawJson :=
  let cs := text.toList
  match value? (2 * cs.length + 1) (skipGap cs) with
  | some (value, rest) => if (skipGap rest).isEmpty then some value else none
  | none => none

end PackageDoc.RawJson
