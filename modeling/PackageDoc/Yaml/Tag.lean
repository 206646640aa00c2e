import PackageDoc.Text.Utf8
import PackageDoc.Yaml.Scalar

namespace PackageDoc.Yaml

/-!
# Names, tags and directives

The parts of a YAML text that say something about nodes and documents: anchors and aliases, tags,
and the directives before a document.
-/

/-! ### Anchors and aliases -/

/-- The characters besides a gap that may follow the name of an anchor. -/
def endsName (c : Char) : Bool :=
  c == '?' || c == ':' || c == ',' || c == ']' || c == '}' || c == '%' || c == '@' || c == '\x60'

/-- The name of an anchor or alias. -/
def anchorName (cs : List Char) : Scan (String × List Char) :=
  let (name, rest) := cs.span isWordChar
  if !name.isEmpty && (atGap rest || beginsWith endsName rest) then .ok (String.ofList name, rest)
  else .error rest

/-! ### Tags

The text of a tag is a string of bytes, which need not write characters.  It ends before the first
zero byte.
-/

/-- A tag as it is written: a handle, which stands for the beginning of the tag, and the rest. -/
structure TagText where
  handle : List Char
  suffix : List UInt8
  deriving Repr, DecidableEq, Inhabited

/-- The characters of a tag. -/
def isTagChar (c : Char) : Bool :=
  isWordChar c || c == ';' || c == '/' || c == '?' || c == ':' || c == '@' || c == '&' ||
    c == '=' || c == '+' || c == '$' || c == '.' || c == '!' || c == '~' || c == '*' ||
    c == '\'' || c == '(' || c == ')'

/-- The characters of a tag in angle brackets. -/
def isVerbatimTagChar (c : Char) : Bool :=
  isTagChar c || c == ',' || c == '[' || c == ']'

/-- A byte that is written as a percent sign and two hexadecimal digits. -/
def escapedByte? : List Char → Option (UInt8 × List Char)
  | '%' :: a :: b :: cs => (Text.hexValue? 0 [a, b]).map fun n => (UInt8.ofNat n, cs)
  | _ => none

/-- The number of bytes that a byte begins a group of. -/
def groupLength? (byte : UInt8) : Option Nat :=
  if byte < 0x80 then some 1
  else if byte < 0xc0 then none
  else if byte < 0xe0 then some 2
  else if byte < 0xf0 then some 3
  else if byte < 0xf8 then some 4
  else none

/-- The bytes of a group after the first. -/
def laterBytes? : (count : Nat) → List Char → Option (List UInt8 × List Char)
  | 0, cs => some ([], cs)
  | count + 1, cs =>
    (escapedByte? cs).bind fun (byte, rest) =>
      if 0x80 ≤ byte && byte < 0xc0 then
        (laterBytes? count rest).map fun r => (byte :: r.1, r.2)
      else none

/-- A group of bytes that are all written with percent signs. -/
def escapedGroup? (cs : List Char) : Option (List UInt8 × List Char) := do
  let (byte, rest) ← escapedByte? cs
  let length ← groupLength? byte
  let (later, rest) ← laterBytes? (length - 1) rest
  some (byte :: later, rest)

/-- The bytes of a tag, zeros included. -/
def tagBytes (allowed : Char → Bool) : (bound : Nat) → List Char → Scan (List UInt8 × List Char)
  | 0, cs => .ok ([], cs)
  | _, [] => .ok ([], [])
  | bound + 1, c :: cs =>
    if c == '%' then
      match escapedGroup? (c :: cs) with
      | none => .error (c :: cs)
      | some (bytes, rest) => do
        let (more, rest) ← tagBytes allowed bound rest
        .ok (bytes ++ more, rest)
    else if allowed c then do
      let (more, rest) ← tagBytes allowed bound cs
      .ok (UInt8.ofNat c.toNat :: more, rest)
    else .ok ([], c :: cs)

/-- The text of a tag, which may be empty. -/
def tagText (allowed : Char → Bool) (cs : List Char) : Scan (List UInt8 × List Char) := do
  let (bytes, rest) ← tagBytes allowed cs.length cs
  .ok (bytes.takeWhile (· != 0), rest)

/-- The text of a tag, for which something has to be written. -/
def someTagText (allowed : Char → Bool) (cs : List Char) : Scan (List UInt8 × List Char) := do
  let (text, rest) ← tagText allowed cs
  if rest.length < cs.length then .ok (text, rest) else .error rest

/-- What a tag begins with: an exclamation mark, a word, and perhaps another mark. -/
def tagHandle (cs : List Char) : List Char × List Char :=
  let (word, rest) := (cs.drop 1).span isWordChar
  match rest with
  | '!' :: rest => ('!' :: word ++ ['!'], rest)
  | _ => ('!' :: word, rest)

/-- A tag, which begins with an exclamation mark.  The mark alone stands for itself. -/
def tagBody (cs : List Char) : Scan (TagText × List Char) :=
  match cs with
  | '!' :: '<' :: cs => do
    let (text, rest) ← someTagText isVerbatimTagChar cs
    match rest with
    | '>' :: rest => .ok (⟨[], text⟩, rest)
    | _ => .error rest
  | _ =>
    let (handle, rest) := tagHandle cs
    if 1 < handle.length && handle.getLast? == some '!' then do
      let (text, rest) ← someTagText isTagChar rest
      .ok (⟨handle, text⟩, rest)
    else do
      let (text, rest) ← tagText isTagChar rest
      let suffix := Text.asciiBytes (handle.drop 1) ++ text
      .ok (if suffix.isEmpty then ⟨[], Text.asciiBytes ['!']⟩ else ⟨['!'], suffix⟩, rest)

/-- A tag and the end of it: a gap, or in a flow collection a comma. -/
def tag (inFlow : Bool) (cs : List Char) : Scan (TagText × List Char) := do
  let (text, rest) ← tagBody cs
  if atGap rest || (inFlow && beginsWith (· == ',') rest) then .ok (text, rest) else .error rest

/-! ### Directives -/

/-- What is said before a document. -/
inductive Directive where
  /-- The version of the language. -/
  | version (major minor : Nat)
  /-- What a handle stands for. -/
  | handle (handle : List Char) (expansion : List UInt8)
  deriving Repr, DecidableEq, Inhabited

/-- A number of a version, which has at most nine digits. -/
def versionNumber (cs : List Char) : Scan (Nat × List Char) :=
  let (digits, rest) := cs.span Char.isDigit
  if digits.isEmpty || 9 < digits.length then .error rest
  else .ok (digits.foldl (fun n c => 10 * n + (c.toNat - '0'.toNat)) 0, rest)

/-- The version of the language. -/
def versionDirective (cs : List Char) : Scan (Directive × List Char) := do
  let (major, rest) ← versionNumber (cs.dropWhile isBlank)
  match rest with
  | '.' :: rest =>
    let (minor, rest) ← versionNumber rest
    .ok (.version major minor, rest)
  | _ => .error rest

/-- What a handle stands for. -/
def handleDirective (cs : List Char) : Scan (Directive × List Char) := do
  let cs := cs.dropWhile isBlank
  if !beginsWith (· == '!') cs then .error cs
  else
    let (handle, rest) := tagHandle cs
    if (1 < handle.length && handle.getLast? != some '!') || !beginsWith isBlank rest then
      .error rest
    else
      let (text, rest) ← someTagText isVerbatimTagChar (rest.dropWhile isBlank)
      if atGap rest then .ok (.handle handle text, rest) else .error rest

/-- A directive to the end of its line, without its percent sign. -/
def directive (cs : List Char) : Scan (Directive × List Char) := do
  let (name, rest) := cs.span isWordChar
  let (d, rest) ←
    if !atGap rest then .error rest
    else if String.ofList name == "YAML" then versionDirective rest
    else if String.ofList name == "TAG" then handleDirective rest
    else .error rest
  let ((), rest) ← endOfLine rest
  .ok (d, rest)

end PackageDoc.Yaml
