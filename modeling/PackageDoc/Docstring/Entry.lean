import PackageDoc.Docstring.Clean
import PackageDoc.Docstring.Heading
import PackageDoc.Text.Category

namespace PackageDoc

/-!
# Entries, roles and paragraphs

The parts that section bodies are made of:

* `takeRoles` — roles at the beginning of a text;
* `Entry.ofLine?` — the line that begins an entry;
* `splitType?` — a type before the colon of a line;
* `Paragraphs` — lines joined to paragraphs.
-/

/-- The characters of a name in a docstring. -/
def isWordChar (c : Char) : Bool :=
  Text.isAlphanumeric c || c == '_'

/-! ### Roles -/

/-- One role, after any blanks, and the text behind it. -/
def takeRole? (cs : List Char) : Option (Role × List Char) := do
  let rest ← Text.stripStart? ['{'] (Text.trimStart cs)
  let (name, rest) ← Text.splitOnce? '}' rest
  if name.isEmpty || !name.all isWordChar then
    none
  let rest ← Text.stripStart? ['`'] rest
  let (content, rest) ← Text.splitOnce? '`' rest
  if content.isEmpty then
    none
  return (⟨String.ofList name, String.ofList content⟩, rest)

/-- At most `n` roles and the text behind them. -/
def takeRolesUpTo : (n : Nat) → List Char → List Role × List Char
  | 0, cs => ([], cs)
  | n + 1, cs =>
    match takeRole? cs with
    | none => ([], cs)
    | some (role, rest) =>
      let r := takeRolesUpTo n rest
      (role :: r.1, r.2)

/-- The roles at the beginning of a text, and the text behind them. -/
def takeRoles (cs : List Char) : List Role × List Char :=
  let r := takeRolesUpTo cs.length cs
  (r.1, Text.trimStart r.2)

/-! ### Entries -/

/-- The text up to the parenthesis that closes the bracket opened `depth` brackets ago, and what
    follows it.  Brackets of any kind count, but the last must be a parenthesis. -/
def spanParens (depth : Nat) : List Char → Option (List Char × List Char)
  | [] => none
  | c :: cs =>
    let continueWith (d : Nat) := (spanParens d cs).map fun r => (c :: r.1, r.2)
    if c = '(' || c = '[' || c = '{' then continueWith (depth + 1)
    else if c = ')' || c = ']' || c = '}' then
      if depth ≤ 1 then (if c = ')' then some ([], cs) else none)
      else continueWith (depth - 1)
    else continueWith depth

/-- A name at the beginning of a text, which does not begin with a number. -/
def takeName? (cs : List Char) : Option (List Char × List Char) :=
  let r := cs.span isWordChar
  if cs.head?.any Text.isNumeric || r.1.isEmpty then none else some r

/-- The name at the beginning of an entry: a dotted exception, an argument with its stars, or a
    plain name. -/
def takeEntryName? (kind : SectionKind) (cs : List Char) : Option (List Char × List Char) :=
  match kind with
  | .raises =>
    let r := cs.span fun c => isWordChar c || c == '.'
    if r.1.isEmpty then none else some r
  | .args =>
    let (stars, rest) := cs.span fun c => c == '*'
    if 2 < stars.length then none
    else (takeName? rest).map fun r => (stars ++ r.1, r.2)
  | _ => takeName? cs

/-- The annotation in parentheses at the beginning of a text; `none` when it is not closed. -/
def takeType? (cs : List Char) : Option (Option (List Char) × List Char) :=
  match cs with
  | '(' :: rest => (spanParens 1 rest).map fun r => (some (Text.trim r.1), Text.trimStart r.2)
  | _ => some (none, cs)

/-- Read the line that begins an entry; the text behind the colon comes with it. -/
def Entry.ofLine? (kind : SectionKind) (line : List Char) : Option (Entry × List Char) := do
  let (name, rest) ← takeEntryName? kind line
  let rest := Text.trimStart rest
  let (type, rest) ← if kind = .raises then some (none, rest) else takeType? rest
  let (roles, rest) := takeRoles rest
  let description ← Text.stripStart? [':'] rest
  return (⟨String.ofList name, type.map String.ofList, roles, ""⟩, Text.trim description)

/-! ### Types before a colon -/

/-- A text that looks like an annotation. -/
def isTypeText (cs : List Char) : Bool :=
  cs.head?.any (fun c => c.isAlpha || c == '_') && cs.getLast? != some ' ' &&
    cs.all fun c => c.isAlphanum || ['_', '.', ' ', '[', ']', ','].contains c

/-- Cut `Type: description`. -/
def splitType? (line : List Char) : Option (List Char × List Char) :=
  match Text.splitOnce? ':' line with
  | none => none
  | some (before, after) =>
    let type := Text.trimStart before
    let description := Text.trim after
    if isTypeText type && !description.isEmpty then some (type, description) else none

/-! ### Paragraphs -/

/-- Lines joined with spaces to paragraphs, the last of which may still grow. -/
structure Paragraphs where
  complete : List (List Char) := []
  current : List Char := []
  deriving Repr, Inhabited

namespace Paragraphs

/-- Continue the current paragraph. -/
def addLine (p : Paragraphs) (line : List Char) : Paragraphs :=
  if line.isEmpty then p
  else if p.current.isEmpty then { p with current := line }
  else { p with current := p.current ++ ' ' :: line }

/-- End the current paragraph. -/
def endParagraph (p : Paragraphs) : Paragraphs :=
  if p.current.isEmpty then p else { complete := p.complete ++ [p.current], current := [] }

/-- The paragraphs with a blank line between neighbours. -/
def text (p : Paragraphs) : String :=
  String.ofList (Text.join ['\n', '\n'] p.endParagraph.complete)

end Paragraphs
end PackageDoc
