import PackageDoc.Docstring.Basic
import PackageDoc.Text.Space

namespace PackageDoc

/-!
# Section headings

A heading line is a known word, perhaps a version in parentheses, and a colon.  Some words are
localized.
-/

/-- The heading words and the sections that they begin. -/
def headingWords : List (String × SectionKind) :=
  [("Args", .args), ("Arguments", .args), ("Attributes", .attributes), ("Example", .examples),
   ("Examples", .examples), ("Exceptions", .raises), ("FrontMatter", .frontMatter),
   ("Parameters", .args), ("Params", .args), ("Raises", .raises), ("Require", .require),
   ("Return", .returns), ("Returns", .returns), ("Type-Version", .typeVersion),
   ("Version", .version), ("Yield", .yields), ("Yields", .yields), ("前言", .frontMatter),
   ("参数", .args), ("属性", .attributes), ("异常", .raises), ("版本", .version),
   ("生成器返回", .yields), ("用法", .examples), ("示例", .examples), ("类型版本", .typeVersion),
   ("要求", .require), ("返回", .returns)]

/-- The section that a heading word begins. -/
def SectionKind.ofHeading? (word : String) : Option SectionKind :=
  headingWords.lookup word

/-- A heading line. -/
structure Heading where
  kind : SectionKind
  name : String
  version : Option String
  /-- The text behind the colon of an inline section. -/
  inlineText : String
  deriving Repr, DecidableEq, Inhabited

/-- The characters of a version. -/
def isVersionChar (c : Char) : Bool :=
  c.isDigit || c == '.' || c == '+' || c == '-'

/-- The word before the colon and the version in parentheses behind it. -/
def headingParts? (head : List Char) : Option (List Char × Option (List Char)) :=
  match Text.splitOnce? '(' head with
  | none => some (head, none)
  | some (name, rest) =>
    match Text.stripEnd? [')'] rest with
    | some version =>
      if !version.isEmpty && version.all isVersionChar then
        some (Text.trimEnd name, some version)
      else none
    | none => none

/-- Read a heading line. -/
def Heading.ofLine? (line : List Char) : Option Heading := do
  if line.head?.any Text.isSpace then
    none
  let (head, rest) ← Text.splitOnce? ':' line
  let (name, version) ← headingParts? (Text.trimEnd head)
  if name.isEmpty || name.any Text.isSpace then
    none
  let kind ← SectionKind.ofHeading? (String.ofList name)
  let rest := Text.trim rest
  if kind.isInline then
    return ⟨kind, String.ofList name, version.map String.ofList, String.ofList rest⟩
  if rest.isEmpty then
    return ⟨kind, String.ofList name, version.map String.ofList, ""⟩
  none

end PackageDoc
