import PackageDoc.Json.Basic

namespace PackageDoc

/-!
# Docstrings

The structure of a docstring: a description, then sections that begin with a heading line.  What
does not fit the grammar stays as text and is listed in `Docstring.issues`.
-/

/-- What a docstring documents. -/
inductive DocstringKind where
  | module | classDef | function | variable
  deriving Repr, DecidableEq, Inhabited

/-- The kinds of sections. -/
inductive SectionKind where
  | args | attributes | examples | frontMatter | raises | returns | require | yields | version
  | typeVersion | text
  deriving Repr, DecidableEq, Inhabited

/-- Sections whose value stands on the heading line. -/
def SectionKind.isInline : SectionKind → Bool
  | version | typeVersion => true
  | _ => false

/-- Markup of a name in braces with a content between backticks. -/
structure Role where
  name : String
  content : String
  deriving Repr, DecidableEq, Inhabited

/-- A described name: `name (annotation) roles: description`. -/
structure Entry where
  /-- With its stars if it is a variadic argument. -/
  name : String
  type : Option String
  roles : List Role
  /-- Paragraphs, each on one line. -/
  description : String
  deriving Repr, DecidableEq, Inhabited

/-- What a function returns or yields. -/
structure ReturnValue where
  type : Option String
  description : String
  deriving Repr, DecidableEq, Inhabited

/-- The body of a section. -/
inductive SectionBody where
  /-- Entries and the text before the first of them. -/
  | entries (entries : List Entry) (text : String)
  | value (value : ReturnValue)
  | text (text : String)
  /-- Metadata as written and, if it is a mapping, decoded. -/
  | frontMatter (text : String) (data : Option Json)
  deriving Repr, Inhabited

/-- A section. -/
structure Section where
  kind : SectionKind
  /-- The heading as written; empty for text between sections. -/
  heading : String
  /-- The version in `Heading (1.2+):`. -/
  version : Option String
  body : SectionBody
  deriving Repr, Inhabited

/-- How a docstring can fail to fit the grammar. -/
inductive GrammarMismatch where
  | misplacedFrontMatter
  | frontMatterNotMapping
  | notAnEntry
  deriving Repr, DecidableEq, Inhabited

/-- The wording of a mismatch. -/
def GrammarMismatch.message : GrammarMismatch → String
  | misplacedFrontMatter =>
    "front matter is only recognized as the last block of a module docstring"
  | frontMatterNotMapping => "front matter is not a YAML mapping"
  | notAnEntry => "line does not match the entry grammar"

/-- A mismatch and the line of the cleaned docstring, counted from 0, that shows it. -/
structure DocstringIssue where
  line : Nat
  mismatch : GrammarMismatch
  deriving Repr, DecidableEq, Inhabited

/-- A docstring, parsed. -/
structure Docstring where
  /-- The roles before the first line. -/
  roles : List Role := []
  /-- The type before the first line of a variable's docstring. -/
  type : Option String := none
  /-- The first paragraph. -/
  description : String := ""
  /-- The rest of the text before the first section. -/
  longDescription : String := ""
  sections : List Section := []
  issues : List DocstringIssue := []
  deriving Repr, Inhabited

/-- The entries of the first section of a kind. -/
def Docstring.entries (doc : Docstring) (kind : SectionKind) : List Entry :=
  match doc.sections.find? fun s => s.kind == kind with
  | some ⟨_, _, _, .entries entries _⟩ => entries
  | _ => []

end PackageDoc
