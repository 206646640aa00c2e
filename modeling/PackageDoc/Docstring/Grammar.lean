import PackageDoc.Docstring.Entry
import PackageDoc.Text.Space

namespace PackageDoc

/-!
# The grammar of docstrings

`Docstring.parse` reads a docstring.  Its lines are cut into a description and blocks, a block
being a heading with the indented lines below it or a stretch of other lines; each block gives at
most one section.  The last block of a module may hold data, written as a YAML mapping, which a
`YamlReader` reads.  Reading a docstring never fails.
-/

/-- Lines that belong together. -/
inductive DocBlock where
  | text (lines : List (List Char))
  /-- A heading on line `row` and the lines below it. -/
  | headed (heading : Heading) (row : Nat) (body : List (List Char))
  deriving Repr, Inhabited

namespace DocBlock

/-- Does `line` continue an open block? -/
def takes : DocBlock → List Char → Bool
  | text _, line => (Heading.ofLine? line).isNone
  | .headed heading _ _, line =>
    !heading.kind.isInline && (Text.isBlank line || 0 < indentWidth line)

/-- A block with one more line. -/
def add : DocBlock → List Char → DocBlock
  | text lines, line => text (lines ++ [line])
  | .headed heading row body, line => .headed heading row (body ++ [line])

/-- The block that `line`, with the number `row`, begins. -/
def begin (row : Nat) (line : List Char) : DocBlock :=
  match Heading.ofLine? line with
  | some heading => .headed heading row []
  | none => text [line]

/-- Cut lines into blocks, `current` being the block that is not finished before line `row`. -/
def gather (current : DocBlock) (row : Nat) : List (List Char) → List DocBlock
  | [] => [current]
  | line :: rest =>
    if current.takes line then gather (current.add line) (row + 1) rest
    else current :: gather (begin row line) (row + 1) rest

end DocBlock

/-- Lines, blanks at the ends removed. -/
def trimmedText (lines : List (List Char)) : List Char :=
  Text.trim (Text.join ['\n'] lines)

/-- The lines of a body without their common indentation. -/
def verbatim (body : List (List Char)) : List Char :=
  let isBreak (c : Char) : Bool := c == '\n'
  let text := Text.join ['\n'] (body.map (cleanLine (baseIndent body)))
  ((text.dropWhile isBreak).reverse.dropWhile isBreak).reverse

/-! ### Bodies of entries -/

/-- The entries read so far, the last of which still grows. -/
structure EntryReader where
  /-- The text before the first entry. -/
  text : Paragraphs := {}
  /-- The entries and their descriptions, last first. -/
  entries : List (Entry × Paragraphs) := []
  /-- The lines that fit nowhere, last first. -/
  issues : List DocstringIssue := []
  deriving Inhabited

namespace EntryReader

/-- Change the description that grows. -/
def grow (r : EntryReader) (f : Paragraphs → Paragraphs) : EntryReader :=
  match r.entries with
  | [] => { r with text := f r.text }
  | (entry, p) :: rest => { r with entries := (entry, f p) :: rest }

/-- Read the line with number `row` of a body indented by `base`. -/
def addLine (kind : SectionKind) (base row : Nat) (r : EntryReader) (line : List Char) :
    EntryReader :=
  let content := Text.trim line
  if content.isEmpty then r.grow Paragraphs.endParagraph
  else if base < indentWidth line then r.grow (·.addLine content)
  else match Entry.ofLine? kind content with
    | some (entry, description) =>
      { r with entries := (entry, Paragraphs.addLine {} description) :: r.entries }
    | none =>
      let r := r.grow (·.addLine content)
      { r with issues := ⟨row, .notAnEntry⟩ :: r.issues }

/-- Read lines, the first of which has number `row`. -/
def addLines (kind : SectionKind) (base : Nat) :
    (row : Nat) → EntryReader → List (List Char) → EntryReader
  | _, r, [] => r
  | row, r, line :: lines => addLines kind base (row + 1) (r.addLine kind base row line) lines

/-- The body that was read. -/
def body (r : EntryReader) : SectionBody :=
  .entries (r.entries.reverse.map fun e => { e.1 with description := e.2.text }) r.text.text

end EntryReader

/-! ### Other bodies -/

/-- Read the lines of a body that describes a value; `first` until a line with text is met. -/
def readValue (type : Option (List Char)) (p : Paragraphs) (first : Bool) :
    List (List Char) → ReturnValue
  | [] => ⟨type.map String.ofList, p.text⟩
  | line :: lines =>
    let content := Text.trim line
    if content.isEmpty then readValue type p.endParagraph first lines
    else match if first then splitType? content else none with
      | some (type, description) => readValue (some type) (p.addLine description) false lines
      | none => readValue type (p.addLine content) false lines

/-- A section of plain text. -/
def Section.plain (text : List Char) : Section :=
  ⟨.text, "", none, .text (String.ofList text)⟩

/-! ### Front matter -/

/-- A reader of YAML documents. -/
class YamlReader where
  /-- The value that a text is, or the number of the line at fault. -/
  value? : (text : List Char) → Except Nat Json

/-- A line that holds nothing, or nothing but a comment. -/
def isCommentLine (line : List Char) : Bool :=
  match Text.trimStart line with
  | [] => true
  | c :: _ => c = '#'

/-- The data of a front matter block; the number of the line at fault if it is not a mapping. -/
def decodeFrontMatter [YamlReader] (text : List Char) : Except Nat (Option Json) :=
  if (Text.lines text).all isCommentLine then .ok none
  else
    match YamlReader.value? text with
    | .ok .null => .ok none
    | .ok (.obj fields) => .ok (some (.obj fields))
    | .ok _ => .error 0
    | .error line => .error line

/-- The section of a front matter block and its issues. -/
def frontMatterSection [YamlReader] (heading : Heading) (row : Nat) (body : List (List Char)) :
    Section × List DocstringIssue :=
  let text := verbatim body
  let make (data : Option Json) : Section :=
    ⟨heading.kind, heading.name, heading.version, .frontMatter (String.ofList text) data⟩
  match decodeFrontMatter text with
  | .ok data => (make data, [])
  | .error line =>
    let blank := (body.takeWhile Text.isBlank).length
    let skipped := if blank = body.length then 0 else blank
    (make none, [⟨row + 1 + skipped + line, .frontMatterNotMapping⟩])

/-- A front matter block in a place where it means nothing. -/
def degradedSection (heading : Heading) (body : List (List Char)) : Section :=
  let rest := verbatim body
  Section.plain (heading.name.toList ++ ':' :: (if rest.isEmpty then [] else '\n' :: rest))

/-! ### Sections -/

/-- The section that a block gives, with its issues. -/
def DocBlock.sections [YamlReader] (kind : DocstringKind) (isLast : Bool) :
    DocBlock → List Section × List DocstringIssue
  | text lines =>
    let text := trimmedText lines
    (if text.isEmpty then [] else [Section.plain text], [])
  | .headed heading row body =>
    let make (b : SectionBody) : List Section :=
      [⟨heading.kind, heading.name, heading.version, b⟩]
    match heading.kind with
    | .version | .typeVersion => (make (.text heading.inlineText), [])
    | .args | .attributes | .raises =>
      let r := EntryReader.addLines heading.kind (baseIndent body) (row + 1) {} body
      (make r.body, r.issues.reverse)
    | .returns | .yields => (make (.value (readValue none {} true body)), [])
    | .examples | .require | .text => (make (.text (String.ofList (verbatim body))), [])
    | .frontMatter =>
      if kind = .module && isLast then
        let r := frontMatterSection heading row body
        ([r.1], r.2)
      else ([degradedSection heading body], [⟨row, .misplacedFrontMatter⟩])

/-- The sections of blocks. -/
def DocBlock.allSections [YamlReader] (kind : DocstringKind) :
    List DocBlock → List Section × List DocstringIssue
  | [] => ([], [])
  | block :: blocks =>
    let r := block.sections kind blocks.isEmpty
    let rs := allSections kind blocks
    (r.1 ++ rs.1, r.2 ++ rs.2)

/-! ### Descriptions -/

/-- Read the lines before the first heading into `doc`. -/
def Docstring.withDescription (kind : DocstringKind) (doc : Docstring)
    (lines : List (List Char)) : Docstring :=
  match lines.dropWhile Text.isBlank with
  | [] => doc
  | first :: rest =>
    let typed := if kind = .variable then splitType? first else none
    let lines := (typed.map Prod.snd).getD first :: rest
    let (short, long) := lines.span fun l => !Text.isBlank l
    { doc with
      type := typed.map fun t => String.ofList t.1
      description := String.ofList (Text.join [' '] (short.map Text.trim))
      longDescription := String.ofList (trimmedText long) }

/-- Read the lines of a cleaned docstring. -/
def Docstring.ofLines [YamlReader] (kind : DocstringKind) : List (List Char) → Docstring
  | [] => {}
  | first :: rest =>
    let (roles, first) := takeRoles first
    let (description, others) := (first :: rest).span fun l => (Heading.ofLine? l).isNone
    let doc := Docstring.withDescription kind { roles := roles } description
    match others with
    | [] => doc
    | line :: lines =>
      let start := description.length
      let blocks := DocBlock.gather (DocBlock.begin start line) (start + 1) lines
      let (sections, issues) := DocBlock.allSections kind blocks
      { doc with sections := sections, issues := issues }

/-- Read a docstring. -/
def Docstring.parse [YamlReader] (raw : String) (kind : DocstringKind) : Docstring :=
  Docstring.ofLines kind (Text.lines (cleanDoc raw).toList)

end PackageDoc
