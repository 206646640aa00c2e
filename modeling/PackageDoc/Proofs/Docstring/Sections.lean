import PackageDoc.Proofs.Docstring.Entries
import Mathlib.Data.List.ReduceOption

namespace PackageDoc

/-!
# Sections and headings

What is read of a docstring goes back to its lines.  Each heading gives one section, text between
sections gives one more, and the lines in front of the first heading are the description.  Nothing
but blanks gets lost on the way: what is read of lines has their words.

* `ReadsTyped` — what is read of lines that may begin with a type;
* `SectionBody.Keeps` — what a section keeps of the lines below its heading;
* `DocBlock.Arranged` — the sections of blocks;
* `Docstring.arranges_parse` — the description and the sections of a docstring.
-/

/-! ### Texts as they stand -/

/-- What is removed in front of a line is as much of its indentation as `width` says. -/
theorem exists_stripIndent (width : Nat) (line : List Char) :
    ∃ left, Text.isBlank left = true ∧ left.length = min width (indentWidth line) ∧
      line = left ++ stripIndent width line := by
  have hle : indentWidth line ≤ line.length := (List.takeWhile_prefix Text.isSpace).length_le
  refine ⟨line.take (min width (indentWidth line)), List.all_eq_true.mpr fun c hc => ?_, ?_,
    (List.take_append_drop _ line).symm⟩
  · have htake : line.take (min width (indentWidth line)) <+: line.takeWhile Text.isSpace := by
      refine List.prefix_of_prefix_length_le (List.take_prefix _ _)
        (List.takeWhile_prefix Text.isSpace) ?_
      rw [List.length_take]
      exact (Nat.min_le_left _ _).trans (Nat.min_le_right _ _)
    exact List.mem_takeWhile_imp (htake.subset hc)
  · rw [List.length_take]
    omega

/-- Taking indentation off a line leaves its words. -/
theorem words_stripIndent (width : Nat) (line : List Char) :
    Text.words (stripIndent width line) = Text.words line := by
  obtain ⟨left, hblank, -, hline⟩ := exists_stripIndent width line
  have hwords := Text.words_blank_append hblank (stripIndent width line)
  rw [← hline] at hwords
  exact hwords.symm

/-- So does cleaning it. -/
theorem words_cleanLine (margin : Nat) (line : List Char) :
    Text.words (cleanLine margin line) = Text.words line := by
  rw [cleanLine]
  split
  · rename_i hblank
    rw [Text.words_of_isBlank hblank, Text.words_nil]
  · rw [Text.words_trimEnd, words_stripIndent]

/-- Lines without their common indentation have the same words. -/
theorem words_verbatim (body : List (List Char)) :
    Text.words (verbatim body) = body.flatMap Text.words := by
  have hbreak : ∀ c, (c == '\n') = true → Text.isSpace c = true := by
    intro c hc
    rw [beq_iff_eq.mp hc]
    rfl
  rw [verbatim, Text.words_reverse_dropWhile hbreak, Text.words_dropWhile hbreak,
    Text.words_join (List.cons_ne_nil _ _) rfl, List.flatMap_map]
  simp only [words_cleanLine]

/-- Lines joined to a text have the words of the lines. -/
theorem words_trimmedText (lines : List (List Char)) :
    Text.words (trimmedText lines) = lines.flatMap Text.words := by
  rw [trimmedText, Text.words_trim, Text.words_join (List.cons_ne_nil _ _) rfl]

/-- Blank lines have no words. -/
theorem flatMap_words_of_isBlank {lines : List (List Char)}
    (h : ∀ l ∈ lines, Text.isBlank l = true) : lines.flatMap Text.words = [] :=
  List.flatMap_eq_nil_iff.mpr fun l hl => Text.words_of_isBlank (h l hl)

/-! ### Lines that may begin with a type -/

/-- A line that begins with a type is cut at a colon. -/
theorem splitType?_eq_some {line type description : List Char}
    (h : splitType? line = some (type, description)) :
    ∃ left behind, Text.isBlank left = true ∧ line = left ++ type ++ ':' :: behind ∧
      description = Text.trim behind := by
  rw [splitType?] at h
  split at h
  · cases h
  · rename_i before behind hsplit
    obtain ⟨rfl, -⟩ := Text.splitOnce?_eq_some_iff.mp hsplit
    dsimp only at h
    split at h
    · obtain ⟨rfl, rfl⟩ := Prod.mk.inj (Option.some.inj h)
      refine ⟨before.takeWhile Text.isSpace, behind, List.all_takeWhile, ?_, rfl⟩
      rw [Text.trimStart, List.takeWhile_append_dropWhile]
    · cases h

/-- Blanks at the ends of a line do not matter. -/
theorem splitType?_trim (line : List Char) : splitType? (Text.trim line) = splitType? line := by
  obtain ⟨left, right, hleft, hright, hline⟩ := Text.exists_trim_isBlank line
  -- blanks hold no colon, so the first colon is the same
  have hcolon : ∀ {cs : List Char}, Text.isBlank cs = true → ':' ∉ cs := fun hcs hmem =>
    absurd (List.all_eq_true.mp hcs ':' hmem) (by decide)
  cases hsplit : Text.splitOnce? ':' (Text.trim line) with
  | none =>
    have hnone : Text.splitOnce? ':' line = none := by
      rw [Text.splitOnce?_eq_none_iff] at hsplit ⊢
      rw [hline]
      simp [hcolon hleft, hcolon hright, hsplit]
    rw [splitType?, splitType?, hsplit, hnone]
  | some parts =>
    obtain ⟨before, behind⟩ := parts
    obtain ⟨htrim, hbefore⟩ := Text.splitOnce?_eq_some_iff.mp hsplit
    have hwhole : Text.splitOnce? ':' line = some (left ++ before, behind ++ right) := by
      rw [Text.splitOnce?_eq_some_iff]
      refine ⟨?_, by simp [hcolon hleft, hbefore]⟩
      rw [hline, htrim]
      simp
    rw [splitType?, splitType?, hsplit, hwhole]
    dsimp only
    rw [Text.trimStart_append_left hleft, Text.trim_append_right _ hright]

/-- The type and the words that are read of lines: all words, or, where the first line that is not
    blank begins with a type, those behind the colon. -/
inductive ReadsTyped (lines : List (List Char)) : Option String → List (List Char) → Prop
  | plain (h : ∀ l ∈ lines.find? (fun l => !Text.isBlank l), splitType? l = none) :
    ReadsTyped lines none (lines.flatMap Text.words)
  | typed {blank rest : List (List Char)} {left type behind : List Char}
    (hblank : ∀ l ∈ blank, Text.isBlank l = true) (hleft : Text.isBlank left = true)
    (hsplit : splitType? (left ++ type ++ ':' :: behind) = some (type, Text.trim behind))
    (hlines : lines = blank ++ (left ++ type ++ ':' :: behind) :: rest) :
    ReadsTyped lines (some (String.ofList type)) (Text.words behind ++ rest.flatMap Text.words)

namespace ReadsTyped

variable {lines rest : List (List Char)} {line : List Char} {type : Option String}
  {words : List (List Char)}

/-- A blank line more. -/
theorem blank_cons (h : ReadsTyped lines type words) (hblank : Text.isBlank line = true) :
    ReadsTyped (line :: lines) type words := by
  cases h with
  | plain h =>
    have hwords : lines.flatMap Text.words = (line :: lines).flatMap Text.words := by
      rw [List.flatMap_cons, Text.words_of_isBlank hblank, List.nil_append]
    rw [hwords]
    exact .plain (by simpa [hblank] using h)
  | @typed blank rest left type behind hblanks hleft hsplit hlines =>
    exact .typed (List.forall_mem_cons.mpr ⟨hblank, hblanks⟩) hleft hsplit
      (congrArg (line :: ·) hlines)

/-- Blank lines in front of a type are passed. -/
theorem blank_append {blank : List (List Char)} (h : ReadsTyped lines type words)
    (hblank : ∀ l ∈ blank, Text.isBlank l = true) : ReadsTyped (blank ++ lines) type words := by
  induction blank with
  | nil => exact h
  | cons line blank ih =>
    obtain ⟨hline, hmore⟩ := List.forall_mem_cons.mp hblank
    exact (ih hmore).blank_cons hline

/-- The first line has text and no type. -/
theorem cons_plain (hfilled : Text.isBlank line = false) (hsplit : splitType? line = none) :
    ReadsTyped (line :: rest) none (Text.words line ++ rest.flatMap Text.words) := by
  rw [← List.flatMap_cons]
  exact .plain (by simp [hfilled, hsplit])

/-- The first line begins with a type. -/
theorem cons_typed {type description : List Char}
    (hsplit : splitType? line = some (type, description)) :
    ReadsTyped (line :: rest) (some (String.ofList type))
      (Text.words description ++ rest.flatMap Text.words) := by
  obtain ⟨left, behind, hleft, rfl, rfl⟩ := splitType?_eq_some hsplit
  rw [Text.words_trim]
  exact .typed (fun l hl => absurd hl List.not_mem_nil) hleft hsplit rfl

end ReadsTyped

/-! ### Values -/

/-- Behind the first text there is no type. -/
theorem readValue_rest (type : Option (List Char)) (p : Paragraphs) (lines : List (List Char)) :
    (readValue type p false lines).type = type.map String.ofList ∧
      wordsOf (readValue type p false lines).description = p.words ++ lines.flatMap Text.words := by
  induction lines generalizing p with
  | nil =>
    rw [readValue, Paragraphs.wordsOf_text, List.flatMap_nil, List.append_nil]
    exact ⟨rfl, rfl⟩
  | cons line lines ih =>
    rw [readValue, Text.isEmpty_trim, List.flatMap_cons]
    split
    · rename_i hblank
      rw [Text.words_of_isBlank hblank, List.nil_append, ← p.words_endParagraph]
      exact ih _
    · rw [← List.append_assoc, ← Text.words_trim line, ← p.words_addLine]
      exact ih _

/-- **Values.**  The first line that is not blank may begin with a type. -/
theorem readsTyped_readValue (lines : List (List Char)) :
    ReadsTyped lines (readValue none {} true lines).type
      (wordsOf (readValue none {} true lines).description) := by
  induction lines with
  | nil => exact .plain (by simp)
  | cons line lines ih =>
    rw [readValue, Text.isEmpty_trim]
    split
    · -- a blank line ends a paragraph; a type may still come
      rename_i hblank
      exact ih.blank_cons hblank
    · rename_i hfilled
      rw [if_pos rfl, splitType?_trim]
      cases hsplit : splitType? line with
      | none =>
        obtain ⟨htype, hwords⟩ :=
          readValue_rest none (Paragraphs.addLine {} (Text.trim line)) lines
        have hfirst : (Paragraphs.addLine {} (Text.trim line)).words = Text.words line := by
          rw [Paragraphs.words_addLine, Text.words_trim]
          rfl
        rw [htype, hwords, hfirst]
        exact .cons_plain (Bool.eq_false_iff.mpr hfilled) hsplit
      | some parts =>
        obtain ⟨type, description⟩ := parts
        obtain ⟨htype, hwords⟩ :=
          readValue_rest (some type) (Paragraphs.addLine {} description) lines
        have hfirst : (Paragraphs.addLine {} description).words = Text.words description :=
          Paragraphs.words_addLine {} description
        dsimp only
        rw [htype, hwords, hfirst]
        exact .cons_typed hsplit

/-! ### Descriptions -/

namespace Docstring

/-- What a docstring has of the lines in front of its sections: their words in the description, and
    the type that those of a variable may begin with. -/
def DescribedBy (kind : DocstringKind) (lines : List (List Char)) (doc : Docstring) : Prop :=
  if kind = .variable then
    ReadsTyped lines doc.type (wordsOf doc.description ++ wordsOf doc.longDescription)
  else
    doc.type = none ∧
      wordsOf doc.description ++ wordsOf doc.longDescription = lines.flatMap Text.words

/-- The first paragraph and the text below it have all words of the lines. -/
theorem words_paragraphs (lines : List (List Char)) :
    wordsOf (String.ofList (Text.join [' ']
        ((lines.span fun l => !Text.isBlank l).1.map Text.trim))) ++
      wordsOf (String.ofList (trimmedText (lines.span fun l => !Text.isBlank l).2)) =
        lines.flatMap Text.words := by
  rw [wordsOf, wordsOf, String.toList_ofList, String.toList_ofList, words_trimmedText,
    Text.words_join (List.cons_ne_nil _ _) rfl, List.flatMap_map]
  simp only [Text.words_trim]
  rw [← List.flatMap_append, List.span_eq_takeWhile_dropWhile, List.takeWhile_append_dropWhile]

/-- **Descriptions.** -/
theorem describedBy_withDescription (kind : DocstringKind) (roles : List Role)
    (lines : List (List Char)) :
    DescribedBy kind lines (Docstring.withDescription kind { roles := roles } lines) := by
  have hblank : ∀ l ∈ lines.takeWhile Text.isBlank, Text.isBlank l = true :=
    fun l hl => List.mem_takeWhile_imp hl
  have hlines : lines.takeWhile Text.isBlank ++ lines.dropWhile Text.isBlank = lines :=
    List.takeWhile_append_dropWhile
  rw [withDescription]
  split
  · -- without text there is no type to find, and no word to lose
    rename_i hnone
    rw [hnone, List.append_nil] at hlines
    rw [hlines] at hblank
    have hwords : lines.flatMap Text.words = [] := flatMap_words_of_isBlank hblank
    rw [DescribedBy]
    split
    · have hplain : ReadsTyped lines none (lines.flatMap Text.words) := by
        refine .plain fun l hl => ?_
        have hfound := List.find?_some hl
        rw [hblank l (List.mem_of_find?_eq_some hl)] at hfound
        cases hfound
      rwa [hwords] at hplain
    · exact ⟨rfl, hwords.symm⟩
  · rename_i first rest hrest
    have hfilled : Text.isBlank first = false := by
      have hnot := List.head?_dropWhile_not Text.isBlank lines
      rw [hrest] at hnot
      simpa using hnot
    have hwords : lines.flatMap Text.words = (first :: rest).flatMap Text.words := by
      rw [← hlines, List.flatMap_append, flatMap_words_of_isBlank hblank, List.nil_append, hrest]
    dsimp only
    rw [DescribedBy]
    dsimp only
    rw [words_paragraphs, List.flatMap_cons]
    -- only the docstring of a variable is searched for a type
    split
    · rw [← hlines, hrest]
      refine ReadsTyped.blank_append ?_ hblank
      cases hsplit : splitType? first with
      | none => exact .cons_plain hfilled hsplit
      | some parts => exact .cons_typed hsplit
    · rw [hwords]
      exact ⟨rfl, rfl⟩

end Docstring

/-! ### Sections -/

/-- What the body of a section keeps of the lines below its heading, the first of which has the
    number `row`. -/
def SectionBody.Keeps (heading : Heading) (row : Nat) (body : List (List Char)) :
    SectionBody → Prop
  | .entries es front => heading.kind.hasEntries = true ∧
    ∃ issues, KeepsEntries heading.kind row body es front issues
  | .value v => ReadsTyped body v.type (wordsOf v.description)
  | .text content =>
    if heading.kind.isInline then content = heading.inlineText
    else wordsOf content = body.flatMap Text.words
  | .frontMatter content _ =>
    heading.kind = .frontMatter ∧ wordsOf content = body.flatMap Text.words

namespace DocBlock

/-- The sections of blocks: one for each heading, which keeps the lines below it, and one for each
    text that is not blank, which holds its lines as they stand.  Front matter that is not the end of
    the docstring of a module is text behind its heading. -/
inductive Arranged (kind : DocstringKind) : List DocBlock → List Section → Prop
  | nil : Arranged kind [] []
  | skip {lines : List (List Char)} {blocks : List DocBlock} {sections : List Section}
    (hblank : ∀ l ∈ lines, Text.isBlank l = true) (more : Arranged kind blocks sections) :
    Arranged kind (text lines :: blocks) sections
  | free {lines : List (List Char)} {content : List Char} {blocks : List DocBlock}
    {sections : List Section} (hfilled : ∃ l ∈ lines, Text.isBlank l = false)
    (hcontent : content = Text.trim (Text.join ['\n'] lines))
    (hwords : Text.words content = lines.flatMap Text.words)
    (more : Arranged kind blocks sections) :
    Arranged kind (text lines :: blocks) (Section.plain content :: sections)
  | keep {heading : Heading} {row : Nat} {body : List (List Char)} {kept : SectionBody}
    {blocks : List DocBlock} {sections : List Section}
    (hplace : heading.kind = .frontMatter → kind = .module ∧ blocks = [])
    (hkeeps : kept.Keeps heading (row + 1) body) (more : Arranged kind blocks sections) :
    Arranged kind (headed heading row body :: blocks)
      (⟨heading.kind, heading.name, heading.version, kept⟩ :: sections)
  | degrade {heading : Heading} {row : Nat} {body : List (List Char)} {below : List Char}
    {blocks : List DocBlock} {sections : List Section} (hkind : heading.kind = .frontMatter)
    (hplace : kind ≠ .module ∨ blocks ≠ []) (hbelow : ∀ c ∈ below.head?, c = '\n')
    (hwords : Text.words below = body.flatMap Text.words) (more : Arranged kind blocks sections) :
    Arranged kind (headed heading row body :: blocks)
      (Section.plain (heading.name.toList ++ ':' :: below) :: sections)

/-- Front matter keeps its text, whatever it decodes to. -/
theorem exists_frontMatterSection [YamlReader] (heading : Heading) (row : Nat)
    (body : List (List Char)) :
    ∃ data, (frontMatterSection heading row body).1 =
      ⟨heading.kind, heading.name, heading.version,
        .frontMatter (String.ofList (verbatim body)) data⟩ := by
  unfold frontMatterSection
  dsimp only
  split <;> exact ⟨_, rfl⟩

/-- What stands behind the heading of front matter that means nothing. -/
theorem exists_degradedSection (heading : Heading) (body : List (List Char)) :
    ∃ below, degradedSection heading body =
        Section.plain (heading.name.toList ++ ':' :: below) ∧
      (∀ c ∈ below.head?, c = '\n') ∧ Text.words below = body.flatMap Text.words := by
  refine ⟨if (verbatim body).isEmpty then [] else '\n' :: verbatim body, rfl, ?_⟩
  rw [← words_verbatim]
  split
  · rename_i hnone
    rw [List.isEmpty_iff.mp hnone]
    exact ⟨by simp, rfl⟩
  · exact ⟨by simp, Text.words_cons_blank rfl _⟩

/-- Whatever is no front matter keeps the lines below its heading. -/
theorem exists_keeps [YamlReader] {heading : Heading} (h : heading.kind ≠ .frontMatter) (row : Nat)
    (body : List (List Char)) (kind : DocstringKind) (isLast : Bool) :
    ∃ kept : SectionBody, ((headed heading row body).sections kind isLast).1 =
        [⟨heading.kind, heading.name, heading.version, kept⟩] ∧
      kept.Keeps heading (row + 1) body := by
  cases hkind : heading.kind with
  | version | typeVersion =>
    refine ⟨.text heading.inlineText, by rw [sections, hkind], ?_⟩
    rw [SectionBody.Keeps, hkind]
    rfl
  | args | attributes | raises =>
    have hentries : heading.kind.hasEntries = true := by rw [hkind]; rfl
    obtain ⟨entries, text, issues, hsections, hkeeps⟩ :=
      sections_entries hentries row body kind isLast
    exact ⟨.entries entries text, by rw [hsections, hkind], hentries, issues, hkeeps⟩
  | returns | yields =>
    exact ⟨.value (readValue none {} true body), by rw [sections, hkind],
      readsTyped_readValue body⟩
  | examples | require | text =>
    refine ⟨.text (String.ofList (verbatim body)), by rw [sections, hkind], ?_⟩
    rw [SectionBody.Keeps, hkind, wordsOf, String.toList_ofList]
    exact (if_neg Bool.false_ne_true).mpr (words_verbatim body)
  | frontMatter => exact absurd hkind h

variable {kind : DocstringKind} {blocks : List DocBlock} {sections : List Section}

/-- A block of text in front of arranged ones is arranged. -/
theorem Arranged.cons_text [YamlReader] (lines : List (List Char))
    (h : Arranged kind blocks sections) :
    Arranged kind (text lines :: blocks)
      (((text lines).sections kind blocks.isEmpty).1 ++ sections) := by
  have hblank : (trimmedText lines).isEmpty = lines.all Text.isBlank := by
    rw [trimmedText, Text.isEmpty_trim, Text.isBlank_join rfl]
  rw [DocBlock.sections]
  dsimp only
  rw [hblank]
  cases hall : lines.all Text.isBlank with
  | true => exact .skip (List.all_eq_true.mp hall) h
  | false =>
    have hfilled : ∃ l ∈ lines, Text.isBlank l = false := by simpa using hall
    exact .free hfilled rfl (words_trimmedText lines) h

/-- So is a block with a heading. -/
theorem Arranged.cons_headed [YamlReader] (heading : Heading) (row : Nat) (body : List (List Char))
    (h : Arranged kind blocks sections) :
    Arranged kind (headed heading row body :: blocks)
      (((headed heading row body).sections kind blocks.isEmpty).1 ++ sections) := by
  -- front matter is kept only at the beginning of a module
  by_cases hkind : heading.kind = .frontMatter
  · by_cases hplace : kind = .module ∧ blocks = []
    · obtain ⟨rfl, rfl⟩ := hplace
      obtain ⟨data, hsection⟩ := exists_frontMatterSection heading row body
      have hsections : ((headed heading row body).sections .module true).1 =
          [(frontMatterSection heading row body).1] := by
        rw [DocBlock.sections, hkind]
        rfl
      rw [List.isEmpty_nil, hsections, hsection]
      refine .keep (fun _ => ⟨rfl, rfl⟩) ⟨hkind, ?_⟩ h
      rw [wordsOf, String.toList_ofList, words_verbatim]
    · have hsections : ((headed heading row body).sections kind blocks.isEmpty).1 =
          [degradedSection heading body] := by
        rw [DocBlock.sections, hkind]
        dsimp only
        rw [if_neg (by simpa using hplace)]
      obtain ⟨below, hsection, hbelow, hwords⟩ := exists_degradedSection heading body
      rw [hsections, hsection]
      exact .degrade hkind (not_and_or.mp hplace) hbelow hwords h
  · obtain ⟨kept, hsections, hkeeps⟩ := exists_keeps hkind row body kind blocks.isEmpty
    rw [hsections]
    exact .keep (fun hfront => absurd hfront hkind) hkeeps h

/-- **The sections of blocks.** -/
theorem arranged_allSections [YamlReader] (kind : DocstringKind) (blocks : List DocBlock) :
    Arranged kind blocks (allSections kind blocks).1 := by
  induction blocks with
  | nil => exact .nil
  | cons block blocks ih =>
    cases block with
    | text lines => exact ih.cons_text lines
    | headed heading row body => exact ih.cons_headed heading row body

end DocBlock

/-- The heading of a section.  Text between sections has none; front matter that means nothing is
    text that begins with its heading. -/
inductive Section.HeadedBy : Option Heading → Section → Prop
  | free (content : List Char) : HeadedBy none (Section.plain content)
  | own (heading : Heading) (kept : SectionBody) :
    HeadedBy (some heading) ⟨heading.kind, heading.name, heading.version, kept⟩
  | within {heading : Heading} (hkind : heading.kind = .frontMatter) (below : List Char) :
    HeadedBy (some heading) (Section.plain (heading.name.toList ++ ':' :: below))

namespace DocBlock.Arranged

variable {kind : DocstringKind} {blocks : List DocBlock} {sections : List Section}

/-- The headings of the sections are those of the blocks. -/
theorem exists_headings (h : Arranged kind blocks sections) :
    ∃ headings : List (Option Heading), List.Forall₂ Section.HeadedBy headings sections ∧
      headings.reduceOption = blocks.filterMap heading? := by
  induction h with
  | nil => exact ⟨[], .nil, rfl⟩
  | skip hblank more ih => exact ih
  | free hfilled hcontent hwords more ih =>
    obtain ⟨headings, hheaded, hheadings⟩ := ih
    exact ⟨none :: headings, .cons (.free _) hheaded, hheadings⟩
  | @keep heading row body kept blocks sections hplace hkeeps more ih =>
    obtain ⟨headings, hheaded, hheadings⟩ := ih
    refine ⟨some heading :: headings, .cons (.own heading kept) hheaded, ?_⟩
    rw [List.reduceOption_cons_of_some, hheadings]
    rfl
  | @degrade heading row body below blocks sections hkind hplace hbelow hwords more ih =>
    obtain ⟨headings, hheaded, hheadings⟩ := ih
    refine ⟨some heading :: headings, .cons (.within hkind below) hheaded, ?_⟩
    rw [List.reduceOption_cons_of_some, hheadings]
    rfl

/-- Front matter is only in the docstring of a module. -/
theorem kind_eq_module (h : Arranged kind blocks sections) {s : Section} (hs : s ∈ sections)
    (hfront : s.kind = .frontMatter) : kind = .module := by
  induction h with
  | nil => exact absurd hs List.not_mem_nil
  | skip hblank more ih => exact ih hs
  | free hfilled hcontent hwords more ih =>
    rcases List.mem_cons.mp hs with rfl | hs
    · cases hfront
    · exact ih hs
  | keep hplace hkeeps more ih =>
    rcases List.mem_cons.mp hs with rfl | hs
    · exact (hplace hfront).1
    · exact ih hs
  | degrade hkind hplace hbelow hwords more ih =>
    rcases List.mem_cons.mp hs with rfl | hs
    · cases hfront
    · exact ih hs

/-- Nothing stands behind front matter. -/
theorem kind_ne_frontMatter (h : Arranged kind blocks sections) :
    ∀ s ∈ sections.dropLast, s.kind ≠ .frontMatter := by
  -- a section may precede others that are in order when it is no front matter or the last one
  have hcons : ∀ {s : Section} {sections : List Section},
      (∀ t ∈ sections.dropLast, t.kind ≠ .frontMatter) →
        (s.kind = .frontMatter → sections = []) →
          ∀ t ∈ (s :: sections).dropLast, t.kind ≠ .frontMatter := by
    intro s sections hsections hs t ht hfront
    cases sections with
    | nil => exact absurd ht List.not_mem_nil
    | cons s' sections =>
      rcases List.mem_cons.mp ht with rfl | ht
      · cases hs hfront
      · exact hsections t ht hfront
  induction h with
  | nil => exact fun s hs => absurd hs List.not_mem_nil
  | skip hblank more ih => exact ih
  | free hfilled hcontent hwords more ih => exact hcons ih nofun
  | keep hplace hkeeps more ih =>
    refine hcons ih fun hfront => ?_
    obtain ⟨-, rfl⟩ := hplace hfront
    cases more
    rfl
  | degrade hkind hplace hbelow hwords more ih => exact hcons ih nofun

end DocBlock.Arranged

namespace Docstring

/-- The description and the sections of a docstring, and the lines that they go back to. -/
structure Arranges (kind : DocstringKind) (lines description : List (List Char))
    (blocks : List DocBlock) (doc : Docstring) : Prop where
  divides : Divides lines description blocks
  described : doc.DescribedBy kind description
  arranged : DocBlock.Arranged kind blocks doc.sections
  /-- The lines that are headings are the headings of the sections. -/
  headings : ∃ headings : List (Option Heading),
    List.Forall₂ Section.HeadedBy headings doc.sections ∧
      headings.reduceOption = lines.filterMap Heading.ofLine?
  frontMatter : ∀ s ∈ doc.sections, s.kind = .frontMatter → kind = .module
  /-- Front matter is the last section, so that there is no more than one. -/
  last : ∀ s ∈ doc.sections.dropLast, s.kind ≠ .frontMatter

/-- **No line is lost.**  The lines of a docstring, behind its roles, are divided into those of the
    description and blocks; the description and the sections keep their words, each section under
    its heading. -/
theorem arranges_parse [YamlReader] (raw : String) (kind : DocstringKind) :
    ∃ description blocks,
      Arranges kind (bareLines (Text.lines (cleanDoc raw).toList)) description blocks
        (parse raw kind) := by
  obtain ⟨roles, description, blocks, hdivides, hread⟩ :=
    exists_divides kind (Text.lines (cleanDoc raw).toList)
  have harranged := DocBlock.arranged_allSections kind blocks
  refine ⟨description, blocks, ?_⟩
  rw [parse, hread]
  exact {
    divides := hdivides
    described := describedBy_withDescription kind roles description
    arranged := harranged
    headings := by
      rw [hdivides.filterMap_heading]
      exact harranged.exists_headings
    frontMatter := fun s hs hfront => harranged.kind_eq_module hs hfront
    last := harranged.kind_ne_frontMatter }

end Docstring
end PackageDoc
