import PackageDoc.Proofs.Docstring.Division
import PackageDoc.Proofs.Docstring.Roundtrip
import Mathlib.Data.List.Forall2

namespace PackageDoc

/-!
# Entries keep the words

The body of a section with entries is read line by line.  Each line goes to the text in front of the
entries or to the entry that grows, and no word gets lost, doubled or out of order on the way; what
stands in front of the colon of a line that begins an entry becomes that entry.

* `Entry.exists_colon` — a line that begins an entry has a colon;
* `EntryReader.addLine_cases` — what becomes of a line;
* `EntryReader.Reads` — what has been read of some lines, kept by each further line;
* `Docstring.parse_keepsEntries` — the sections with entries in a docstring.
-/

/-- The kinds of sections that hold entries. -/
def SectionKind.hasEntries : SectionKind → Bool
  | args | attributes | raises => true
  | _ => false

/-- The words of a text that is read as a `String`. -/
def wordsOf (s : String) : List (List Char) :=
  Text.words s.toList

/-! ### Lines that begin entries -/

section Suffixes

variable {cs rest : List Char}

/-- Trimming in front leaves an end of the text. -/
theorem trimStart_suffix (cs : List Char) : Text.trimStart cs <:+ cs :=
  List.dropWhile_suffix _

/-- So does cutting a run off. -/
theorem span_suffix (p : Char → Bool) (cs : List Char) : (cs.span p).2 <:+ cs := by
  rw [List.span_eq_takeWhile_dropWhile]
  exact List.dropWhile_suffix p

/-- So does cutting a prefix off. -/
theorem stripStart?_suffix {p : List Char} (h : Text.stripStart? p cs = some rest) : rest <:+ cs :=
  ⟨p, (stripStart?_eq_some.mp h).symm⟩

/-- So does splitting at a separator. -/
theorem splitOnce?_suffix {sep : Char} {before : List Char}
    (h : Text.splitOnce? sep cs = some (before, rest)) : rest <:+ cs := by
  obtain ⟨rfl, -⟩ := Text.splitOnce?_eq_some_iff.mp h
  exact (List.suffix_cons sep rest).trans (List.suffix_append before _)

/-- So does reading up to a closing parenthesis. -/
theorem spanParens_suffix {depth : Nat} {inside : List Char}
    (h : spanParens depth cs = some (inside, rest)) : rest <:+ cs := by
  induction cs generalizing depth inside with
  | nil => cases h
  | cons c cs ih =>
    have hmore : ∀ {d : Nat}, (spanParens d cs).map (fun r => (c :: r.1, r.2)) =
        some (inside, rest) → rest <:+ c :: cs := by
      intro d hd
      obtain ⟨⟨inside', rest'⟩, hspan, heq⟩ := Option.map_eq_some_iff.mp hd
      obtain ⟨-, rfl⟩ := Prod.mk.inj heq
      exact (ih hspan).trans (List.suffix_cons c cs)
    rw [spanParens] at h
    dsimp only at h
    split_ifs at h
    · exact hmore h
    · obtain ⟨-, rfl⟩ := Prod.mk.inj (Option.some.inj h)
      exact List.suffix_cons c cs
    · exact hmore h
    · exact hmore h

/-- So does reading a role. -/
theorem takeRole?_suffix {role : Role} (h : takeRole? cs = some (role, rest)) : rest <:+ cs := by
  simp [takeRole?, Option.bind_eq_some_iff] at h
  obtain ⟨inside, hbrace, name, behind, hname, -, quoted, htick, content, hcontent, -⟩ := h
  exact (splitOnce?_suffix hcontent).trans <| (stripStart?_suffix htick).trans <|
    (splitOnce?_suffix hname).trans <| (stripStart?_suffix hbrace).trans (trimStart_suffix cs)

/-- So does reading several roles. -/
theorem takeRolesUpTo_suffix (n : Nat) (cs : List Char) : (takeRolesUpTo n cs).2 <:+ cs := by
  induction n generalizing cs with
  | zero => exact List.suffix_refl cs
  | succ n ih =>
    rw [takeRolesUpTo]
    split
    · exact List.suffix_refl cs
    · rename_i role behind hrole
      exact (ih behind).trans (takeRole?_suffix hrole)

/-- So does reading all of them. -/
theorem takeRoles_suffix (cs : List Char) : (takeRoles cs).2 <:+ cs :=
  (trimStart_suffix _).trans (takeRolesUpTo_suffix _ _)

/-- So does reading the name of an entry. -/
theorem takeName?_suffix {name : List Char} (h : takeName? cs = some (name, rest)) :
    rest <:+ cs := by
  unfold takeName? at h
  dsimp only at h
  split at h
  · cases h
  · have hrest : (cs.span isWordChar).2 = rest := by rw [Option.some.inj h]
    rw [← hrest]
    exact span_suffix _ _

/-- So does reading it as its section has it. -/
theorem takeEntryName?_suffix {kind : SectionKind} {name : List Char}
    (h : takeEntryName? kind cs = some (name, rest)) : rest <:+ cs := by
  unfold takeEntryName? at h
  split at h
  -- the name of an exception may have dots, that of an argument stars in front
  · dsimp only at h
    split at h
    · cases h
    · obtain rfl := congrArg Prod.snd (Option.some.inj h)
      exact span_suffix _ _
  · dsimp only at h
    split at h
    · cases h
    · obtain ⟨⟨name', rest'⟩, hname, heq⟩ := Option.map_eq_some_iff.mp h
      obtain ⟨-, rfl⟩ := Prod.mk.inj heq
      exact (takeName?_suffix hname).trans (span_suffix _ _)
  · exact takeName?_suffix h

/-- So does reading the type of an entry. -/
theorem takeType?_suffix {type : Option (List Char)} (h : takeType? cs = some (type, rest)) :
    rest <:+ cs := by
  unfold takeType? at h
  split at h
  · obtain ⟨⟨inside, behind⟩, hspan, heq⟩ := Option.map_eq_some_iff.mp h
    obtain ⟨-, rfl⟩ := Prod.mk.inj heq
    exact (trimStart_suffix _).trans ((spanParens_suffix hspan).trans (List.suffix_cons _ _))
  · obtain ⟨-, rfl⟩ := Prod.mk.inj (Option.some.inj h)
    exact List.suffix_refl cs

end Suffixes

namespace Entry

variable {kind : SectionKind} {entry : Entry} {line description : List Char}

/-- A line that begins an entry has a colon, and what is left of it to describe the entry is what
    stands behind that colon. -/
theorem exists_colon (h : ofLine? kind line = some (entry, description)) :
    ∃ head behind, line = head ++ ':' :: behind ∧ description = Text.trim behind ∧
      entry.description = "" := by
  -- whatever is read in front of the roles, the colon stands behind them
  have hcolon : ∀ (markup : List Char) (type : Option (List Char)) (name : List Char),
      markup <:+ line → ((Text.stripStart? [':'] (takeRoles markup).2).bind fun behind =>
        some (({ name := String.ofList name, type := type.map String.ofList,
                 roles := (takeRoles markup).1, description := "" } : Entry), Text.trim behind)) =
          some (entry, description) →
        ∃ head behind, line = head ++ ':' :: behind ∧ description = Text.trim behind ∧
          entry.description = "" := by
    intro markup type name hsuffix hentry
    obtain ⟨behind, hbehind, heq⟩ := Option.bind_eq_some_iff.mp hentry
    obtain ⟨rfl, rfl⟩ := Prod.mk.inj (Option.some.inj heq)
    have hmarkup : (takeRoles markup).2 = ':' :: behind := stripStart?_eq_some.mp hbehind
    obtain ⟨head, hhead⟩ := (takeRoles_suffix markup).trans hsuffix
    exact ⟨head, behind, by rw [← hhead, hmarkup], rfl, rfl⟩
  simp only [ofLine?, Option.bind_eq_bind, Option.bind_eq_some_iff] at h
  obtain ⟨⟨name, rest⟩, hname, h⟩ := h
  have hrest : Text.trimStart rest <:+ line :=
    (trimStart_suffix rest).trans (takeEntryName?_suffix hname)
  split at h
  · exact hcolon _ none name hrest h
  · obtain ⟨⟨type, behind⟩, htype, h⟩ := Option.bind_eq_some_iff.mp h
    exact hcolon behind type name ((takeType?_suffix htype).trans hrest) h

end Entry

/-! ### What a line gives -/

/-- A line that holds something and is indented as little as any such line, so that it is to begin
    an entry. -/
def isBaseLine (base : Nat) (line : List Char) : Bool :=
  !Text.isBlank line && indentWidth line == base

/-- The entry that a line begins, and what describes it behind the colon. -/
def Entry.begunBy? (kind : SectionKind) (base : Nat) (line : List Char) :
    Option (Entry × List Char) :=
  if isBaseLine base line then ofLine? kind (Text.trim line) else none

/-- The words that a line gives: all, or those behind the colon where it begins an entry. -/
def wordsGiven (kind : SectionKind) (base : Nat) (line : List Char) : List (List Char) :=
  match Entry.begunBy? kind base line with
  | some (_, description) => Text.words description
  | none => Text.words line

/-- The line is to begin an entry and does not. -/
def isMismatch (kind : SectionKind) (base : Nat) (line : List Char) : Bool :=
  isBaseLine base line && (Entry.ofLine? kind (Text.trim line)).isNone

section BaseLines

variable {kind : SectionKind} {base : Nat} {line : List Char}

/-- A blank line begins no entry. -/
theorem isBaseLine_of_isBlank (h : Text.isBlank line = true) : isBaseLine base line = false := by
  rw [isBaseLine, h]
  rfl

/-- Nor does one that is indented deeper. -/
theorem isBaseLine_of_deeper (h : base < indentWidth line) : isBaseLine base line = false := by
  rw [isBaseLine, beq_eq_false_iff_ne.mpr (Nat.ne_of_gt h), Bool.and_false]

/-- A line that does not stand at the base begins nothing. -/
theorem Entry.begunBy?_eq_none (h : isBaseLine base line = false) :
    begunBy? kind base line = none := by
  rw [begunBy?, h, if_neg Bool.false_ne_true]

/-- Nor is it taken for a wrong entry. -/
theorem isMismatch_eq_false (h : isBaseLine base line = false) :
    isMismatch kind base line = false := by
  rw [isMismatch, h, Bool.false_and]

end BaseLines

/-- No line that holds something is indented less than the base. -/
theorem baseIndent_le {lines : List (List Char)} {line : List Char} (hmem : line ∈ lines)
    (hfilled : Text.isBlank line = false) : baseIndent lines ≤ indentWidth line := by
  have hwidth : indentWidth line ∈
      (lines.filter fun l => !Text.isBlank l).map indentWidth :=
    List.mem_map_of_mem (List.mem_filter.mpr ⟨hmem, by rw [hfilled]; rfl⟩)
  rw [baseIndent]
  cases hmin : ((lines.filter fun l => !Text.isBlank l).map indentWidth).min? with
  | none => exact Nat.zero_le _
  | some least => exact (List.min?_eq_some_iff.mp hmin).2 _ hwidth

/-! ### Paragraphs -/

namespace Paragraphs

/-- The words of paragraphs. -/
def words (p : Paragraphs) : List (List Char) :=
  p.complete.flatMap Text.words ++ Text.words p.current

/-- A line that is added brings its words. -/
theorem words_addLine (p : Paragraphs) (line : List Char) :
    (p.addLine line).words = p.words ++ Text.words line := by
  obtain ⟨complete, current⟩ := p
  rw [addLine]
  dsimp only
  split
  · rename_i hline
    rw [List.isEmpty_iff.mp hline, Text.words_nil, List.append_nil]
  split
  · rename_i hcurrent
    rw [List.isEmpty_iff.mp hcurrent]
    simp [words]
  · rw [words, Text.words_append_blank rfl, words, List.append_assoc]

/-- The end of a paragraph brings none. -/
theorem words_endParagraph (p : Paragraphs) : p.endParagraph.words = p.words := by
  rw [endParagraph]
  split
  · rfl
  · simp [words]

/-- A blank line ends the paragraph. -/
theorem read_of_isBlank {line : List Char} (h : Text.isBlank line = true) (p : Paragraphs) :
    p.read line = p.endParagraph := by
  rw [read, Text.isEmpty_trim, if_pos h]

/-- Any other line is added without its blanks. -/
theorem read_of_filled {line : List Char} (h : Text.isBlank line = false) (p : Paragraphs) :
    p.read line = p.addLine (Text.trim line) := by
  rw [read, Text.isEmpty_trim, h, if_neg Bool.false_ne_true]

/-- Reading a line brings its words and no others. -/
theorem words_read (p : Paragraphs) (line : List Char) :
    (p.read line).words = p.words ++ Text.words line := by
  cases hblank : Text.isBlank line with
  | true =>
    rw [read_of_isBlank hblank, words_endParagraph, Text.words_of_isBlank hblank, List.append_nil]
  | false => rw [read_of_filled hblank, words_addLine, Text.words_trim]

/-- The text of paragraphs has their words. -/
theorem wordsOf_text (p : Paragraphs) : wordsOf p.text = p.words := by
  have hcurrent : p.endParagraph.current = [] := by
    rw [endParagraph]
    split
    · rename_i h
      exact List.isEmpty_iff.mp h
    · rfl
  rw [wordsOf, text, String.toList_ofList, Text.words_join (List.cons_ne_nil _ _) rfl,
    ← p.words_endParagraph, words, hcurrent, Text.words_nil, List.append_nil]

end Paragraphs

/-! ### Reading line by line -/

namespace EntryReader

variable {kind : SectionKind} {base row : Nat} {line : List Char}

/-- The words read so far, in order. -/
def words (r : EntryReader) : List (List Char) :=
  r.text.words ++ r.entries.reverse.flatMap fun e => e.2.words

/-- The entries read so far, in order and without their descriptions. -/
def begun (r : EntryReader) : List Entry :=
  r.entries.reverse.map Prod.fst

/-- Text that goes on under an entry begins no new one. -/
theorem begun_grow (r : EntryReader) (f : Paragraphs → Paragraphs) :
    (r.grow f).begun = r.begun := by
  unfold grow
  split
  · rfl
  · rename_i h
    simp [begun, h]

/-- Nor does it report anything. -/
theorem issues_grow (r : EntryReader) (f : Paragraphs → Paragraphs) :
    (r.grow f).issues = r.issues := by
  unfold grow
  split <;> rfl

/-- The words of a line are added behind all others. -/
theorem words_grow (r : EntryReader) (line : List Char) :
    (r.grow (·.read line)).words = r.words ++ Text.words line := by
  unfold grow
  split
  · rename_i h
    simp [words, h, Paragraphs.words_read]
  · rename_i h
    simp [words, h, Paragraphs.words_read]

/-- What becomes of a line: it begins an entry, or what grows goes on with it, and it is reported if
    it was to begin one. -/
theorem addLine_cases (kind : SectionKind) (row : Nat) (r : EntryReader)
    (hbase : Text.isBlank line = false → base ≤ indentWidth line) :
    (∃ entry description, Entry.begunBy? kind base line = some (entry, description) ∧
      isMismatch kind base line = false ∧ r.addLine kind base row line =
        { r with entries := (entry, Paragraphs.addLine {} description) :: r.entries }) ∨
    (Entry.begunBy? kind base line = none ∧ isMismatch kind base line = false ∧
      r.addLine kind base row line = r.grow (·.read line)) ∨
    (Entry.begunBy? kind base line = none ∧ isMismatch kind base line = true ∧
      r.addLine kind base row line =
        { r.grow (·.read line) with
          issues := ⟨row, .notAnEntry⟩ :: (r.grow (·.read line)).issues }) := by
  rw [addLine]
  dsimp only
  rw [Text.isEmpty_trim]
  cases hblank : Text.isBlank line with
  | true =>
    -- a blank line ends a paragraph, which is what reading it comes to
    have hread : (fun p : Paragraphs => p.read line) = Paragraphs.endParagraph :=
      funext (Paragraphs.read_of_isBlank hblank)
    have hbaseLine : isBaseLine base line = false := isBaseLine_of_isBlank hblank
    rw [if_pos rfl, hread]
    exact .inr (.inl ⟨Entry.begunBy?_eq_none hbaseLine, isMismatch_eq_false hbaseLine, rfl⟩)
  | false =>
    have hread : (fun p : Paragraphs => p.read line) = (·.addLine (Text.trim line)) :=
      funext (Paragraphs.read_of_filled hblank)
    rw [if_neg Bool.false_ne_true, ← hread]
    -- no line of the body is indented less than the base, so that one not deeper is a base line
    by_cases hdeeper : base < indentWidth line
    · have hbaseLine : isBaseLine base line = false := isBaseLine_of_deeper hdeeper
      exact .inr (.inl ⟨Entry.begunBy?_eq_none hbaseLine, isMismatch_eq_false hbaseLine,
        if_pos hdeeper⟩)
    · have hbaseLine : isBaseLine base line = true := by
        have hwidth : indentWidth line = base :=
          Nat.le_antisymm (Nat.not_lt.mp hdeeper) (hbase hblank)
        rw [isBaseLine, hblank, hwidth, beq_self_eq_true]
        rfl
      rw [if_neg hdeeper, Entry.begunBy?, if_pos hbaseLine, isMismatch, hbaseLine, Bool.true_and]
      cases hentry : Entry.ofLine? kind (Text.trim line) with
      | some begun => exact .inl ⟨begun.1, begun.2, rfl, rfl, rfl⟩
      | none => exact .inr (.inr ⟨rfl, rfl, rfl⟩)

/-- What has been read of some lines, the first of which has the number `row`: their words, the
    entries that they begin and the lines that were to begin one. -/
structure Reads (kind : SectionKind) (base row : Nat) (lines : List (List Char))
    (r : EntryReader) : Prop where
  words : r.words = lines.flatMap (wordsGiven kind base)
  begun : r.begun = lines.filterMap fun l => (Entry.begunBy? kind base l).map Prod.fst
  issues : r.issues.reverse = (lines.zipIdx row).filterMap fun l =>
    if isMismatch kind base l.1 then some ⟨l.2, .notAnEntry⟩ else none

variable {lines : List (List Char)} {r : EntryReader}

theorem Reads.nil : Reads kind base row [] {} :=
  ⟨rfl, rfl, rfl⟩

/-- **One line more.** -/
theorem Reads.addLine (h : Reads kind base row lines r)
    (hbase : Text.isBlank line = false → base ≤ indentWidth line) :
    Reads kind base row (lines ++ [line]) (r.addLine kind base (row + lines.length) line) := by
  have hwords : (lines ++ [line]).flatMap (wordsGiven kind base) =
      r.words ++ wordsGiven kind base line := by
    rw [List.flatMap_append, List.flatMap_singleton, h.words]
  have hone : ∀ {α β : Type} (f : α → Option β) (a : α), [a].filterMap f = (f a).toList :=
    fun f a => by cases hf : f a <;> simp [hf]
  have hbegun : ((lines ++ [line]).filterMap fun l => (Entry.begunBy? kind base l).map Prod.fst) =
      r.begun ++ ((Entry.begunBy? kind base line).map Prod.fst).toList := by
    rw [List.filterMap_append, h.begun, hone]
  have hissues : (((lines ++ [line]).zipIdx row).filterMap fun l =>
      if isMismatch kind base l.1 then some (⟨l.2, .notAnEntry⟩ : DocstringIssue) else none) =
        r.issues.reverse ++
          if isMismatch kind base line then [⟨row + lines.length, .notAnEntry⟩] else [] := by
    rw [List.zipIdx_append, List.filterMap_append, h.issues, List.zipIdx_singleton, hone]
    split <;> rfl
  rcases addLine_cases kind (row + lines.length) r hbase with
    ⟨entry, description, hentry, hmatch, hadd⟩ | ⟨hentry, hmatch, hadd⟩ | ⟨hentry, hmatch, hadd⟩
  -- the line begins an entry
  · refine ⟨?_, ?_, ?_⟩
    · have hfirst : (Paragraphs.addLine {} description).words = Text.words description :=
        Paragraphs.words_addLine {} description
      rw [hwords, wordsGiven, hentry, hadd]
      simp [EntryReader.words, hfirst]
    · rw [hbegun, hentry, hadd]
      simp [EntryReader.begun]
    · rw [hissues, hmatch, hadd, if_neg Bool.false_ne_true, List.append_nil]
  -- it goes on with the last one
  · refine ⟨?_, ?_, ?_⟩
    · rw [hwords, wordsGiven, hentry, hadd, words_grow]
    · rw [hbegun, hentry, hadd, begun_grow]
      simp
    · rw [hissues, hmatch, hadd, issues_grow, if_neg Bool.false_ne_true, List.append_nil]
  -- it does neither: the words are kept and the line is reported
  · refine ⟨?_, ?_, ?_⟩
    · rw [hwords, wordsGiven, hentry, hadd]
      exact words_grow r line
    · rw [hbegun, hentry, hadd]
      exact (begun_grow r _).trans (by simp)
    · rw [hissues, hmatch, hadd, issues_grow, if_pos rfl, List.reverse_cons]

/-- **All lines.** -/
theorem Reads.addLines {more : List (List Char)} (h : Reads kind base row lines r)
    (hbase : ∀ l ∈ more, Text.isBlank l = false → base ≤ indentWidth l) :
    Reads kind base row (lines ++ more) (r.addLines kind base (row + lines.length) more) := by
  induction more generalizing lines r with
  | nil => rwa [List.append_nil]
  | cons line more ih =>
    obtain ⟨hline, hmore⟩ := List.forall_mem_cons.mp hbase
    have hlines := ih (h.addLine hline) hmore
    rw [List.length_append, List.append_assoc] at hlines
    exact hlines

/-- Entries are read before their descriptions are put in. -/
theorem Reads.description_eq (h : Reads kind base row lines r) {e : Entry × Paragraphs}
    (he : e ∈ r.entries) : e.1.description = "" := by
  have hbegun : e.1 ∈ r.begun := List.mem_map_of_mem (List.mem_reverse.mpr he)
  rw [h.begun] at hbegun
  obtain ⟨l, -, hl⟩ := List.mem_filterMap.mp hbegun
  obtain ⟨⟨entry, description⟩, hentry, rfl⟩ := Option.map_eq_some_iff.mp hl
  rw [Entry.begunBy?] at hentry
  split at hentry
  · obtain ⟨-, -, -, -, hdescription⟩ := Entry.exists_colon hentry
    exact hdescription
  · cases hentry

end EntryReader

/-! ### Sections with entries -/

/-- What a section with entries keeps of the lines of its body, the first of which has the number
    `row`: no word is lost but for what stands in front of a colon, the entries are those that the
    lines begin, and the lines that were to begin one are reported. -/
structure KeepsEntries (kind : SectionKind) (row : Nat) (body : List (List Char))
    (entries : List Entry) (text : String) (issues : List DocstringIssue) : Prop where
  words : wordsOf text ++ entries.flatMap (fun e => wordsOf e.description) =
    body.flatMap (wordsGiven kind (baseIndent body))
  /-- What is given of a line that begins an entry stands behind a colon. -/
  colons : ∀ l ∈ body, ∀ e ∈ Entry.begunBy? kind (baseIndent body) l,
    ∃ head behind, Text.trim l = head ++ ':' :: behind ∧ e.2 = Text.trim behind
  entries : entries.map (fun e => { e with description := "" }) =
    body.filterMap fun l => (Entry.begunBy? kind (baseIndent body) l).map Prod.fst
  issues : issues = (body.zipIdx row).filterMap fun l =>
    if isMismatch kind (baseIndent body) l.1 then some ⟨l.2, .notAnEntry⟩ else none

/-- The lines of any body are kept. -/
theorem EntryReader.keepsEntries (kind : SectionKind) (row : Nat) (body : List (List Char)) :
    ∃ entries text issues,
      ((addLines kind (baseIndent body) row {} body).body,
          (addLines kind (baseIndent body) row {} body).issues.reverse) =
        (SectionBody.entries entries text, issues) ∧
      KeepsEntries kind row body entries text issues := by
  have hnil : Reads kind (baseIndent body) row [] {} := .nil
  have hreads : Reads kind (baseIndent body) row body
      (addLines kind (baseIndent body) row {} body) :=
    hnil.addLines fun l hl hfilled => baseIndent_le hl hfilled
  refine ⟨_, _, _, rfl, ?_, fun l hl e he => ?_, ?_, hreads.issues⟩
  · rw [← hreads.words, EntryReader.words, Paragraphs.wordsOf_text, List.flatMap_map]
    simp [Paragraphs.wordsOf_text]
  · rw [Entry.begunBy?] at he
    split at he
    · obtain ⟨head, behind, hline, hdescription, -⟩ := Entry.exists_colon he
      exact ⟨head, behind, hline, hdescription⟩
    · cases he
  · rw [← hreads.begun, begun, List.map_map]
    refine List.map_congr_left fun e he => ?_
    have hdescription := hreads.description_eq (List.mem_reverse.mp he)
    rw [Function.comp_apply, ← hdescription]

namespace DocBlock

/-- A block with entries gives one section, which keeps the lines below the heading; `lines` are
    those of the docstring. -/
def GivesEntries (lines : List (List Char)) (block : DocBlock)
    (given : List Section × List DocstringIssue) : Prop :=
  ∀ heading row body, block = headed heading row body → heading.kind.hasEntries = true →
    body = (lines.drop (row + 1)).take body.length ∧ ∃ entries text,
      given.1 = [⟨heading.kind, heading.name, heading.version, .entries entries text⟩] ∧
        KeepsEntries heading.kind (row + 1) body entries text given.2

/-- A section with entries keeps what stands in its body. -/
theorem sections_entries [YamlReader] {heading : Heading} (hkind : heading.kind.hasEntries = true)
    (row : Nat)
    (body : List (List Char)) (kind : DocstringKind) (isLast : Bool) :
    ∃ entries text issues, (headed heading row body).sections kind isLast =
        ([⟨heading.kind, heading.name, heading.version, .entries entries text⟩], issues) ∧
      KeepsEntries heading.kind (row + 1) body entries text issues := by
  obtain ⟨entries, text, issues, hread, hkeeps⟩ :=
    EntryReader.keepsEntries heading.kind (row + 1) body
  obtain ⟨hbody, hissues⟩ := Prod.mk.inj hread
  have hcases : heading.kind = .args ∨ heading.kind = .attributes ∨ heading.kind = .raises := by
    cases hheading : heading.kind <;> simp_all [SectionKind.hasEntries]
  refine ⟨entries, text, issues, ?_, hkeeps⟩
  rw [sections, ← hbody, ← hissues]
  rcases hcases with hheading | hheading | hheading <;> rw [hheading]

/-- The sections and issues of blocks are those of each block, in order. -/
theorem exists_given [YamlReader] {P : DocBlock → List Section × List DocstringIssue → Prop}
    {kind : DocstringKind} {blocks : List DocBlock}
    (h : ∀ b ∈ blocks, ∀ isLast, P b (b.sections kind isLast)) :
    ∃ given : List (List Section × List DocstringIssue), List.Forall₂ P blocks given ∧
      allSections kind blocks = (given.flatMap Prod.fst, given.flatMap Prod.snd) := by
  induction blocks with
  | nil => exact ⟨[], .nil, rfl⟩
  | cons block blocks ih =>
    obtain ⟨hblock, hblocks⟩ := List.forall_mem_cons.mp h
    obtain ⟨given, hgiven, hsections⟩ := ih hblocks
    refine ⟨block.sections kind blocks.isEmpty :: given, .cons (hblock _) hgiven, ?_⟩
    rw [allSections, hsections, List.flatMap_cons, List.flatMap_cons]

end DocBlock

/-- **No word of an entry is lost.**  The lines of a docstring are divided, and what is given of
    each block with entries — one section and some issues — keeps the words of the lines below its
    heading, has the entries that they begin, and reports those that were to begin one. -/
theorem Docstring.parse_keepsEntries [YamlReader] (raw : String) (kind : DocstringKind) :
    ∃ description blocks given,
      Divides (bareLines (Text.lines (cleanDoc raw).toList)) description blocks ∧
        List.Forall₂ (DocBlock.GivesEntries (Text.lines (cleanDoc raw).toList)) blocks given ∧
          (parse raw kind).sections = given.flatMap Prod.fst ∧
            (parse raw kind).issues = given.flatMap Prod.snd := by
  obtain ⟨roles, description, blocks, hdivides, hread⟩ :=
    exists_divides kind (Text.lines (cleanDoc raw).toList)
  have hgives : ∀ b ∈ blocks, ∀ isLast,
      DocBlock.GivesEntries (Text.lines (cleanDoc raw).toList) b (b.sections kind isLast) := by
    rintro b hb isLast heading row body rfl hkind
    obtain ⟨entries, text, issues, hsections, hkeeps⟩ :=
      DocBlock.sections_entries hkind row body kind isLast
    rw [hsections]
    refine ⟨?_, entries, text, rfl, hkeeps⟩
    rw [← drop_bareLines]
    exact hdivides.body_eq hb
  obtain ⟨given, hgiven, hsections⟩ := DocBlock.exists_given hgives
  refine ⟨description, blocks, given, hdivides, hgiven, ?_, ?_⟩
  · rw [parse, hread, hsections]
  · rw [parse, hread, hsections]

end PackageDoc
