import PackageDoc.Docstring.Grammar
import PackageDoc.Proofs.Text.Blanks
import PackageDoc.Proofs.Tree.Parents

namespace PackageDoc

/-!
# Docstrings of functions, written down

How a description and some arguments are written as a docstring, and what its lines look like.

* `Prose`, `RoleForm`, `TypeForm`, `ParagraphForm` and `ArgumentForm` — the parts, each with what
  makes it one that can be written;
* `renderDocstring` — the docstring;
* `Laid` — prose and blank lines, indented by a margin or deeper;
* `Laid.lines_join` and `baseIndent_indented` — how such lines are cut out of a text and measured;
* `lines_cleanDoc_renderDocstring` — the lines of the docstring without its margin.
-/

/-! ### Parts -/

/-- A text on one line, without tabs. -/
def IsPlain (cs : List Char) : Prop :=
  ∀ c ∈ cs, c ≠ '\t' ∧ c ≠ '\n'

instance (cs : List Char) : Decidable (IsPlain cs) :=
  List.decidableBAll (fun c => c ≠ '\t' ∧ c ≠ '\n') cs

/-- A line that holds something, without blanks at its ends. -/
structure IsProse (cs : List Char) : Prop where
  trimmed : Text.trim cs = cs
  filled : cs ≠ []
  plain : IsPlain cs

instance (cs : List Char) : Decidable (IsProse cs) :=
  decidable_of_iff (Text.trim cs = cs ∧ cs ≠ [] ∧ IsPlain cs)
    ⟨fun h => ⟨h.1, h.2.1, h.2.2⟩, fun h => ⟨h.trimmed, h.filled, h.plain⟩⟩

/-- A line of prose. -/
structure Prose where
  text : List Char
  isProse : IsProse text

/-- A name as it stands in a docstring. -/
structure IsWord (cs : List Char) : Prop where
  filled : cs ≠ []
  chars : ∀ c ∈ cs, isWordChar c = true

instance (cs : List Char) : Decidable (IsWord cs) :=
  decidable_of_iff (cs ≠ [] ∧ cs.all isWordChar = true)
    ⟨fun h => ⟨h.1, List.all_eq_true.mp h.2⟩, fun h => ⟨h.filled, List.all_eq_true.mpr h.chars⟩⟩

/-- A role that can be written. -/
structure RoleForm where
  name : List Char
  content : List Char
  isWord : IsWord name
  filled : content ≠ []
  closed : '`' ∉ content
  plain : IsPlain content

/-- An annotation that can be written: the parenthesis behind it closes the one before it. -/
structure TypeForm where
  text : List Char
  trimmed : Text.trim text = text
  plain : IsPlain text
  closed : spanParens 1 (text ++ [')']) = some (text, [])

/-- A paragraph in the lines in which it is written. -/
structure ParagraphForm where
  first : Prose
  others : List Prose

/-- An argument that can be written. -/
structure ArgumentForm where
  stars : Nat
  name : List Char
  type : Option TypeForm
  roles : List RoleForm
  paragraphs : List ParagraphForm
  few : stars ≤ 2
  isWord : IsWord name
  initial : name.head?.any Text.isNumeric = false

/-! ### What they stand for -/

/-- The role that is written. -/
def RoleForm.role (r : RoleForm) : Role :=
  ⟨String.ofList r.name, String.ofList r.content⟩

/-- The text of a paragraph: its lines with a blank between neighbours. -/
def ParagraphForm.text (p : ParagraphForm) : List Char :=
  Text.join [' '] (p.first.text :: p.others.map Prose.text)

/-- The entry without its description. -/
def ArgumentForm.bare (a : ArgumentForm) : Entry where
  name := String.ofList (List.replicate a.stars '*' ++ a.name)
  type := a.type.map fun t => String.ofList t.text
  roles := a.roles.map RoleForm.role
  description := ""

/-- The entry that is written, its paragraphs with a blank line between neighbours. -/
def ArgumentForm.entry (a : ArgumentForm) : Entry :=
  { a.bare with
    description := String.ofList (Text.join ['\n', '\n'] (a.paragraphs.map ParagraphForm.text)) }

/-! ### How they are written -/

/-- A text with blanks before it. -/
def indented (width : Nat) (cs : List Char) : List Char :=
  List.replicate width ' ' ++ cs

/-- A role behind a blank. -/
def RoleForm.render (r : RoleForm) : List Char :=
  ' ' :: '{' :: (r.name ++ '}' :: '`' :: (r.content ++ ['`']))

/-- An annotation in parentheses behind a blank. -/
def TypeForm.render (t : TypeForm) : List Char :=
  ' ' :: '(' :: (t.text ++ [')'])

/-- The lines of a paragraph but for the first. -/
def ParagraphForm.furtherLines (width : Nat) (p : ParagraphForm) : List (List Char) :=
  p.others.map fun l => indented width l.text

/-- The lines of a paragraph. -/
def ParagraphForm.lines (width : Nat) (p : ParagraphForm) : List (List Char) :=
  indented width p.first.text :: p.furtherLines width

namespace ArgumentForm

/-- What stands behind the name, up to the colon. -/
def markup (a : ArgumentForm) : List Char :=
  (a.type.map TypeForm.render).getD [] ++ (a.roles.flatMap RoleForm.render ++ [':'])

/-- What stands before the description. -/
def head (a : ArgumentForm) : List Char :=
  List.replicate a.stars '*' ++ (a.name ++ a.markup)

/-- What stands of the description in the line of the name, behind a blank. -/
def opening (a : ArgumentForm) : List Char :=
  match a.paragraphs with
  | [] => []
  | p :: _ => ' ' :: p.first.text

/-- The lines below that of the name, blank ones between the paragraphs. -/
def furtherLines (width : Nat) (a : ArgumentForm) : List (List Char) :=
  match a.paragraphs with
  | [] => []
  | p :: ps => p.furtherLines width ++ ps.flatMap fun q => [] :: q.lines width

/-- The lines of an argument. -/
def lines (indent deeper : Nat) (a : ArgumentForm) : List (List Char) :=
  indented indent (a.head ++ a.opening) :: a.furtherLines deeper

end ArgumentForm

/-- The lines below the description: a blank one, the heading and the arguments. -/
def belowDescription (margin indent deeper : Nat) (arguments : List ArgumentForm) :
    List (List Char) :=
  [] :: indented margin "Args:".toList ::
    arguments.flatMap (ArgumentForm.lines (margin + indent) (margin + deeper))

/-- The docstring of a function in a source where it stands behind `margin` blanks. -/
def renderDocstring (margin indent deeper : Nat) (description : Prose)
    (arguments : List ArgumentForm) : String :=
  String.ofList
    (Text.join ['\n'] (description.text :: belowDescription margin indent deeper arguments))

/-! ### Blanks and names -/

/-- A blank is no character of a word. -/
theorem isWordChar_of_isSpace {c : Char} (h : Text.isSpace c = true) : isWordChar c = false := by
  -- there are 25 blanks
  have hspaces : ∀ n ∈ List.range' 0x09 5 ++ List.range' 0x2000 11 ++
      [0x20, 0x85, 0xa0, 0x1680, 0x2028, 0x2029, 0x202f, 0x205f, 0x3000],
      isWordChar (Char.ofNat n) = false := by
    decide +kernel
  have hmem : c.toNat ∈ List.range' 0x09 5 ++ List.range' 0x2000 11 ++
      [0x20, 0x85, 0xa0, 0x1680, 0x2028, 0x2029, 0x202f, 0x205f, 0x3000] := by
    simp only [Text.isSpace, Bool.or_eq_true, Bool.and_eq_true, decide_eq_true_eq,
      beq_iff_eq] at h
    simp only [List.mem_append, List.mem_range'_1, List.mem_cons, List.not_mem_nil, or_false]
    omega
  have hword := hspaces _ hmem
  rwa [Char.ofNat_toNat] at hword

/-- No character of a name is one that is not allowed in names. -/
theorem IsWord.ne {cs : List Char} (h : IsWord cs) {c d : Char} (hc : c ∈ cs)
    (hd : isWordChar d = false) : c ≠ d := by
  rintro rfl
  exact Bool.false_ne_true (hd.symm.trans (h.chars c hc))

/-- A word has no blanks. -/
theorem IsWord.isSpace_eq_false {cs : List Char} (h : IsWord cs) {c : Char} (hc : c ∈ cs) :
    Text.isSpace c = false := by
  by_contra hspace
  exact h.ne hc (isWordChar_of_isSpace (by simpa using hspace)) rfl

@[simp] theorem isPlain_nil : IsPlain [] :=
  fun _ h => absurd h List.not_mem_nil

/-- A text is plain when its first character is neither tab nor line feed, and the rest is plain. -/
@[simp] theorem isPlain_cons {c : Char} {cs : List Char} :
    IsPlain (c :: cs) ↔ (c ≠ '\t' ∧ c ≠ '\n') ∧ IsPlain cs :=
  List.forall_mem_cons

/-- Two texts together are plain exactly when both are. -/
@[simp] theorem isPlain_append {cs ds : List Char} : IsPlain (cs ++ ds) ↔ IsPlain cs ∧ IsPlain ds :=
  List.forall_mem_append

/-- A word is plain. -/
theorem IsWord.isPlain {cs : List Char} (h : IsWord cs) : IsPlain cs :=
  fun _ hc => ⟨h.ne hc (isWordChar_of_isSpace rfl), h.ne hc (isWordChar_of_isSpace rfl)⟩

/-! ### Lines of prose -/

namespace IsProse

variable {cs : List Char}

/-- Prose does not begin with a blank. -/
theorem head (h : IsProse cs) : ∀ c ∈ cs.head?, Text.isSpace c = false :=
  (Text.trim_eq_self_iff.mp h.trimmed).1

/-- Nor does it end with one. -/
theorem getLast (h : IsProse cs) : ∀ c ∈ cs.getLast?, Text.isSpace c = false :=
  (Text.trim_eq_self_iff.mp h.trimmed).2

/-- Trimming prose in front changes nothing. -/
theorem trimStart (h : IsProse cs) : Text.trimStart cs = cs :=
  Text.trimStart_eq_self_iff.mpr h.head

end IsProse

variable {cs : List Char} {width margin : Nat}

/-- Prose is indented as wide as it is rendered. -/
theorem indentWidth_indented (h : IsProse cs) (width : Nat) :
    indentWidth (indented width cs) = width := by
  have hcs : cs.takeWhile Text.isSpace = [] := by
    have hhead := h.head
    cases cs with
    | nil => rfl
    | cons c cs => simp [hhead c rfl]
  have hblanks : ∀ c ∈ List.replicate width ' ', Text.isSpace c = true := fun c hc => by
    rw [List.eq_of_mem_replicate hc]
    rfl
  rw [indentWidth, indented, List.takeWhile_append_of_pos hblanks, hcs, List.append_nil,
    List.length_replicate]

/-- Trimming takes the indentation off. -/
theorem trimStart_indented (width : Nat) (cs : List Char) :
    Text.trimStart (indented width cs) = Text.trimStart cs := by
  induction width with
  | zero => rfl
  | succ width ih => exact ih

/-- Trimming indented prose gives the prose back. -/
theorem trim_indented (h : IsProse cs) (width : Nat) : Text.trim (indented width cs) = cs := by
  rw [Text.trim, trimStart_indented]
  exact h.trimmed

/-- Indented prose is not blank. -/
theorem isBlank_indented (h : IsProse cs) (width : Nat) :
    Text.isBlank (indented width cs) = false := by
  cases cs with
  | nil => exact absurd rfl h.filled
  | cons c cs =>
    have hspace : Text.isSpace c = false := h.head c rfl
    simp [Text.isBlank, indented, hspace]

/-- Indented prose does not end with a blank. -/
theorem getLast_indented (h : IsProse cs) (width : Nat) :
    ∀ c ∈ (indented width cs).getLast?, Text.isSpace c = false := by
  intro c hc
  rw [indented, List.getLast?_append_of_ne_nil _ h.filled] at hc
  exact h.getLast c hc

/-- A margin is taken off. -/
theorem cleanLine_indented (h : IsProse cs) (margin width : Nat) :
    cleanLine margin (indented (margin + width) cs) = indented width cs := by
  have hstrip : stripIndent margin (indented (margin + width) cs) = indented width cs := by
    rw [stripIndent, indentWidth_indented h, Nat.min_eq_left (Nat.le_add_right _ _), indented,
      List.replicate_add, List.append_assoc, List.drop_left' (List.length_replicate ..)]
    rfl
  rw [cleanLine, isBlank_indented h, if_neg Bool.false_ne_true, hstrip]
  exact Text.trimEnd_eq_self_iff.mpr (getLast_indented h width)

/-- Indented prose is plain. -/
theorem isPlain_indented (h : IsProse cs) (width : Nat) : IsPlain (indented width cs) := by
  refine isPlain_append.mpr ⟨fun c hc => ?_, h.plain⟩
  rw [List.eq_of_mem_replicate hc]
  decide

/-- A line without tabs is not expanded. -/
theorem expandTabs_of_notMem {column : Nat} (h : '\t' ∉ cs) : expandTabs column cs = cs := by
  induction cs generalizing column with
  | nil => rfl
  | cons c cs ih =>
    rw [expandTabs, if_neg (Ne.symm (List.ne_of_not_mem_cons h)),
      ih (List.not_mem_of_not_mem_cons h)]

/-! ### Cutting a text into lines -/

namespace Text

/-- A text without the separator is its only piece. -/
theorem splitOn_of_notMem {sep : Char} {cs : List Char} (h : sep ∉ cs) : splitOn sep cs = [cs] := by
  induction cs with
  | nil => rfl
  | cons c cs ih =>
    rw [splitOn, if_neg (Ne.symm (List.ne_of_not_mem_cons h)),
      ih (List.not_mem_of_not_mem_cons h)]

/-- A line that does not end with a blank has no carriage return to drop. -/
theorem dropCarriageReturn_of_getLast {line : List Char}
    (h : ∀ c ∈ line.getLast?, isSpace c = false) : dropCarriageReturn line = line := by
  rw [← List.head?_reverse] at h
  rw [dropCarriageReturn, stripEnd?]
  cases hline : line.reverse with
  | nil => rfl
  | cons c cs =>
    have hc : '\r' ≠ c := by
      rintro rfl
      rw [hline] at h
      exact absurd (h '\r' rfl) (by decide)
    simp [stripStart?, hc]

/-- A text without line feeds is one line. -/
theorem lines_of_notMem {line : List Char} (h : '\n' ∉ line) (hne : line ≠ []) :
    lines line = [line] := by
  rw [lines, splitOn_of_notMem h]
  cases line with
  | nil => exact absurd rfl hne
  | cons c cs => rfl

/-- A line ends at its line feed. -/
theorem lines_append_lineFeed {line : List Char} (h : '\n' ∉ line) (cs : List Char) :
    lines (line ++ '\n' :: cs) = dropCarriageReturn line :: lines cs := by
  rw [lines, splitOn_append, splitOn_of_notMem h, List.singleton_append, lines]
  cases hsplit : splitOn '\n' cs with
  | nil => exact absurd hsplit (splitOn_ne_nil _ _)
  | cons piece pieces =>
    rw [lines.close]
    · exact fun _ h => List.cons_ne_nil _ _ h
    · exact fun h => List.cons_ne_nil _ _ h

/-- A line that does not end with a blank is kept whole. -/
theorem lines_append {line : List Char} (h : '\n' ∉ line)
    (hlast : ∀ c ∈ line.getLast?, isSpace c = false) (cs : List Char) :
    lines (line ++ '\n' :: cs) = line :: lines cs := by
  rw [lines_append_lineFeed h, dropCarriageReturn_of_getLast hlast]

/-- A piece is joined to the others by the separator. -/
theorem join_cons {sep : List Char} {ls : List (List Char)} (h : ls ≠ []) (l : List Char) :
    join sep (l :: ls) = l ++ sep ++ join sep ls :=
  join_append (List.cons_ne_nil l []) h

end Text

/-! ### Prose and blank lines -/

/-- Lines of prose indented by `margin` or deeper, and blank lines, the last of which is not
    blank. -/
inductive Laid (margin : Nat) : List (List Char) → Prop
  | last {width : Nat} {cs : List Char} (hcs : IsProse cs) (hwidth : margin ≤ width) :
    Laid margin [indented width cs]
  | prose {width : Nat} {cs : List Char} {ls : List (List Char)} (hcs : IsProse cs)
    (hwidth : margin ≤ width) (more : Laid margin ls) : Laid margin (indented width cs :: ls)
  | blank {ls : List (List Char)} (more : Laid margin ls) : Laid margin ([] :: ls)

namespace Laid

variable {ls ls' : List (List Char)} {l : List Char}

theorem ne_nil (h : Laid margin ls) : ls ≠ [] := by
  cases h <;> exact List.cons_ne_nil _ _

/-- Lines below lines are laid out when both are. -/
theorem append (h : Laid margin ls) (h' : Laid margin ls') : Laid margin (ls ++ ls') := by
  induction h with
  | last hcs hwidth => exact .prose hcs hwidth h'
  | prose hcs hwidth _ ih => exact .prose hcs hwidth ih
  | blank _ ih => exact .blank ih

/-- So are those of a whole list below them. -/
theorem append_flatMap {α : Type} {f : α → List (List Char)} (h : Laid margin ls)
    (hf : ∀ x, Laid margin (f x)) (xs : List α) : Laid margin (ls ++ xs.flatMap f) := by
  induction xs generalizing ls with
  | nil => rwa [List.flatMap_nil, List.append_nil]
  | cons x xs ih =>
    rw [List.flatMap_cons, ← List.append_assoc]
    exact ih (h.append (hf x))

/-- Lines that are laid out at a margin are so at a smaller one. -/
theorem mono {margin' : Nat} (h : Laid margin ls) (hle : margin' ≤ margin) : Laid margin' ls := by
  induction h with
  | last hcs hwidth => exact .last hcs (Nat.le_trans hle hwidth)
  | prose hcs hwidth _ ih => exact .prose hcs (Nat.le_trans hle hwidth) ih
  | blank _ ih => exact .blank ih

/-- Each line is blank or prose. -/
theorem eq_nil_or_indented (h : Laid margin ls) (hl : l ∈ ls) :
    l = [] ∨ ∃ width cs, IsProse cs ∧ margin ≤ width ∧ l = indented width cs := by
  induction h with
  | last hcs hwidth => exact .inr ⟨_, _, hcs, hwidth, List.mem_singleton.mp hl⟩
  | prose hcs hwidth _ ih =>
    rcases List.mem_cons.mp hl with rfl | hl
    · exact .inr ⟨_, _, hcs, hwidth, rfl⟩
    · exact ih hl
  | blank _ ih =>
    rcases List.mem_cons.mp hl with rfl | hl
    · exact .inl rfl
    · exact ih hl

/-- The lines of a text are the lines that it was made of. -/
theorem lines_join (h : Laid margin ls) : Text.lines (Text.join ['\n'] ls) = ls := by
  have hplain : ∀ {width : Nat} {cs : List Char}, IsProse cs → '\n' ∉ indented width cs :=
    fun hcs hmem => (isPlain_indented hcs _ _ hmem).2 rfl
  induction h with
  | last hcs _ =>
    exact Text.lines_of_notMem (hplain hcs) (List.append_ne_nil_of_right_ne_nil _ hcs.filled)
  | prose hcs _ more ih =>
    rw [Text.join_cons more.ne_nil, List.append_assoc, List.singleton_append,
      Text.lines_append (hplain hcs) (getLast_indented hcs _), ih]
  | blank more ih =>
    rw [Text.join_cons more.ne_nil, List.append_assoc, List.singleton_append,
      Text.lines_append List.not_mem_nil (by simp), ih]

/-- Lines that are laid out have no tabs to expand. -/
theorem map_expandTabs (h : Laid margin ls) (column : Nat) : ls.map (expandTabs column) = ls := by
  refine (List.map_congr_left fun l hl => ?_).trans (List.map_id ls)
  rcases h.eq_nil_or_indented hl with rfl | ⟨width, cs, hcs, -, rfl⟩
  · rfl
  · exact expandTabs_of_notMem fun hmem => (isPlain_indented hcs width _ hmem).1 rfl

/-- The last line is not blank. -/
theorem dropWhile_reverse (h : Laid margin ls) : ls.reverse.dropWhile Text.isBlank = ls.reverse := by
  have hcons : ∀ {l : List Char} {ls : List (List Char)}, Laid margin ls →
      ls.reverse.dropWhile Text.isBlank = ls.reverse →
        (l :: ls).reverse.dropWhile Text.isBlank = (l :: ls).reverse := by
    intro l ls hls ih
    have hne : ls.reverse.isEmpty = false := by simpa using hls.ne_nil
    rw [List.reverse_cons, List.dropWhile_append, ih, hne, if_neg Bool.false_ne_true]
  induction h with
  | last hcs _ => simp [isBlank_indented hcs]
  | prose _ _ more ih => exact hcons more ih
  | blank more ih => exact hcons more ih

/-- Lines that begin with prose have no blank lines around them. -/
theorem trimBlankLines_eq {cs : List Char} (h : Laid margin (cs :: ls)) (hcs : IsProse cs) :
    trimBlankLines (cs :: ls) = cs :: ls := by
  have hfirst : (cs :: ls).dropWhile Text.isBlank = cs :: ls := by
    have hfilled : Text.isBlank cs = false := isBlank_indented hcs 0
    rw [List.dropWhile_cons, hfilled, if_neg Bool.false_ne_true]
  rw [trimBlankLines, hfirst, h.dropWhile_reverse, List.reverse_reverse]

end Laid

/-- The indentation of lines is that of the first of them, if no other is indented less. -/
theorem baseIndent_indented {ls : List (List Char)} (hcs : IsProse cs)
    (hls : ∀ l ∈ ls, l = [] ∨ ∃ width cs, IsProse cs ∧ margin ≤ width ∧ l = indented width cs) :
    baseIndent (indented margin cs :: ls) = margin := by
  have hmin : (((indented margin cs :: ls).filter fun l => !Text.isBlank l).map indentWidth).min? =
      some margin := by
    refine List.min?_eq_some_iff.mpr ⟨?_, fun n hn => ?_⟩
    · rw [List.filter_cons_of_pos (by rw [isBlank_indented hcs, Bool.not_false]), List.map_cons,
        indentWidth_indented hcs]
      exact List.mem_cons_self
    · obtain ⟨l, hl, rfl⟩ := List.mem_map.mp hn
      obtain ⟨hl, hfilled⟩ := List.mem_filter.mp hl
      rcases List.mem_cons.mp hl with rfl | hl
      · exact Nat.le_of_eq (indentWidth_indented hcs margin).symm
      · obtain rfl | ⟨width, cs, hcs, hwidth, rfl⟩ := hls l hl
        · exact absurd hfilled (by decide)
        · rwa [indentWidth_indented hcs]
  rw [baseIndent, hmin, Option.getD_some]

/-! ### The lines of a docstring -/

/-- A role is rendered plainly. -/
theorem RoleForm.isPlain_render (r : RoleForm) : IsPlain r.render := by
  simp [render, r.isWord.isPlain, r.plain]

/-- So is a type. -/
theorem TypeForm.isPlain_render (t : TypeForm) : IsPlain t.render := by
  simp [render, t.plain]

namespace ArgumentForm

/-- So is all the markup of an argument. -/
theorem isPlain_markup (a : ArgumentForm) : IsPlain a.markup := by
  refine isPlain_append.mpr ⟨?_, isPlain_append.mpr ⟨fun c hc => ?_, by decide⟩⟩
  · cases a.type with
    | none => exact isPlain_nil
    | some t => exact t.isPlain_render
  · obtain ⟨r, -, hc⟩ := List.mem_flatMap.mp hc
    exact r.isPlain_render c hc

/-- So is the start of its description. -/
theorem isPlain_opening (a : ArgumentForm) : IsPlain a.opening := by
  unfold opening
  split
  · exact isPlain_nil
  · exact isPlain_cons.mpr ⟨by decide, (Prose.isProse _).plain⟩

/-- So is its first line. -/
theorem isPlain_firstLine (a : ArgumentForm) : IsPlain (a.head ++ a.opening) := by
  refine isPlain_append.mpr ⟨isPlain_append.mpr ⟨fun c hc => ?_, ?_⟩, a.isPlain_opening⟩
  · rw [List.eq_of_mem_replicate hc]
    decide
  · exact isPlain_append.mpr ⟨a.isWord.isPlain, a.isPlain_markup⟩

/-- The first character of the line is a star or belongs to the name. -/
theorem isSpace_of_mem_head? (a : ArgumentForm) :
    ∀ c ∈ (a.head ++ a.opening).head?, Text.isSpace c = false := by
  intro c hc
  rw [head, List.append_assoc] at hc
  cases hstars : a.stars with
  | zero =>
    rw [hstars, List.replicate_zero, List.nil_append, List.append_assoc,
      List.head?_append_of_ne_nil _ a.isWord.filled] at hc
    exact a.isWord.isSpace_eq_false (List.mem_of_mem_head? hc)
  | succ n =>
    rw [hstars] at hc
    obtain rfl : '*' = c := Option.some.inj hc
    rfl

/-- The last character of the line is the colon or belongs to the description. -/
theorem isSpace_of_mem_getLast? (a : ArgumentForm) :
    ∀ c ∈ (a.head ++ a.opening).getLast?, Text.isSpace c = false := by
  intro c hc
  unfold opening at hc
  split at hc
  · rw [List.append_nil, head, markup, ← List.append_assoc, ← List.append_assoc,
      ← List.append_assoc, List.getLast?_concat] at hc
    obtain rfl : ':' = c := Option.some.inj hc
    rfl
  · rename_i p _ _
    rw [List.getLast?_append_of_ne_nil _ (List.cons_ne_nil _ _),
      List.getLast?_cons_of_ne_nil p.first.isProse.filled] at hc
    exact p.first.isProse.getLast c hc

/-- What stands in the line of the name is prose. -/
theorem isProse_firstLine (a : ArgumentForm) : IsProse (a.head ++ a.opening) where
  trimmed := Text.trim_eq_self_iff.mpr ⟨a.isSpace_of_mem_head?, a.isSpace_of_mem_getLast?⟩
  filled :=
    List.append_ne_nil_of_left_ne_nil (List.append_ne_nil_of_right_ne_nil _
      (List.append_ne_nil_of_left_ne_nil a.isWord.filled _)) _
  plain := a.isPlain_firstLine

end ArgumentForm

variable {indent deeper : Nat}

/-- The further lines of a paragraph are laid out below what is. -/
theorem ParagraphForm.laid_furtherLines {ls : List (List Char)} (h : Laid margin ls)
    (hwidth : margin ≤ width) (p : ParagraphForm) : Laid margin (ls ++ p.furtherLines width) := by
  rw [furtherLines, List.map_eq_flatMap]
  exact h.append_flatMap (fun l => .last l.isProse hwidth) _

/-- So is a whole paragraph. -/
theorem ParagraphForm.laid_lines (hwidth : margin ≤ width) (p : ParagraphForm) :
    Laid margin (p.lines width) :=
  laid_furtherLines (.last p.first.isProse hwidth) hwidth p

/-- So is an argument. -/
theorem ArgumentForm.laid_lines (h : indent ≤ deeper) (a : ArgumentForm) :
    Laid indent (a.lines indent deeper) := by
  have hname : Laid indent [indented indent (a.head ++ a.opening)] :=
    .last a.isProse_firstLine (Nat.le_refl _)
  unfold lines furtherLines
  split
  · exact hname
  · rename_i p ps _
    rw [← List.singleton_append, ← List.append_assoc]
    exact (p.laid_furtherLines hname h).append_flatMap (fun q => .blank (q.laid_lines h)) ps

/-- Each line of arguments is blank or prose. -/
theorem ArgumentForm.eq_nil_or_indented (h : indent ≤ deeper) {arguments : List ArgumentForm} :
    ∀ l ∈ arguments.flatMap (ArgumentForm.lines indent deeper),
      l = [] ∨ ∃ width cs, IsProse cs ∧ indent ≤ width ∧ l = indented width cs := by
  intro l hl
  obtain ⟨a, -, hl⟩ := List.mem_flatMap.mp hl
  exact (a.laid_lines h).eq_nil_or_indented hl

/-- All that stands below the description is laid out. -/
theorem laid_belowDescription (h : indent ≤ deeper) (arguments : List ArgumentForm) :
    Laid margin (belowDescription margin indent deeper arguments) := by
  have hheading : Laid margin [[], indented margin "Args:".toList] :=
    .blank (.last (by decide) (Nat.le_refl _))
  exact hheading.append_flatMap (fun a => (a.laid_lines (by omega)).mono (by omega)) arguments

/-! ### Taking the margin off -/

/-- Cleaning takes the margin off the further lines of a paragraph. -/
theorem ParagraphForm.furtherLines_clean (p : ParagraphForm) :
    (p.furtherLines (margin + width)).map (cleanLine margin) = p.furtherLines width := by
  rw [furtherLines, List.map_map]
  exact List.map_congr_left fun l _ => cleanLine_indented l.isProse margin width

/-- It takes it off a whole paragraph. -/
theorem ParagraphForm.lines_clean (p : ParagraphForm) :
    (p.lines (margin + width)).map (cleanLine margin) = p.lines width := by
  rw [lines, List.map_cons, cleanLine_indented p.first.isProse, p.furtherLines_clean, lines]

/-- It takes it off an argument. -/
theorem ArgumentForm.lines_clean (a : ArgumentForm) :
    (a.lines (margin + indent) (margin + deeper)).map (cleanLine margin) =
      a.lines indent deeper := by
  have hfurther : (a.furtherLines (margin + deeper)).map (cleanLine margin) =
      a.furtherLines deeper := by
    unfold furtherLines
    split
    · rfl
    · rename_i p ps _
      rw [List.map_append, p.furtherLines_clean, List.map_flatMap]
      refine congrArg _ (List.flatMap_congr fun q _ => ?_)
      rw [List.map_cons, q.lines_clean]
      rfl
  rw [lines, List.map_cons, cleanLine_indented a.isProse_firstLine, hfurther, lines]

/-- It takes it off all that stands below the description. -/
theorem belowDescription_clean (arguments : List ArgumentForm) :
    (belowDescription margin indent deeper arguments).map (cleanLine margin) =
      belowDescription 0 indent deeper arguments := by
  have hheading : cleanLine margin (indented margin "Args:".toList) = "Args:".toList :=
    cleanLine_indented (by decide) margin 0
  rw [belowDescription, List.map_cons, List.map_cons, hheading, List.map_flatMap,
    belowDescription, Nat.zero_add, Nat.zero_add]
  refine congrArg ([] :: "Args:".toList :: ·) (List.flatMap_congr fun a _ => a.lines_clean)

/-- The margin of a rendered docstring is the one at which it is rendered. -/
theorem baseIndent_belowDescription (h : indent ≤ deeper) (arguments : List ArgumentForm) :
    baseIndent (belowDescription margin indent deeper arguments) = margin := by
  have hlaid : Laid margin (belowDescription margin indent deeper arguments) :=
    laid_belowDescription h arguments
  have hskip : baseIndent (belowDescription margin indent deeper arguments) =
      baseIndent (belowDescription margin indent deeper arguments).tail := rfl
  rw [hskip]
  exact baseIndent_indented (by decide) fun l hl =>
    hlaid.eq_nil_or_indented (List.mem_cons_of_mem _ (List.mem_cons_of_mem _ hl))

/-- **The lines of a docstring without its margin.** -/
theorem lines_cleanDoc_renderDocstring (h : indent ≤ deeper) (description : Prose)
    (arguments : List ArgumentForm) :
    Text.lines (cleanDoc (renderDocstring margin indent deeper description arguments)).toList =
      description.text :: belowDescription 0 indent deeper arguments := by
  have hlaid : ∀ margin, Laid 0
      (description.text :: belowDescription margin indent deeper arguments) := fun margin =>
    .prose description.isProse (Nat.le_refl _) ((laid_belowDescription h arguments).mono (by omega))
  have hclean : cleanLines (renderDocstring margin indent deeper description arguments).toList =
      description.text :: belowDescription 0 indent deeper arguments := by
    rw [renderDocstring, String.toList_ofList, cleanLines, (hlaid margin).lines_join,
      (hlaid margin).map_expandTabs]
    dsimp only
    rw [baseIndent_belowDescription h, belowDescription_clean, description.isProse.trimStart,
      (hlaid 0).trimBlankLines_eq description.isProse]
  rw [cleanDoc, String.toList_ofList, hclean, (hlaid 0).lines_join]

end PackageDoc
