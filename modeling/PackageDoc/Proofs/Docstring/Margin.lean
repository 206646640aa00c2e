import PackageDoc.Proofs.Docstring.Sections
import PackageDoc.Proofs.Syntax.Quoting

namespace PackageDoc

/-!
# The margin is all that is removed

Cleaning a docstring takes the margin off its lines and the blank lines off its ends.  What the lines
say, their indentation relative to one another and the blank lines between them are kept.

* `Expands` — a line and what it is with its tabs expanded;
* `IsMargin` — the least indentation of some lines;
* `KeepsLine` — what is kept of a line without a margin;
* `MarginRemoved` — lines and the text that is left of them without a margin;
* `cleanDoc_marginRemoved` — what cleaning leaves of the lines of a docstring.
-/

/-! ### Tabs -/

/-- A line that begins at `column` and what it is with its tabs expanded: a tab is as many blanks as
    lead to the next multiple of 8 columns. -/
inductive Expands : (column : Nat) → (line expanded : List Char) → Prop
  | nil (column : Nat) : Expands column [] []
  | tab {column width : Nat} {cs ds : List Char} (hpos : 0 < width) (hle : width ≤ 8)
    (hstop : 8 ∣ column + width) (more : Expands (column + width) cs ds) :
    Expands column ('\t' :: cs) (List.replicate width ' ' ++ ds)
  | char {column : Nat} {c : Char} {cs ds : List Char} (hc : c ≠ '\t')
    (more : Expands (column + 1) cs ds) : Expands column (c :: cs) (c :: ds)

section Tabs

variable {column : Nat} {line out : List Char}

/-- Tabs are expanded as a line's columns say. -/
theorem expands_expandTabs (column : Nat) (line : List Char) :
    Expands column line (expandTabs column line) := by
  induction line generalizing column with
  | nil => exact .nil column
  | cons c cs ih =>
    rw [expandTabs]
    split
    · rename_i hc
      subst hc
      exact .tab (by omega) (by omega) (by omega) (ih _)
    · rename_i hc
      exact .char hc (ih _)

/-- There is one way to expand the tabs of a line. -/
theorem expands_iff : Expands column line out ↔ out = expandTabs column line := by
  refine ⟨fun h => ?_, fun h => h ▸ expands_expandTabs column line⟩
  induction h with
  | nil => rfl
  | @tab column width cs ds hpos hle hstop _ ih =>
    -- there is one multiple of 8 among the next 8 columns
    have hwidth : width = 8 - column % 8 := by omega
    rw [expandTabs, if_pos rfl, ih, hwidth]
  | char hc _ ih => rw [expandTabs, if_neg hc, ih]

/-- Lines have exactly one expansion. -/
theorem forall₂_expands_iff {ls X : List (List Char)} :
    List.Forall₂ (Expands column) ls X ↔ X = ls.map (expandTabs column) := by
  constructor
  · intro h
    induction h with
    | nil => rfl
    | cons hline _ ih => rw [expands_iff.mp hline, ih, List.map_cons]
  · rintro rfl
    exact List.forall₂_map_right_iff.mpr (List.forall₂_same.mpr fun l _ => expands_expandTabs _ l)

/-- Expanding tabs adds nothing but blanks. -/
theorem Expands.mem {c : Char} (h : Expands column line out) (hc : c ∈ out) :
    c ≠ '\t' ∧ (c = ' ' ∨ c ∈ line) := by
  induction h with
  | nil => exact absurd hc List.not_mem_nil
  | tab _ _ _ _ ih =>
    rcases List.mem_append.mp hc with hc | hc
    · rw [List.eq_of_mem_replicate hc]
      exact ⟨by decide, .inl rfl⟩
    · exact ⟨(ih hc).1, (ih hc).2.imp_right (List.mem_cons_of_mem _)⟩
  | char htab _ ih =>
    rcases List.mem_cons.mp hc with rfl | hc
    · exact ⟨htab, .inr List.mem_cons_self⟩
    · exact ⟨(ih hc).1, (ih hc).2.imp_right (List.mem_cons_of_mem _)⟩

end Tabs

/-! ### Blanks behind a line -/

namespace Text

variable {cs right : List Char}

/-- A text is blank exactly when both its parts are. -/
theorem isBlank_append : isBlank (cs ++ right) = (isBlank cs && isBlank right) :=
  List.all_append

/-- The blanks that are removed at the end of a text. -/
theorem exists_trimEnd (cs : List Char) : ∃ right, isBlank right = true ∧ cs = trimEnd cs ++ right := by
  refine ⟨(cs.reverse.takeWhile isSpace).reverse, ?_, ?_⟩
  · rw [isBlank, List.all_reverse]
    exact List.all_takeWhile
  · rw [trimEnd, ← List.reverse_append, List.takeWhile_append_dropWhile, List.reverse_reverse]

end Text

/-- What is not blank keeps its indentation whatever follows. -/
theorem indentWidth_append {cs : List Char} (h : Text.isBlank cs = false) (right : List Char) :
    indentWidth (cs ++ right) = indentWidth cs := by
  induction cs with
  | nil => cases h
  | cons c cs ih =>
    rw [List.cons_append, indentWidth, indentWidth, List.takeWhile_cons, List.takeWhile_cons]
    split
    · rename_i hc
      rw [Text.isBlank, List.all_cons, hc, Bool.true_and] at h
      exact congrArg (· + 1) (ih h)
    · rfl

/-- Blanks in front add to an indentation. -/
theorem indentWidth_blank_append {left : List Char} (h : Text.isBlank left = true) (cs : List Char) :
    indentWidth (left ++ cs) = left.length + indentWidth cs := by
  rw [indentWidth, List.takeWhile_append_of_pos (List.all_eq_true.mp h), List.length_append]
  rfl

/-- Each line is one that has lost blanks at its end. -/
abbrev LoseBlanks : List (List Char) → List (List Char) → Prop :=
  List.Forall₂ fun l l' => ∃ right, Text.isBlank right = true ∧ l = l' ++ right

/-! ### Cutting and joining lines -/

namespace Text

variable {cs l : List Char} {ls : List (List Char)}

/-- No piece of a text that is split has the separator. -/
theorem notMem_of_mem_splitOn {sep : Char} (h : l ∈ splitOn sep cs) : sep ∉ l := by
  induction cs generalizing l with
  | nil =>
    rw [List.mem_singleton.mp h]
    exact List.not_mem_nil
  | cons c cs ih =>
    rw [splitOn] at h
    split at h
    · rcases List.mem_cons.mp h with rfl | h
      · exact List.not_mem_nil
      · exact ih h
    -- `c` is no separator and begins the first piece
    · rename_i hc
      split at h
      · rw [List.mem_singleton.mp h]
        simpa using Ne.symm hc
      · rename_i piece pieces hsplit
        rcases List.mem_cons.mp h with rfl | h
        · have hpiece : sep ∉ piece := ih (by rw [hsplit]; exact List.mem_cons_self)
          exact List.not_mem_cons_of_ne_of_not_mem (Ne.symm hc) hpiece
        · exact ih (by rw [hsplit]; exact List.mem_cons_of_mem _ h)

/-- What is dropped at the end of a line is blank. -/
theorem exists_dropCarriageReturn (line : List Char) :
    ∃ right, isBlank right = true ∧ line = dropCarriageReturn line ++ right := by
  rw [dropCarriageReturn]
  cases hstrip : stripEnd? ['\r'] line with
  | none => exact ⟨[], rfl, (List.append_nil line).symm⟩
  | some rest => exact ⟨['\r'], rfl, stripEnd?_eq_some.mp hstrip⟩

/-- A line has no line feed in it. -/
theorem notMem_of_mem_lines (h : l ∈ lines cs) : '\n' ∉ l := by
  have hpieces {pieces : List (List Char)} (hplain : ∀ p ∈ pieces, '\n' ∉ p) :
      ∀ l ∈ lines.close pieces, '\n' ∉ l := by
    fun_induction lines.close pieces with
    | case1 | case2 => exact fun l hl => absurd hl List.not_mem_nil
    | case3 last => exact hplain
    | case4 piece pieces _ _ ih =>
      obtain ⟨hpiece, hplain⟩ := List.forall_mem_cons.mp hplain
      obtain ⟨right, -, hright⟩ := exists_dropCarriageReturn piece
      refine List.forall_mem_cons.mpr ⟨fun hmem => hpiece ?_, ih hplain⟩
      rw [hright]
      exact List.mem_append_left _ hmem
  exact hpieces (fun p hp => notMem_of_mem_splitOn hp) l h

/-- The lines of a text are those that it was joined from, but for blanks behind them. -/
theorem forall₂_lines_join (hplain : ∀ l ∈ ls, '\n' ∉ l)
    (hlast : ∀ l ∈ ls.getLast?, isBlank l = false) :
    LoseBlanks ls (lines (join ['\n'] ls)) := by
  induction ls with
  | nil => exact .nil
  | cons l ls ih =>
    obtain ⟨hl, hplain⟩ := List.forall_mem_cons.mp hplain
    cases ls with
    | nil =>
      have hfilled : isBlank l = false := hlast l rfl
      rw [join, lines_of_notMem hl (by rintro rfl; cases hfilled)]
      exact .cons ⟨[], rfl, (List.append_nil l).symm⟩ .nil
    | cons l' ls =>
      rw [join_cons (List.cons_ne_nil _ _), List.append_assoc, List.singleton_append,
        lines_append_lineFeed hl]
      exact .cons (exists_dropCarriageReturn l) (ih hplain hlast)

/-- A text that is joined from lines ends like the last of them. -/
theorem getLast?_join (hne : ∀ l ∈ ls.getLast?, l ≠ []) :
    (join ['\n'] ls).getLast? = ls.getLast?.bind List.getLast? := by
  induction ls with
  | nil => rfl
  | cons l ls ih =>
    cases ls with
    | nil => rfl
    | cons l' ls =>
      -- the lines behind are not empty as a text, since the last of them has characters
      rw [List.getLast?_cons_cons] at hne ⊢
      rw [join_cons (List.cons_ne_nil _ _), ← ih hne, List.getLast?_append_of_ne_nil]
      intro hnil
      have hend := ih hne
      rw [hnil, List.getLast?_nil, List.getLast?_eq_some_getLast (List.cons_ne_nil l' ls),
        Option.bind_some] at hend
      exact hne _ (List.getLast?_eq_some_getLast (List.cons_ne_nil l' ls))
        (List.getLast?_eq_none_iff.mp hend.symm)

end Text

/-! ### Blank lines at the ends -/

/-- What is dropped at the ends of some lines is blank. -/
theorem exists_trimBlankLines (ls : List (List Char)) :
    ∃ front back, ls = front ++ (trimBlankLines ls ++ back) ∧
      (∀ l ∈ front, Text.isBlank l = true) ∧ ∀ l ∈ back, Text.isBlank l = true := by
  refine ⟨ls.takeWhile Text.isBlank, ((ls.dropWhile Text.isBlank).reverse.takeWhile
    Text.isBlank).reverse, ?_, fun l hl => List.mem_takeWhile_imp hl,
    fun l hl => List.mem_takeWhile_imp (List.mem_reverse.mp hl)⟩
  rw [trimBlankLines, ← List.reverse_append, List.takeWhile_append_dropWhile, List.reverse_reverse,
    List.takeWhile_append_dropWhile]

/-- What is left neither begins nor ends with a blank line. -/
theorem filled_trimBlankLines (ls : List (List Char)) :
    (∀ l ∈ (trimBlankLines ls).head?, Text.isBlank l = false) ∧
      ∀ l ∈ (trimBlankLines ls).getLast?, Text.isBlank l = false := by
  have hfirst (ls : List (List Char)) :
      ∀ l ∈ (ls.dropWhile Text.isBlank).head?, Text.isBlank l = false := by
    intro l hl
    have hnot := List.head?_dropWhile_not Text.isBlank ls
    rw [Option.mem_def.mp hl] at hnot
    simpa using hnot
  constructor
  · -- the lines that are left are the first of those behind the blank lines in front
    intro l hl
    have hprefix : trimBlankLines ls <+: ls.dropWhile Text.isBlank := by
      rw [trimBlankLines, ← List.reverse_suffix, List.reverse_reverse]
      exact List.dropWhile_suffix _
    obtain ⟨more, hmore⟩ := hprefix
    refine hfirst ls l ?_
    rw [← hmore, List.head?_append, Option.mem_def.mp hl, Option.some_or]
    rfl
  · intro l hl
    rw [trimBlankLines, List.getLast?_reverse] at hl
    exact hfirst _ l hl

/-! ### The margin -/

/-- The least indentation of the lines that are not blank; 0 if all are. -/
def IsMargin (ls : List (List Char)) (margin : Nat) : Prop :=
  (∀ l ∈ ls, Text.isBlank l = false → margin ≤ indentWidth l) ∧
    ((∃ l ∈ ls, Text.isBlank l = false ∧ indentWidth l = margin) ∨
      (∀ l ∈ ls, Text.isBlank l = true) ∧ margin = 0)

/-- The indentation that is computed is the margin of the lines. -/
theorem isMargin_baseIndent (ls : List (List Char)) : IsMargin ls (baseIndent ls) := by
  refine ⟨fun l hl hfilled => baseIndent_le hl hfilled, ?_⟩
  rw [baseIndent]
  cases hmin : ((ls.filter fun l => !Text.isBlank l).map indentWidth).min? with
  | none =>
    refine .inr ⟨fun l hl => ?_, rfl⟩
    have hnone := List.filter_eq_nil_iff.mp (List.map_eq_nil_iff.mp (List.min?_eq_none_iff.mp hmin))
    simpa using hnone l hl
  | some least =>
    obtain ⟨l, hl, hwidth⟩ := List.mem_map.mp (List.min?_eq_some_iff.mp hmin).1
    obtain ⟨hl, hfilled⟩ := List.mem_filter.mp hl
    exact .inl ⟨l, hl, by simpa using hfilled, hwidth⟩

/-- Some lines have one margin. -/
theorem isMargin_iff {ls : List (List Char)} {margin : Nat} :
    IsMargin ls margin ↔ margin = baseIndent ls := by
  refine ⟨fun ⟨hleast, hsome⟩ => ?_, fun h => h ▸ isMargin_baseIndent ls⟩
  obtain ⟨hleast', hsome'⟩ := isMargin_baseIndent ls
  rcases hsome with ⟨l, hl, hfilled, rfl⟩ | ⟨hblank, rfl⟩ <;>
    rcases hsome' with ⟨l', hl', hfilled', hwidth⟩ | ⟨hblank', hzero⟩
  · have hle := hleast l' hl' hfilled'
    have hle' := hleast' l hl hfilled
    omega
  · exact absurd (hblank' l hl) (by simp [hfilled])
  · exact absurd (hblank l' hl') (by simp [hfilled'])
  · exact hzero.symm

/-! ### What is kept of a line -/

/-- What is kept of a line without a margin, given with its number, counted from 0.  The first line
    has no indentation left, the others have what they had beyond the margin. -/
structure KeepsLine (margin : Nat) (line : List Char × Nat) (l : List Char) : Prop where
  blank : Text.isBlank l = Text.isBlank line.1
  text : Text.trim l = Text.trim line.1
  first : Text.isBlank line.1 = false → line.2 = 0 → indentWidth l = 0
  indent : Text.isBlank line.1 = false → line.2 ≠ 0 → indentWidth l + margin = indentWidth line.1

namespace KeepsLine

variable {margin : Nat} {line : List Char × Nat} {l right : List Char}

/-- Blanks behind a line do not matter. -/
theorem of_append (h : KeepsLine margin line (l ++ right)) (hright : Text.isBlank right = true) :
    KeepsLine margin line l := by
  have hblank : Text.isBlank l = Text.isBlank line.1 := by
    rw [← h.blank, Text.isBlank_append, hright, Bool.and_true]
  have hwidth (hfilled : Text.isBlank line.1 = false) :
      indentWidth (l ++ right) = indentWidth l := indentWidth_append (hblank.trans hfilled) right
  refine ⟨hblank, ?_, fun hfilled hfirst => ?_, fun hfilled hlater => ?_⟩
  · rw [← h.text, Text.trim_append_right l hright]
  · rw [← hwidth hfilled, h.first hfilled hfirst]
  · rw [← hwidth hfilled, h.indent hfilled hlater]

/-- The first line loses the blanks in front. -/
theorem trimStart (margin : Nat) (l : List Char) : KeepsLine margin (l, 0) (Text.trimStart l) := by
  have hline : l = l.takeWhile Text.isSpace ++ Text.trimStart l :=
    List.takeWhile_append_dropWhile.symm
  have hleft : Text.isBlank (l.takeWhile Text.isSpace) = true := List.all_takeWhile
  refine ⟨?_, ?_, fun _ _ => ?_, fun _ hlater => absurd rfl hlater⟩
  · conv_rhs => rw [hline]
    rw [Text.isBlank_append, hleft, Bool.true_and]
  · conv_rhs => rw [hline]
    rw [Text.trim, Text.trim, Text.trimStart_append_left hleft]
  · have hwidth := indentWidth_blank_append hleft (Text.trimStart l)
    rw [← hline, indentWidth] at hwidth
    omega

/-- A later line loses the margin. -/
theorem cleanLine {l : List Char} {number : Nat} (hnumber : number ≠ 0)
    (hmargin : Text.isBlank l = false → margin ≤ indentWidth l) :
    KeepsLine margin (l, number) (cleanLine margin l) := by
  rw [PackageDoc.cleanLine]
  split
  · rename_i hblank
    exact ⟨hblank.symm, (Text.trim_eq_nil_iff.mpr hblank).symm,
      fun hfilled => absurd hblank (by simp [hfilled]), fun hfilled => absurd hblank (by simp [hfilled])⟩
  · obtain ⟨left, hleft, hlength, hline⟩ := exists_stripIndent margin l
    obtain ⟨right, hright, hend⟩ := Text.exists_trimEnd (stripIndent margin l)
    -- the blanks at the end do not matter, so only the margin is left to be looked at
    suffices hall : KeepsLine margin (l, number) (Text.trimEnd (stripIndent margin l) ++ right) from
      hall.of_append hright
    rw [← hend]
    refine ⟨?_, ?_, fun _ hfirst => absurd hfirst hnumber, fun hfilled _ => ?_⟩
    · conv_rhs => rw [hline]
      rw [Text.isBlank_append, hleft, Bool.true_and]
    · conv_rhs => rw [hline]
      rw [Text.trim, Text.trim, Text.trimStart_append_left hleft]
    · have hwidth := indentWidth_blank_append hleft (stripIndent margin l)
      rw [← hline, hlength, Nat.min_eq_left (hmargin hfilled)] at hwidth
      rw [hwidth, Nat.add_comm]

end KeepsLine

/-- What is kept of some lines without a margin, for each line in its order. -/
abbrev KeepsLines (margin : Nat) : List (List Char × Nat) → List (List Char) → Prop :=
  List.Forall₂ (KeepsLine margin)

namespace KeepsLines

variable {margin : Nat} {lines : List (List Char × Nat)} {ls ls' : List (List Char)}

/-- The lines behind the first lose the margin. -/
theorem cleanLine {ls : List (List Char)} {number : Nat} (hnumber : number ≠ 0)
    (hmargin : ∀ l ∈ ls, Text.isBlank l = false → margin ≤ indentWidth l) :
    KeepsLines margin (ls.zipIdx number) (ls.map (PackageDoc.cleanLine margin)) := by
  induction ls generalizing number with
  | nil => exact .nil
  | cons l ls ih =>
    obtain ⟨hl, hls⟩ := List.forall_mem_cons.mp hmargin
    exact .cons (.cleanLine hnumber hl) (ih (Nat.succ_ne_zero number) hls)

/-- Blanks behind the lines do not matter. -/
theorem trans (h : KeepsLines margin lines ls) (hls : LoseBlanks ls ls') :
    KeepsLines margin lines ls' := by
  induction h generalizing ls' with
  | nil =>
    cases hls
    exact .nil
  | cons hline _ ih =>
    cases hls with
    | cons hl hls =>
      obtain ⟨right, hright, rfl⟩ := hl
      exact .cons (hline.of_append hright) (ih hls)

/-- The lines are cut where those that are left of them are. -/
theorem exists_append (h : KeepsLines margin lines (ls ++ ls')) :
    ∃ front back, lines = front ++ back ∧ KeepsLines margin front ls ∧ KeepsLines margin back ls' :=
  ⟨_, _, (List.take_append_drop _ _).symm, List.forall₂_take_append _ _ _ h,
    List.forall₂_drop_append _ _ _ h⟩

/-- Nothing but blank lines becomes blank. -/
theorem isBlank (h : KeepsLines margin lines ls) (hls : ∀ l ∈ ls, Text.isBlank l = true) :
    ∀ line ∈ lines, Text.isBlank line.1 = true := by
  induction h with
  | nil => exact fun _ hline => absurd hline List.not_mem_nil
  | cons hline _ ih =>
    obtain ⟨hl, hls⟩ := List.forall_mem_cons.mp hls
    exact List.forall_mem_cons.mpr ⟨hline.blank.symm.trans hl, ih hls⟩

/-- The lines that are not blank say the same. -/
theorem filled (h : KeepsLines margin lines ls) :
    (ls.filter fun l => !Text.isBlank l).map Text.trim =
      ((lines.map Prod.fst).filter fun l => !Text.isBlank l).map Text.trim := by
  induction h with
  | nil => rfl
  | cons hline _ ih =>
    rw [List.map_cons, List.filter_cons, List.filter_cons, hline.blank]
    split
    · rw [List.map_cons, List.map_cons, hline.text, ih]
    · exact ih

end KeepsLines

/-! ### Cleaning -/

/-- `out` is what is left of the lines `X` when `margin` is taken off them. -/
structure MarginRemoved (X : List (List Char)) (margin : Nat) (out : List Char) : Prop where
  tabless : '\t' ∉ out
  /-- No blank line stands at either end. -/
  edges : out = [] ∨ (∃ l ∈ (Text.lines out).head?, Text.isBlank l = false) ∧
    (∃ l ∈ (Text.lines out).getLast?, Text.isBlank l = false) ∧ out.getLast? ≠ some '\n'
  /-- The lines that are not blank say the same. -/
  filled : ((Text.lines out).filter fun l => !Text.isBlank l).map Text.trim =
    (X.filter fun l => !Text.isBlank l).map Text.trim
  /-- The lines from the first to the last that is not blank are kept, each with its indentation, and
      blank ones between them as such. -/
  aligned : ∃ front middle back, X.zipIdx = front ++ (middle ++ back) ∧
    (∀ line ∈ front ++ back, Text.isBlank line.1 = true) ∧
    KeepsLines margin middle (Text.lines out)

/-! Lines that lose nothing but blanks at their ends begin and end alike. -/

section Ends

variable {ls ls' : List (List Char)}

/-- Lines that lose blanks at their ends keep a first line that is filled. -/
theorem LoseBlanks.exists_head (h : LoseBlanks ls ls') (hne : ls ≠ [])
    (hfilled : ∀ l ∈ ls.head?, Text.isBlank l = false) : ∃ l ∈ ls'.head?, Text.isBlank l = false := by
  cases h with
  | nil => exact absurd rfl hne
  | @cons l l' _ _ hl _ =>
    obtain ⟨right, hright, rfl⟩ := hl
    refine ⟨l', rfl, ?_⟩
    have hl := hfilled _ rfl
    rwa [Text.isBlank_append, hright, Bool.and_true] at hl

/-- They keep a last one that is. -/
theorem LoseBlanks.exists_getLast (h : LoseBlanks ls ls') (hne : ls ≠ [])
    (hfilled : ∀ l ∈ ls.getLast?, Text.isBlank l = false) :
    ∃ l ∈ ls'.getLast?, Text.isBlank l = false := by
  rw [← List.head?_reverse] at hfilled ⊢
  exact LoseBlanks.exists_head (List.forall₂_reverse_iff.mpr h) (by simpa using hne) hfilled

end Ends

section Cleaning

variable {X cleaned : List (List Char)} {margin : Nat}

/-- A character of pieces that are joined is of a piece or of the separator. -/
theorem Text.mem_join {c : Char} {sep : List Char} {ls : List (List Char)} (h : c ∈ join sep ls) :
    c ∈ sep ∨ ∃ l ∈ ls, c ∈ l := by
  induction ls with
  | nil => exact absurd h List.not_mem_nil
  | cons l ls ih =>
    cases ls with
    | nil => exact .inr ⟨l, List.mem_cons_self, h⟩
    | cons l' ls =>
      rw [join_cons (List.cons_ne_nil _ _), List.append_assoc, List.mem_append, List.mem_append] at h
      rcases h with h | h | h
      · exact .inr ⟨l, List.mem_cons_self, h⟩
      · exact .inl h
      · exact (ih h).imp_right fun ⟨l, hl, hc⟩ => ⟨l, List.mem_cons_of_mem _ hl, hc⟩

/-- Lines that are kept may lose the blank ones at the ends and be joined to a text. -/
theorem KeepsLines.marginRemoved (h : KeepsLines margin X.zipIdx cleaned)
    (hplain : ∀ l ∈ cleaned, '\t' ∉ l ∧ '\n' ∉ l) :
    MarginRemoved X margin (Text.join ['\n'] (trimBlankLines cleaned)) := by
  obtain ⟨front, back, hcleaned, hfront, hback⟩ := exists_trimBlankLines cleaned
  obtain ⟨hfirst, hlast⟩ := filled_trimBlankLines cleaned
  generalize trimBlankLines cleaned = kept at hcleaned hfirst hlast ⊢
  subst hcleaned
  have hkept : ∀ l ∈ kept, '\t' ∉ l ∧ '\n' ∉ l := fun l hl => hplain l (by simp [hl])
  have hlines : LoseBlanks kept (Text.lines (Text.join ['\n'] kept)) :=
    Text.forall₂_lines_join (fun l hl => (hkept l hl).2) hlast
  -- the lines are cut where those that are left of them are
  obtain ⟨X₁, _, hX, h₁, hmore⟩ := h.exists_append
  obtain ⟨X₂, X₃, rfl, h₂, h₃⟩ := hmore.exists_append
  have hX₁ := h₁.isBlank hfront
  have hX₃ := h₃.isBlank hback
  have haligned := h₂.trans hlines
  refine ⟨fun htab => ?_, ?_, ?_, X₁, X₂, X₃, hX, List.forall_mem_append.mpr ⟨hX₁, hX₃⟩, haligned⟩
  · rcases Text.mem_join htab with hsep | ⟨l, hl, hmem⟩
    · exact absurd hsep (by decide)
    · exact (hkept l hl).1 hmem
  · by_cases hne : kept = []
    · exact .inl (by rw [hne]; rfl)
    · refine .inr ⟨hlines.exists_head hne hfirst, hlines.exists_getLast hne hlast, fun hend => ?_⟩
      have hfilled : ∀ l ∈ kept.getLast?, l ≠ [] := by
        rintro l hl rfl
        exact absurd (hlast [] hl) (by decide)
      rw [Text.getLast?_join hfilled] at hend
      obtain ⟨l, hl, hend⟩ := Option.bind_eq_some_iff.mp hend
      exact (hkept l (List.mem_of_getLast? hl)).2 (List.mem_of_getLast? hend)
  · have hsplit : X = X₁.map Prod.fst ++ (X₂.map Prod.fst ++ X₃.map Prod.fst) := by
      rw [← List.map_append, ← List.map_append, ← hX, List.zipIdx_map_fst]
    have hnone {lines : List (List Char × Nat)} (hlines : ∀ line ∈ lines, Text.isBlank line.1 = true) :
        ((lines.map Prod.fst).filter fun l => !Text.isBlank l) = [] := by
      refine List.filter_eq_nil_iff.mpr fun l hl => ?_
      obtain ⟨line, hline, rfl⟩ := List.mem_map.mp hl
      simp [hlines line hline]
    rw [haligned.filled, hsplit, List.filter_append, List.filter_append, hnone hX₁, hnone hX₃,
      List.nil_append, List.append_nil]

end Cleaning

/-- A line of what cleaning begins with has no tabs and is one line. -/
theorem plain_of_expands {doc : List Char} {X : List (List Char)} {l : List Char}
    (hX : List.Forall₂ (Expands 0) (Text.lines doc) X) (hl : l ∈ X) : '\t' ∉ l ∧ '\n' ∉ l := by
  obtain rfl := forall₂_expands_iff.mp hX
  obtain ⟨line, hline, rfl⟩ := List.mem_map.mp hl
  have hmem {c : Char} := (expands_expandTabs 0 line).mem (c := c)
  refine ⟨fun htab => (hmem htab).1 rfl, fun hbreak => ?_⟩
  rcases (hmem hbreak).2 with heq | hbreak
  · exact absurd heq (by decide)
  · exact Text.notMem_of_mem_lines hline hbreak

/-- Cleaning a line brings no new character. -/
theorem cleanLine_subset (margin : Nat) (l : List Char) : cleanLine margin l ⊆ l := by
  rw [cleanLine]
  split
  · exact List.nil_subset l
  · obtain ⟨right, -, hend⟩ := Text.exists_trimEnd (stripIndent margin l)
    have hpart : Text.trimEnd (stripIndent margin l) ⊆ stripIndent margin l := by
      conv_rhs => rw [hend]
      exact List.subset_append_left _ _
    exact fun c hc => List.drop_subset _ l (hpart hc)

/-- **Cleaning removes the margin and nothing else.**  The lines of a docstring, with their tabs
    expanded, keep what they say and their indentation relative to the margin. -/
theorem cleanDoc_marginRemoved {doc : String} {X : List (List Char)} {margin : Nat}
    (hX : List.Forall₂ (Expands 0) (Text.lines doc.toList) X) (hmargin : IsMargin X.tail margin) :
    MarginRemoved X margin (cleanDoc doc).toList := by
  have hplain : ∀ l ∈ X, '\t' ∉ l ∧ '\n' ∉ l := fun l hl => plain_of_expands hX hl
  obtain rfl := isMargin_iff.mp hmargin
  rw [cleanDoc, String.toList_ofList, cleanLines, ← forall₂_expands_iff.mp hX]
  cases X with
  | nil =>
    have hnil : KeepsLines (baseIndent []) (List.zipIdx []) [] := .nil
    exact hnil.marginRemoved fun l hl => absurd hl List.not_mem_nil
  | cons first rest =>
    have hrest : KeepsLines (baseIndent rest) (rest.zipIdx 1) (rest.map (cleanLine (baseIndent rest))) :=
      .cleanLine Nat.one_ne_zero fun l hl hfilled => baseIndent_le hl hfilled
    refine KeepsLines.marginRemoved (.cons (.trimStart _ first) hrest) ?_
    intro l hl
    obtain ⟨line, hline, hsub⟩ : ∃ line ∈ first :: rest, l ⊆ line := by
      rcases List.mem_cons.mp hl with rfl | hl
      · exact ⟨first, List.mem_cons_self, (trimStart_suffix first).subset⟩
      · obtain ⟨line, hline, rfl⟩ := List.mem_map.mp hl
        exact ⟨line, List.mem_cons_of_mem _ hline, cleanLine_subset _ line⟩
    exact ⟨fun htab => (hplain line hline).1 (hsub htab), fun hbreak => (hplain line hline).2 (hsub hbreak)⟩

/-- A docstring with blanks and tabs before its lines. -/
def tabbedDoc : String := "  Sums.\t\n\n\t  a\n\u3000\t\tb\n  \n"

/-- Its lines with the tabs expanded. -/
def tabbedLines : List (List Char) :=
  ["  Sums. ".toList, [], "          a".toList, "\u3000               b".toList, "  ".toList]

/-- A docstring with tabs, and a blank line wider than its margin, loses the margin. -/
theorem cleanDoc_marginRemoved_tabbed :
    List.Forall₂ (Expands 0) (Text.lines tabbedDoc.toList) tabbedLines ∧
      IsMargin tabbedLines.tail 10 ∧ MarginRemoved tabbedLines 10 (cleanDoc tabbedDoc).toList := by
  have hX : List.Forall₂ (Expands 0) (Text.lines tabbedDoc.toList) tabbedLines :=
    forall₂_expands_iff.mpr (by decide +kernel)
  have hmargin : IsMargin tabbedLines.tail 10 := isMargin_iff.mpr (by decide +kernel)
  exact ⟨hX, hmargin, cleanDoc_marginRemoved hX hmargin⟩

example : cleanDoc tabbedDoc = "Sums. \n\na\n      b" := by decide +kernel

end PackageDoc
