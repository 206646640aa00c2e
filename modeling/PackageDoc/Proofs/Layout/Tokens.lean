import PackageDoc.Proofs.Layout.Walk

namespace PackageDoc

/-!
# The layout of the tokens of a text

The tokens of a text without lexical issues are in their order, and each of them can stand where it
does.  The columns of the enclosing blocks, as the layout has them, are those on the stack of the
lexer after every step.

* `Lexer.Laid` — the invariant of the walk;
* `Lexer.laid_step` and `Lexer.laid_finish` — a step and the end of the text preserve it;
* `tokenize_wellLaid` — the tokens of a text are well laid.
-/

/-! ### Columns -/

namespace Text

/-- Two texts are as long as both together. -/
theorem byteLength_append (cs ds : List Char) :
    byteLength (cs ++ ds) = byteLength cs + byteLength ds := by
  induction cs with
  | nil => rw [List.nil_append, byteLength, Nat.zero_add]
  | cons c cs ih => rw [List.cons_append, byteLength, byteLength, ih, Nat.add_assoc]

/-- A text with a character is longer than nothing. -/
theorem byteLength_pos {cs : List Char} (h : cs ≠ []) : 0 < byteLength cs := by
  cases cs with
  | nil => exact absurd rfl h
  | cons c cs =>
    rw [byteLength]
    have hc := c.utf8Size_pos
    omega

/-- What stands before the rest of a text is its beginning. -/
theorem before_append (cs ds : List Char) : before (byteLength cs) (cs ++ ds) = cs := by
  induction cs with
  | nil => cases ds <;> simp [byteLength, before]
  | cons c cs ih =>
    obtain ⟨n, hn⟩ : ∃ n, byteLength (c :: cs) = n + 1 :=
      ⟨byteLength (c :: cs) - 1, (Nat.succ_pred_eq_of_pos (byteLength_pos (by simp))).symm⟩
    rw [hn, List.cons_append, before, ← hn]
    simp [byteLength, ih]

/-- Behind the blanks at the beginning of a line the column is the one that they lead to. -/
theorem column_append {done blanks : List Char} (rest : List Char)
    (hdone : done.rtakeWhile isGap = []) (hblanks : ∀ c ∈ blanks, isGap c = true) :
    column (done ++ (blanks ++ rest)) (byteLength done + byteLength blanks) =
      (spanIndent 0 blanks).1 := by
  have hbefore : (done ++ blanks).rtakeWhile isGap = blanks := by
    rw [List.rtakeWhile, List.reverse_eq_nil_iff] at hdone
    rw [List.rtakeWhile, List.reverse_append, List.takeWhile_append_of_pos, hdone,
      List.append_nil, List.reverse_reverse]
    simpa using hblanks
  rw [column, ← byteLength_append, ← List.append_assoc, before_append, hbefore]

end Text

/-! ### One more token -/

theorem Ordered.cons {ts : List Token} {t : Token} {offset : Nat} (h : Ordered ts.reverse)
    (hbounded : ∀ u ∈ ts, u.span.stop ≤ offset) (hstart : offset ≤ t.span.start)
    (hstop : t.span.start ≤ t.span.stop)
    (hsolid : t.kind.isContent = true ∨ t.kind = .comment → t.span.start < t.span.stop) :
    Ordered (t :: ts).reverse := by
  rw [List.reverse_cons]
  refine ⟨List.pairwise_append.mpr ⟨h.apart, List.pairwise_singleton _ _, ?_⟩, ?_, ?_⟩
  · intro u hu v hv
    obtain rfl := List.mem_singleton.mp hv
    exact le_trans (hbounded u (List.mem_reverse.mp hu)) hstart
  · intro u hu
    rcases List.mem_append.mp hu with hu | hu
    · exact h.forward u hu
    · obtain rfl := List.mem_singleton.mp hu
      exact hstop
  · intro u hu
    rcases List.mem_append.mp hu with hu | hu
    · exact h.solid u hu
    · obtain rfl := List.mem_singleton.mp hu
      exact hsolid

/-- A layout goes on with the token that is added. -/
theorem Layout.run_reverse_cons {column : Nat → Nat} {ts : List Token} {l l' : Layout} {t : Token}
    (h : run column {} ts.reverse = some l) (hstep : step column l t = some l') :
    run column {} (t :: ts).reverse = some l' := by
  rw [List.reverse_cons, run_append, h, Option.bind_some, run_cons, hstep]
  rfl

namespace Lexer

/-! ### The invariant -/

/-- Where in a line the walk stands, and where the open line begins. -/
inductive Phase (source : List Char) (s : Lexer) : Option Nat → Prop
  /-- At the first character of a physical line. -/
  | lineStart (atLineStart : s.atLineStart = true) (depth : s.depth = 0)
    (closed : ∀ last ∈ s.tokens.head?, last.kind.closesLine = true)
    (blanks : ∀ done, source = done ++ s.rest → s.rest = [] ∨ done.rtakeWhile isGap = []) :
    Phase source s none
  /-- At the first token of a logical line. -/
  | first (atLineStart : s.atLineStart = false) (depth : s.depth = 0)
    (column : Text.column source s.offset = s.indents.headD 0) (c : Char) (cs : List Char)
    (rest : s.rest = c :: cs) (gap : isGap c = false) (lineBreak : isLineBreak c = false)
    (hash : c ≠ '#') (joined : c = '\\' → (spanLineBreak cs).1 = []) : Phase source s none
  /-- Behind the first token of a logical line. -/
  | inside (start : Nat) (atLineStart : s.atLineStart = false) : Phase source s (some start)

/-- The tokens read so far are in their order and lie in the text read so far. -/
structure Based (source : List Char) (s : Lexer) : Prop where
  text : ∃ done, source = done ++ s.rest ∧ Text.byteLength done = s.offset
  ordered : Ordered s.tokens.reverse
  bounded : ∀ t ∈ s.tokens, t.span.stop ≤ s.offset
  bottom : s.indents.getLast? = some 0

/-- Besides, they can all stand where they do. -/
structure Laid (source : List Char) (s : Lexer) : Prop extends Based source s where
  layout : ∃ line, Layout.run (Text.column source) {} s.tokens.reverse = some ⟨line, s.indents⟩ ∧
    Phase source s line

variable {source : List Char} {s s' : Lexer} {gap text : List Char}

/-- Characters are passed over. -/
theorem Based.pass (h : Based source s) (hrest : s.rest = text ++ s'.rest)
    (hoffset : s'.offset = s.offset + Text.byteLength text) (htokens : s'.tokens = s.tokens)
    (hbottom : s'.indents.getLast? = some 0) : Based source s' := by
  obtain ⟨done, hdone, hlength⟩ := h.text
  refine ⟨⟨done ++ text, ?_, ?_⟩, ?_, ?_, hbottom⟩
  · rw [hdone, hrest, List.append_assoc]
  · rw [Text.byteLength_append, hlength, hoffset]
  · rw [htokens]
    exact h.ordered
  · rw [htokens]
    intro t ht
    have hbound := h.bounded t ht
    omega

/-- Characters are passed over, the last of them as a token. -/
theorem Based.cons (h : Based source s) (hrest : s.rest = text ++ s'.rest)
    (hoffset : s'.offset = s.offset + Text.byteLength text) {t : Token}
    (htokens : s'.tokens = t :: s.tokens) (hstart : s.offset ≤ t.span.start)
    (hforward : t.span.start ≤ t.span.stop) (hstop : t.span.stop = s'.offset)
    (hsolid : t.kind.isContent = true ∨ t.kind = .comment → t.span.start < t.span.stop)
    (hbottom : s'.indents.getLast? = some 0) : Based source s' := by
  obtain ⟨done, hdone, hlength⟩ := h.text
  refine ⟨⟨done ++ text, ?_, ?_⟩, ?_, ?_, hbottom⟩
  · rw [hdone, hrest, List.append_assoc]
  · rw [Text.byteLength_append, hlength, hoffset]
  · rw [htokens]
    exact h.ordered.cons h.bounded hstart hforward hsolid
  · rw [htokens]
    intro u hu
    rcases List.mem_cons.mp hu with rfl | hu
    · exact hstop.le
    · have hbound := h.bounded u hu
      omega

/-- Behind a line terminator stand no blanks. -/
theorem rtakeWhile_of_isLineBreak (done : List Char) (hne : text ≠ [])
    (hbreaks : ∀ c ∈ text, isLineBreak c = true) : (done ++ text).rtakeWhile isGap = [] := by
  obtain ⟨cs, c, rfl⟩ := (List.eq_nil_or_concat' text).resolve_left hne
  have hc : isGap c = false := by
    have hbreak := hbreaks c (by simp)
    simp only [isLineBreak, Bool.or_eq_true, beq_iff_eq] at hbreak
    rcases hbreak with rfl | rfl <;> rfl
  rw [← List.append_assoc, List.rtakeWhile_concat_neg _ _ _ (by simp [hc])]

/-- Behind a line terminator a physical line begins. -/
theorem Based.lineBegins {front breaks after : List Char} (h : Based source s)
    (hrest : s.rest = front ++ breaks ++ after) (hne : breaks ≠ [])
    (hbreaks : ∀ c ∈ breaks, isLineBreak c = true) {done : List Char}
    (hdone : source = done ++ after) : done.rtakeWhile isGap = [] := by
  obtain ⟨before, hbefore, -⟩ := h.text
  rw [hrest, ← List.append_assoc, ← List.append_assoc] at hbefore
  obtain rfl := List.append_cancel_right (hbefore.symm.trans hdone)
  exact rtakeWhile_of_isLineBreak _ hne hbreaks

/-! ### Steps inside a line -/

/-- The invariant after a step that reads a token. -/
theorem Reads.laid_cons (h : Reads s s' gap text) (hs : s.Based source) {kind : TokenKind}
    {line : Option Nat}
    (htokens : s'.tokens =
      ⟨kind, ⟨s.offset + Text.byteLength gap, s'.offset⟩, String.ofList text⟩ :: s.tokens)
    (hlayout : Layout.run (Text.column source) {} s'.tokens.reverse = some ⟨line, s'.indents⟩)
    (hphase : Phase source s' line) : s'.Laid source := by
  have hpos := Text.byteLength_pos h.ne_nil
  have hoffset := h.offset
  refine ⟨hs.cons (h.rest.trans (List.append_assoc _ _ _).symm) ?_ htokens ?_ ?_ rfl ?_ ?_, line,
    hlayout, hphase⟩
  · rw [Text.byteLength_append, hoffset, Nat.add_assoc]
  · simp
  · simp only
    omega
  · simp only
    omega
  · rw [h.indents]
    exact hs.bottom

/-- The invariant after a step that reads no token. -/
theorem Reads.laid_same (h : Reads s s' gap text) (hs : s.Based source)
    (htokens : s'.tokens = s.tokens) {line : Option Nat}
    (hlayout : Layout.run (Text.column source) {} s.tokens.reverse = some ⟨line, s.indents⟩)
    (hphase : Phase source s' line) : s'.Laid source := by
  refine ⟨hs.pass (h.rest.trans (List.append_assoc _ _ _).symm) ?_ htokens ?_, line, ?_, hphase⟩
  · rw [Text.byteLength_append, h.offset, Nat.add_assoc]
  · rw [h.indents]
    exact hs.bottom
  · rw [htokens, h.indents]
    exact hlayout

/-- The first token of a line is a part of a statement. -/
theorem Reads.laid_of_first (h : Reads s s' gap text) (hs : s.Based source)
    (hline : s.atLineStart = false) (hdepth : s.depth = 0)
    (hcolumn : Text.column source s.offset = s.indents.headD 0) {c : Char} {cs : List Char}
    (hrest : s.rest = c :: cs) (hgap : isGap c = false) (hbreak : isLineBreak c = false)
    (hhash : c ≠ '#') (hjoined : c = '\\' → (spanLineBreak cs).1 = [])
    (hlayout : Layout.run (Text.column source) {} s.tokens.reverse = some ⟨none, s.indents⟩) :
    s'.Laid source := by
  -- `c` is no blank, so that the token begins with it
  have hnil : gap = [] := by
    cases gap with
    | nil => rfl
    | cons d gap =>
      have hcut := h.rest
      rw [hrest, List.cons_append] at hcut
      obtain ⟨rfl, -⟩ := List.cons.inj hcut
      exact absurd (h.blanks c List.mem_cons_self) (by simp [hgap])
  subst hnil
  have hcut : c :: cs = text ++ s'.rest := by
    rw [← hrest, h.rest, List.nil_append]
  obtain ⟨more, rfl⟩ : ∃ more, text = c :: more := by
    cases htext : text with
    | nil => exact absurd htext h.ne_nil
    | cons d more =>
      rw [htext, List.cons_append] at hcut
      exact ⟨more, by rw [(List.cons.inj hcut).1]⟩
  cases h.effect with
  | content kind hkind htokens hstart =>
    refine h.laid_cons hs htokens ?_ (.inside s.offset (hstart.trans hline))
    rw [htokens]
    refine Layout.run_reverse_cons hlayout ?_
    simp [Layout.step, hkind, Text.byteLength, hcolumn, h.indents]
  | comment _ hhead => exact absurd (Option.some.inj hhead) hhash
  | newline _ hbreaks => exact absurd (hbreaks c List.mem_cons_self) (by simp [hbreak])
  | nothing hwhy =>
    rcases hwhy with hpos | ⟨cs', heq, hmore⟩
    · omega
    · obtain ⟨rfl, rfl⟩ := List.cons.inj (hcut.trans heq)
      exact absurd (hjoined rfl) hmore

/-- Inside a line parts of statements, a comment or the end of the line are read. -/
theorem Reads.laid_of_inside (h : Reads s s' gap text) (hs : s.Based source) {start : Nat}
    (hline : s.atLineStart = false)
    (hlayout : Layout.run (Text.column source) {} s.tokens.reverse = some ⟨some start, s.indents⟩) :
    s'.Laid source := by
  cases h.effect with
  | content kind hkind htokens hstart =>
    refine h.laid_cons hs htokens ?_ (.inside start (hstart.trans hline))
    rw [htokens, h.indents]
    refine Layout.run_reverse_cons hlayout ?_
    cases kind <;> simp_all [Layout.step, TokenKind.isContent]
  | comment _ _ htokens hstart =>
    refine h.laid_cons hs htokens ?_ (.inside start (hstart.trans hline))
    rw [htokens, h.indents]
    exact Layout.run_reverse_cons hlayout (by simp [Layout.step])
  | newline hdepth hbreaks htokens hstart =>
    refine h.laid_cons hs htokens ?_ (.lineStart hstart hdepth ?_ ?_)
    · rw [htokens, h.indents]
      exact Layout.run_reverse_cons hlayout (by simp [Layout.step])
    · rw [htokens]
      intro last hlast
      obtain rfl := Option.some.inj hlast
      rfl
    · have hcut := h.rest
      rw [← List.append_assoc] at hcut
      exact fun _ hdone => .inr (hs.lineBegins hcut h.ne_nil hbreaks hdone)
  | nothing _ htokens hstart =>
    exact h.laid_same hs htokens hlayout (.inside start (hstart.trans hline))

/-! ### Steps at the beginning of a line -/

/-- A token of no characters that is layout. -/
theorem Based.mark (h : Based source s) (kind : TokenKind) (hkind : kind.isContent = false)
    (hcomment : kind ≠ .comment) : Based source (s.mark kind) :=
  h.cons rfl rfl rfl (le_refl _) (le_refl _) rfl (by simp [hkind, hcomment]) h.bottom

/-- The columns of the open blocks may change above the bottom one. -/
theorem Based.withIndents (h : Based source s) {indents : List Nat}
    (hbottom : indents.getLast? = some 0) : Based source { s with indents := indents } :=
  ⟨h.text, h.ordered, h.bounded, hbottom⟩

/-- Where a line begins at `column`, the blocks that are indented further end. -/
theorem closeBlocks_laid (column : Nat) (indents : List Nat) (hs : Based source s)
    (hbottom : indents.getLast? = some 0)
    (hlayout : Layout.run (Text.column source) {} s.tokens.reverse = some ⟨none, indents⟩) :
    ∃ indents' tokens', closeBlocks column indents s =
        { s with indents := indents', tokens := tokens' } ∧
      Based source { s with indents := indents', tokens := tokens' } ∧
      Layout.run (Text.column source) {} tokens'.reverse = some ⟨none, indents'⟩ ∧
      indents'.headD 0 ≤ column := by
  induction indents generalizing s with
  | nil => exact absurd hbottom (by simp)
  | cons c cs ih =>
    rw [closeBlocks]
    split
    · rename_i hlt
      -- the outermost column is 0, so that there is a block around this one
      have hcs : cs ≠ [] := by
        rintro rfl
        obtain rfl := Option.some.inj hbottom
        omega
      obtain ⟨d, ds, rfl⟩ := List.exists_cons_of_ne_nil hcs
      refine ih (hs.mark .dedent rfl (by simp)) (by rwa [List.getLast?_cons_cons] at hbottom) ?_
      exact Layout.run_reverse_cons hlayout (by simp [Layout.step, TokenKind.isContent])
    · rename_i hle
      exact ⟨c :: cs, s.tokens, rfl, hs.withIndents hbottom, hlayout, Nat.le_of_not_lt hle⟩

/-- The layout where a logical line begins. -/
theorem indentTo_laid {column : Nat} (hs : Based source s) (hline : s.atLineStart = false)
    (hdepth : s.depth = 0) (hcolumn : Text.column source s.offset = column) {c : Char}
    {cs : List Char} (hrest : s.rest = c :: cs) (hgap : isGap c = false)
    (hbreak : isLineBreak c = false) (hhash : c ≠ '#')
    (hjoined : c = '\\' → (spanLineBreak cs).1 = [])
    (hlayout : Layout.run (Text.column source) {} s.tokens.reverse = some ⟨none, s.indents⟩)
    (hissues : (s.indentTo column).issues = []) :
    (s.indentTo column).Laid source ∧ (s.indentTo column).rest = s.rest ∧
      (s.indentTo column).atLineStart = false := by
  unfold indentTo at hissues ⊢
  dsimp only at hissues ⊢
  split at hissues
  -- further in than the block around it: a block begins
  · rename_i hlt
    rw [if_pos hlt]
    have hbottom : (column :: s.indents).getLast? = some 0 := by
      rw [List.getLast?_cons, hs.bottom, Option.getD_some]
    have hstep : Layout.step (Text.column source) ⟨none, s.indents⟩
        ⟨.indent, ⟨s.offset, s.offset⟩, ""⟩ = some ⟨none, column :: s.indents⟩ := by
      simpa [Layout.step, TokenKind.isContent, hcolumn] using hlt
    exact ⟨⟨(hs.mark .indent rfl (by simp)).withIndents hbottom, none,
      Layout.run_reverse_cons hlayout hstep,
      .first hline hdepth hcolumn c cs hrest hgap hbreak hhash hjoined⟩, rfl, hline⟩
  · rename_i hge
    rw [if_neg hge]
    split at hissues
    -- further out: blocks end, down to one that begins at this column
    · rename_i hlt
      rw [if_pos hlt]
      obtain ⟨indents', tokens', hclose, hbased, hlayout', hhead⟩ :=
        closeBlocks_laid column s.indents hs hs.bottom hlayout
      rw [hclose] at hissues ⊢
      split at hissues
      · rename_i heq
        rw [if_pos heq]
        exact ⟨⟨hbased, none, hlayout',
          .first hline hdepth (hcolumn.trans heq.symm) c cs hrest hgap hbreak hhash hjoined⟩, rfl, hline⟩
      · exact absurd hissues (by simp [report])
    -- at the column of the block
    · rename_i hle
      rw [if_neg hle]
      exact ⟨⟨hs, none, hlayout,
        .first hline hdepth (by omega) c cs hrest hgap hbreak hhash hjoined⟩, rfl, hline⟩

/-- Behind a line stands its terminator, or nothing. -/
theorem spanLine_snd (cs : List Char) :
    (spanLine cs).2 = [] ∨ (spanLineBreak (spanLine cs).2).1 ≠ [] := by
  cases hrest : (spanLine cs).2 with
  | nil => exact .inl rfl
  | cons c rest =>
    right
    have hc : isLineBreak c = true := by
      rw [spanLine, List.span_eq_takeWhile_dropWhile] at hrest
      have hnot := List.head?_dropWhile_not (fun c => !isLineBreak c) cs
      dsimp only at hrest
      rw [hrest] at hnot
      simpa using hnot
    obtain ⟨more, hmore⟩ := spanLineBreak_of_isLineBreak rest hc
    simp [hmore]

/-- The end of a line that holds no statement is read as a token of its own. -/
theorem blankLine_laid (hs : Based source s) (hline : s.atLineStart = true) (hdepth : s.depth = 0)
    (hlayout : Layout.run (Text.column source) {} s.tokens.reverse = some ⟨none, s.indents⟩)
    (hrest : s.rest = [] ∨ (spanLineBreak s.rest).1 ≠ []) : s.blankLine.Laid source := by
  have hcut := spanLineBreak_append s.rest
  have hstep : ∀ span text, Layout.step (Text.column source) ⟨none, s.indents⟩
      ⟨.blankLine, span, text⟩ = some ⟨none, s.indents⟩ := fun _ _ => rfl
  refine ⟨hs.cons hcut.symm rfl rfl (le_refl _) (Nat.le_add_right _ _) rfl
      (by simp [TokenKind.isContent]) hs.bottom, none, Layout.run_reverse_cons hlayout (hstep _ _),
    .lineStart hline hdepth ?_ fun done hdone => ?_⟩
  · rintro last ⟨⟩
    rfl
  · rcases hrest with hnil | hne
    · left
      change (spanLineBreak s.rest).2 = []
      rw [hnil]
      rfl
    · have hfront : s.rest = [] ++ (spanLineBreak s.rest).1 ++ (spanLineBreak s.rest).2 := hcut.symm
      exact .inr (hs.lineBegins hfront hne (spanLineBreak_isLineBreak _) hdone)

/-- A comment on a line of its own is read up to the end of the line, which is read with it. -/
theorem comment_laid {cs : List Char} (hs : Based source s) (hrest : s.rest = '#' :: cs)
    (hline : s.atLineStart = true) (hdepth : s.depth = 0)
    (hlayout : Layout.run (Text.column source) {} s.tokens.reverse = some ⟨none, s.indents⟩) :
    s.comment.blankLine.Laid source ∧ s.comment.blankLine.rest.length < s.rest.length := by
  obtain ⟨more, hmore⟩ := spanLine_hash cs
  have hcut := spanLine_append s.rest
  have hne : (spanLine s.rest).1 ≠ [] := by simp [hrest, hmore]
  have hcomment : Based source s.comment :=
    hs.cons hcut.symm rfl rfl (le_refl _) (Nat.le_add_right _ _) rfl
      (fun _ => Nat.lt_add_of_pos_right (Text.byteLength_pos hne)) hs.bottom
  refine ⟨blankLine_laid hcomment hline hdepth (Layout.run_reverse_cons hlayout rfl)
    (spanLine_snd _), ?_⟩
  have hlength := congrArg List.length hcut
  have hpos := List.length_pos_of_ne_nil hne
  rw [List.length_append] at hlength
  have hle : s.comment.blankLine.rest.length ≤ (spanLine s.rest).2.length := length_spanLineBreak_le _
  omega

/-- Behind a backslash at the end of a line the next one begins, as if it were the first. -/
theorem joined_laid {cs : List Char} (hs : Based source s) (hrest : s.rest = '\\' :: cs)
    (hne : (spanLineBreak cs).1 ≠ []) (hline : s.atLineStart = true) (hdepth : s.depth = 0)
    (hclosed : ∀ last ∈ s.tokens.head?, last.kind.closesLine = true)
    (hlayout : Layout.run (Text.column source) {} s.tokens.reverse = some ⟨none, s.indents⟩) :
    (s.skip ('\\' :: (spanLineBreak cs).1) (spanLineBreak cs).2).Laid source := by
  have hcut : s.rest = ['\\'] ++ (spanLineBreak cs).1 ++ (spanLineBreak cs).2 := by
    rw [List.append_assoc, spanLineBreak_append]
    exact hrest
  refine ⟨hs.pass hcut rfl rfl hs.bottom, none, hlayout,
    .lineStart hline hdepth hclosed fun done hdone => .inr ?_⟩
  exact hs.lineBegins hcut hne (spanLineBreak_isLineBreak _) hdone

/-- The invariant after a step at the beginning of a line. -/
theorem lineStart_laid (hs : Based source s) (hline : s.atLineStart = true) (hdepth : s.depth = 0)
    (hclosed : ∀ last ∈ s.tokens.head?, last.kind.closesLine = true)
    (hblanks : ∀ done, source = done ++ s.rest → s.rest = [] ∨ done.rtakeWhile isGap = [])
    (hlayout : Layout.run (Text.column source) {} s.tokens.reverse = some ⟨none, s.indents⟩)
    (h : s.lineStart = some s') (hissues : s'.issues = []) :
    s'.Laid source ∧ s'.measure < s.measure := by
  obtain ⟨blanks, c, cs, hcut, hgap, hhead, hstep⟩ := exists_lineStep h
  have hskip : Based source (s.skip blanks (c :: cs)) := hs.pass hcut rfl rfl hs.bottom
  have hlength : cs.length + 1 ≤ s.rest.length := by
    rw [hcut, List.length_append, List.length_cons]
    omega
  cases hstep with
  | blank hbreak =>
    obtain ⟨more, hmore⟩ := spanLineBreak_of_isLineBreak cs hbreak
    have hne : (spanLineBreak (c :: cs)).1 ≠ [] := by simp [hmore]
    have hrest := congrArg List.length (spanLineBreak_append (c :: cs))
    rw [hmore, List.length_append, List.length_cons, List.length_cons] at hrest
    refine ⟨blankLine_laid hskip hline hdepth hlayout (.inr hne), measure_lt_of_rest ?_⟩
    change (spanLineBreak (c :: cs)).2.length < s.rest.length
    omega
  | comment hhash =>
    subst hhash
    obtain ⟨hlaid, hlt⟩ := comment_laid hskip rfl hline hdepth hlayout
    exact ⟨hlaid, measure_lt_of_rest (lt_of_lt_of_le hlt hlength)⟩
  | joined hslash hne =>
    subst hslash
    have hle := length_spanLineBreak_le cs
    exact ⟨joined_laid hskip rfl hne hline hdepth hclosed hlayout,
      measure_lt_of_rest (lt_of_le_of_lt hle hlength)⟩
  | first hbreak hhash hslash =>
    -- the first token of a logical line
    have hopen : Based source { s.skip blanks (c :: cs) with atLineStart := false } :=
      ⟨hskip.text, hskip.ordered, hskip.bounded, hskip.bottom⟩
    have hplace : Text.column source (s.offset + Text.byteLength blanks) = (spanIndent 0 blanks).1 := by
      obtain ⟨done, hdone, hoffset⟩ := hs.text
      rcases hblanks done hdone with hnil | hdoneBlanks
      · rw [hnil] at hcut
        exact absurd hcut (by simp)
      · rw [← hoffset, hdone, hcut]
        exact Text.column_append (c :: cs) hdoneBlanks hgap
    obtain ⟨hlaid, hrest, hline'⟩ := indentTo_laid hopen rfl hdepth hplace rfl
      hhead hbreak hhash hslash hlayout hissues
    refine ⟨hlaid, ?_⟩
    rw [measure, hrest, hline', measure, hline, Bool.toNat_true, Bool.toNat_false]
    exact Nat.lt_succ_of_le (Nat.mul_le_mul_left 2 hlength)

/-- Every step keeps the tokens laid out, and brings the end nearer. -/
theorem laid_step (hs : s.Laid source) (h : s.step = some s') (hissues : s'.issues = []) :
    s'.Laid source ∧ s'.measure < s.measure := by
  obtain ⟨hbased, line, hlayout, hphase⟩ := hs
  unfold step at h
  cases hphase with
  | lineStart hline hdepth hclosed hblanks =>
    rw [if_pos (by simp [hline, hdepth])] at h
    exact lineStart_laid hbased hline hdepth hclosed hblanks hlayout h hissues
  | first hline hdepth hcolumn c cs hrest hgap hbreak hhash hjoined =>
    rw [if_neg (by simp [hline])] at h
    obtain ⟨-, gap, text, hreads⟩ := reads_token h hissues
    exact ⟨hreads.laid_of_first hbased hline hdepth hcolumn hrest hgap hbreak hhash hjoined
      hlayout, hreads.measure_lt⟩
  | inside start hline =>
    rw [if_neg (by simp [hline])] at h
    obtain ⟨-, gap, text, hreads⟩ := reads_token h hissues
    exact ⟨hreads.laid_of_inside hbased hline hlayout, hreads.measure_lt⟩

/-- Opening and closing blocks takes back no issue. -/
theorem MarksBlocks.issues (h : MarksBlocks s s') : s'.issues = [] → s.issues = [] := by
  induction h with
  | refl => exact id
  | mark _ _ ih | columns _ _ ih => exact ih
  | mismatch =>
    intro hnil
    cases hnil

/-- No step takes an issue back. -/
theorem issues_of_step (h : s.step = some s') (hissues : s'.issues = []) : s.issues = [] := by
  unfold step at h
  split at h
  · obtain ⟨blanks, c, cs, -, -, -, hstep⟩ := exists_lineStep h
    cases hstep with
    | blank | comment | joined => exact hissues
    | first =>
      have hinside := (marksBlocks_indentTo _ _).issues hissues
      exact hinside
  · exact (reads_token h hissues).1

/-- A run takes back none either. -/
theorem issues_of_run {n : Nat} (hissues : (run n s).issues = []) : s.issues = [] :=
  run_induction (P := fun s' => s'.issues = [] → s.issues = [])
    (fun _ _ h hstep hissues => h (issues_of_step hstep hissues)) n id hissues

/-- The invariant at the end of the walk, which is reached if there are enough steps. -/
theorem laid_run {n : Nat} (hs : s.Laid source) (hn : s.measure < n)
    (hissues : (run n s).issues = []) : (run n s).Laid source ∧ (run n s).step = none := by
  induction n generalizing s with
  | zero => omega
  | succ n ih =>
    cases hstep : s.step with
    | none =>
      rw [run, hstep]
      exact ⟨hs, hstep⟩
    | some s' =>
      rw [run, hstep] at hissues ⊢
      obtain ⟨hlaid, hlt⟩ := laid_step hs hstep (issues_of_run hissues)
      exact ih hlaid (by omega) hissues

/-! ### The end of the text -/

/-- Inside a line the token read last does not close it. -/
theorem closesLine_of_inside {start : Nat} {columns : List Nat}
    (hlayout : Layout.run (Text.column source) {} s.tokens.reverse = some ⟨some start, columns⟩) :
    ∃ last others, s.tokens = last :: others ∧ last.kind.closesLine = false := by
  cases htokens : s.tokens with
  | nil =>
    rw [htokens] at hlayout
    exact absurd (Option.some.inj hlayout) (by simp)
  | cons last others =>
    refine ⟨last, others, rfl, ?_⟩
    rw [htokens, List.reverse_cons, Layout.run_append] at hlayout
    obtain ⟨l, -, hlast⟩ := Option.bind_eq_some_iff.mp hlayout
    rw [Layout.run_cons] at hlast
    obtain ⟨l', hstep, hnil⟩ := Option.bind_eq_some_iff.mp hlast
    obtain rfl := Option.some.inj hnil
    rcases Layout.solid_of_open hstep rfl with hkind | hkind
    · cases hlast : last.kind <;> simp_all [TokenKind.isContent, TokenKind.closesLine]
    · rw [hkind]
      rfl

/-- The walk ends at the beginning of a line or inside one. -/
theorem inside_or_closed (hs : s.Laid source) (hend : s.step = none) :
    ∃ line, Layout.run (Text.column source) {} s.tokens.reverse = some ⟨line, s.indents⟩ ∧
      (line = none → ∀ last ∈ s.tokens.head?, last.kind.closesLine = true) := by
  obtain ⟨-, line, hlayout, hphase⟩ := hs
  refine ⟨line, hlayout, fun hline => ?_⟩
  cases hphase with
  | lineStart _ _ hclosed _ => exact hclosed
  | first hline' hdepth hcolumn c cs hrest hgap _ _ _ =>
    -- a token can be read here
    rw [step, if_neg (by simp [hline'])] at hend
    exact absurd hend (token_ne_none hrest hgap)
  | inside => exact absurd hline (by simp)

/-- End the line that the text leaves open. -/
def endLine (s : Lexer) : Lexer :=
  match s.tokens with
  | [] => s
  | last :: _ => if last.kind.closesLine then s else s.mark .newline

/-- The last line is ended only if it is open. -/
theorem endLine_eq (s : Lexer) : s.endLine = s ∨ s.endLine = s.mark .newline := by
  unfold endLine
  split
  · exact .inl rfl
  · split
    · exact .inl rfl
    · exact .inr rfl

/-- End the blocks that the text leaves open. -/
def endBlocks (s : Lexer) : Lexer :=
  { (s.indents.drop 1).foldl (fun s _ => s.mark .dedent) s with indents := [0] }

/-- At the end the blocks are closed. -/
theorem marksBlocks_endBlocks (s : Lexer) : MarksBlocks s s.endBlocks :=
  (marksBlocks_foldl (s.indents.drop 1) s).columns [0]

/-- What remains to be done at the end of the text, where no bracket may be open. -/
theorem finish_eq {stop : Nat} (h : (s.finish stop).issues = []) :
    s.finish stop = (endBlocks (endLine { s with rest := [], offset := stop })).mark .eof ∧
      s.issues = [] ∧ s.depth = 0 := by
  -- ending the line and the blocks reports nothing
  have hblocks : ∀ (cs : List Nat) (s : Lexer),
      (cs.foldl (fun s _ => s.mark .dedent) s).issues = s.issues := by
    intro cs
    induction cs with
    | nil => exact fun _ => rfl
    | cons c cs ih => exact fun s => ih _
  have hline : ∀ s : Lexer, s.endLine.issues = s.issues := by
    intro s
    rcases endLine_eq s with heq | heq <;> rw [heq]
    rfl
  have hfinish : ∀ s₁, (endBlocks (endLine s₁)).issues = s₁.issues :=
    fun s₁ => (hblocks _ _).trans (hline s₁)
  by_cases hdepth : 0 < s.depth
  · have heq : s.finish stop = (endBlocks (endLine
        ({ s with rest := [], offset := stop }.report .openBracketAtEnd []))).mark .eof := by
      simp only [finish, if_pos hdepth]
      rfl
    rw [heq] at h
    exact absurd ((hfinish _).symm.trans h) (by simp [report])
  · have heq : s.finish stop = (endBlocks (endLine { s with rest := [], offset := stop })).mark .eof := by
      simp only [finish, if_neg hdepth]
      rfl
    rw [heq] at h
    exact ⟨heq, (hfinish { s with rest := [], offset := stop }).symm.trans h,
      Nat.eq_zero_of_not_pos hdepth⟩

/-- Ending the last line keeps the tokens laid out. -/
theorem endLine_laid {line : Option Nat} (hs : Based source s)
    (hlayout : Layout.run (Text.column source) {} s.tokens.reverse = some ⟨line, s.indents⟩)
    (hclosed : line = none → ∀ last ∈ s.tokens.head?, last.kind.closesLine = true) :
    Based source s.endLine ∧ Layout.run (Text.column source) {} s.endLine.tokens.reverse =
      some ⟨none, s.endLine.indents⟩ := by
  cases line with
  | none =>
    have heq : s.endLine = s := by
      unfold endLine
      split
      · rfl
      · rename_i last others htokens
        rw [if_pos (hclosed rfl last (by rw [htokens]; rfl))]
    rw [heq]
    exact ⟨hs, hlayout⟩
  | some start =>
    obtain ⟨last, others, htokens, hlast⟩ := closesLine_of_inside hlayout
    have heq : s.endLine = s.mark .newline := by
      simp [endLine, htokens, hlast]
    rw [heq]
    exact ⟨hs.mark .newline rfl (by simp), Layout.run_reverse_cons hlayout rfl⟩

/-- So does closing blocks. -/
theorem dedents_laid (c : Nat) (cs : List Nat) (hs : Based source s)
    (hlayout : Layout.run (Text.column source) {} s.tokens.reverse = some ⟨none, c :: cs⟩) :
    Based source (cs.foldl (fun s _ => s.mark .dedent) s) ∧
      ∃ d, Layout.run (Text.column source) {}
        (cs.foldl (fun s _ => s.mark .dedent) s).tokens.reverse = some ⟨none, [d]⟩ := by
  induction cs generalizing c s with
  | nil => exact ⟨hs, c, hlayout⟩
  | cons d ds ih =>
    refine ih d (hs.mark .dedent rfl (by simp)) ?_
    exact Layout.run_reverse_cons hlayout (by simp [Layout.step, TokenKind.isContent])

/-- So does closing all of them. -/
theorem endBlocks_laid (hs : Based source s)
    (hlayout : Layout.run (Text.column source) {} s.tokens.reverse = some ⟨none, s.indents⟩) :
    Based source s.endBlocks ∧ ∃ d, Layout.run (Text.column source) {} s.endBlocks.tokens.reverse =
      some ⟨none, [d]⟩ := by
  have hbottom := hs.bottom
  cases hindents : s.indents with
  | nil => simp [hindents] at hbottom
  | cons c cs =>
    rw [hindents] at hlayout
    obtain ⟨hbased, hlast⟩ := dedents_laid c cs hs hlayout
    rw [endBlocks, hindents, List.drop_one, List.tail_cons]
    exact ⟨hbased.withIndents rfl, hlast⟩

/-- The invariant with the end of the text. -/
theorem laid_finish (hs : s.Laid source) (hend : s.step = none)
    (hissues : (s.finish (Text.byteLength source)).issues = []) :
    WellLaid (Text.column source) (s.finish (Text.byteLength source)).tokens.reverse ∧
      ∀ t ∈ (s.finish (Text.byteLength source)).tokens, t.span.stop ≤ Text.byteLength source := by
  obtain ⟨line, hlayout, hclosed⟩ := inside_or_closed hs hend
  obtain ⟨heq, -⟩ := finish_eq hissues
  have hlength : ∀ s : Lexer, Based source s → s.offset ≤ Text.byteLength source := by
    intro s hs
    obtain ⟨done, hdone, hoffset⟩ := hs.text
    rw [hdone, Text.byteLength_append, hoffset]
    omega
  -- whatever is left of the text is passed over
  have hatEnd : Based source { s with rest := [], offset := Text.byteLength source } :=
    ⟨⟨source, (List.append_nil _).symm, rfl⟩, hs.ordered,
      fun t ht => le_trans (hs.bounded t ht) (hlength s hs.toBased), hs.bottom⟩
  obtain ⟨hline, hlayout⟩ := endLine_laid hatEnd hlayout hclosed
  obtain ⟨hblocks, d, hlayout⟩ := endBlocks_laid hline hlayout
  have hall := hblocks.mark .eof rfl (by simp)
  rw [heq]
  exact ⟨⟨hall.ordered, _, Layout.run_reverse_cons hlayout rfl⟩,
    fun t ht => le_trans (hall.bounded t ht) (hlength _ hall)⟩

/-- Where the walk over a text begins: behind a byte order mark. -/
def start (cs : List Char) : Lexer :=
  match cs with
  | c :: rest => if c.toNat = 0xfeff then ({ rest := cs } : Lexer).skip [c] rest else { rest := cs }
  | [] => { rest := cs }

theorem tokens_start (cs : List Char) : (start cs).tokens = [] := by
  unfold start
  split
  · split <;> rfl
  · rfl

/-- Where it ends. -/
def walked (cs : List Char) : Lexer :=
  run (2 * cs.length + 2) (start cs)

/-- Behind characters that are no gap the tokens are laid out, because there are none. -/
theorem laid_behind (done rest : List Char) (hdone : done.rtakeWhile isGap = []) :
    Laid (done ++ rest) { rest := rest, offset := Text.byteLength done } := by
  refine ⟨⟨⟨done, rfl, rfl⟩, ⟨.nil, by simp, by simp⟩, by simp, rfl⟩, none, rfl,
    .lineStart rfl rfl (by simp) fun done' hdone' => .inr ?_⟩
  obtain rfl := List.append_cancel_right hdone'
  exact hdone

/-- So they are at the start of a text. -/
theorem laid_start (cs : List Char) :
    (start cs).Laid cs ∧ (start cs).measure < 2 * cs.length + 2 := by
  have hmeasure : ∀ (ds : List Char) (offset : Nat), ds.length ≤ cs.length →
      measure { rest := ds, offset := offset } < 2 * cs.length + 2 := by
    intro ds offset hle
    simp only [measure, Bool.toNat_true]
    omega
  have hplain : Laid cs { rest := cs } := laid_behind [] cs rfl
  unfold start
  split
  · rename_i c rest
    split
    · rename_i hmark
      have hgap : isGap c = false := by
        have hspace : c ≠ ' ' := by rintro rfl; simp at hmark
        have htab : c ≠ '\t' := by rintro rfl; simp at hmark
        have hfeed : c ≠ '\x0c' := by rintro rfl; simp at hmark
        simp [isGap, hspace, htab, hfeed]
      have hlaid := laid_behind [c] rest (by simp [List.rtakeWhile, hgap])
      refine ⟨by simpa [skip] using hlaid, ?_⟩
      exact hmeasure rest _ (Nat.le_succ _)
    · exact ⟨hplain, hmeasure _ _ (le_refl _)⟩
  · exact ⟨hplain, hmeasure _ _ (le_refl _)⟩

/-- Where the walk over a text ends, there is no further step. -/
theorem laid_walked {cs : List Char} (hissues : (walked cs).issues = []) :
    (walked cs).Laid cs ∧ (walked cs).step = none :=
  laid_run (laid_start cs).1 (laid_start cs).2 hissues

end Lexer

/-- The tokens of a text are those of the walk over it, with its end. -/
theorem tokenize_eq (source : String) :
    tokenize source =
      (((Lexer.walked source.toList).finish (Text.byteLength source.toList)).tokens.reverse,
        ((Lexer.walked source.toList).finish (Text.byteLength source.toList)).issues.reverse) :=
  rfl

/-- The tokens of a text end with it. -/
theorem tokenize_eof (source : String) : ∃ t ∈ (tokenize source).1, t.kind = .eof :=
  ⟨_, List.mem_reverse.mpr List.mem_cons_self, rfl⟩

/-- **The tokens of a text without lexical issues are in their order, and each of them can stand
    where it does.** -/
theorem tokenize_wellLaid (source : String) (h : (tokenize source).2 = []) :
    WellLaid (Text.column source.toList) (tokenize source).1 ∧
      ∀ t ∈ (tokenize source).1, t.span.stop ≤ Text.byteLength source.toList := by
  rw [tokenize_eq, List.reverse_eq_nil_iff] at h
  obtain ⟨hlaid, hend⟩ := Lexer.laid_walked (Lexer.finish_eq h).2.1
  obtain ⟨hwell, hbound⟩ := Lexer.laid_finish hlaid hend h
  exact ⟨hwell, fun t ht => hbound t (List.mem_reverse.mp ht)⟩

end PackageDoc
