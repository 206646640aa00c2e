import PackageDoc.Proofs.Progress.Tokens

namespace PackageDoc

/-!
# Tokens tile the text

On text of any kind, well formed or not, the tokens cover the text but for what may be dropped
between them.

* `Dropped` — what belongs to no token: blanks, joined lines and, inside brackets, the ends of lines
  and comments;
* `Tiles` — tokens and dropped pieces that lie side by side, from one end of a text to the other;
* `Lexer.Lays` and `Lexer.lays_step` — what a step of the walk lays, whatever follows;
* `tokenize_tiled` — the tokens of a text are in their order, each is a stretch of the text, and
  each byte that none of them covers is one that may be dropped.
-/

/-! ### Brackets -/

/-- How many brackets are open behind a token of a kind.  A closing bracket where none is open is
    reported and closes none. -/
def TokenKind.depthBehind (depth : Nat) (kind : TokenKind) : Nat :=
  if kind.isOpenBracket then depth + 1 else if kind.isCloseBracket then depth - 1 else depth

/-- How many brackets are open behind some tokens, with `depth` open in front of them. -/
def depthBehind (depth : Nat) (tokens : List Token) : Nat :=
  tokens.foldl (fun depth t => t.kind.depthBehind depth) depth

/-! ### What is dropped -/

/-- A line terminator in front of `behind`, whole. -/
inductive Terminator (behind : List Char) : List Char → Prop
  | lineFeed : Terminator behind ['\n']
  | both : Terminator behind ['\r', '\n']
  | carriageReturn (h : behind.head? ≠ some '\n') : Terminator behind ['\r']

/-- A piece of a text that belongs to no token, in front of `behind` and inside `depth` brackets. -/
inductive Dropped (depth : Nat) (behind : List Char) : List Char → Prop
  | blank {c : Char} (h : c = ' ' ∨ c = '\t' ∨ c = '\x0c') : Dropped depth behind [c]
  /-- A backslash and the line terminator behind it. -/
  | joined {ending : List Char} (h : Terminator behind ending) : Dropped depth behind ('\\' :: ending)
  /-- A backslash with no line terminator behind it. -/
  | stray (h : ∀ c ∈ behind.head?, c ≠ '\n' ∧ c ≠ '\r') : Dropped depth behind ['\\']
  | lineEnd {ending : List Char} (hdepth : 0 < depth) (h : Terminator behind ending) :
    Dropped depth behind ending
  | comment {text : List Char} (hdepth : 0 < depth) (htext : ∀ c ∈ text, c ≠ '\n' ∧ c ≠ '\r')
    (h : ∀ c ∈ behind.head?, c = '\n' ∨ c = '\r') : Dropped depth behind ('#' :: text)

/-! ### Tiles -/

/-- Tokens and dropped pieces that lie side by side and make up a text, which begins at byte
    `offset` and inside `depth` brackets. -/
inductive Tiles : (offset depth : Nat) → List Token → List Char → Prop
  | done (offset depth : Nat) : Tiles offset depth [] []
  | drop {offset depth : Nat} {tokens : List Token} {piece rest : List Char}
    (h : Dropped depth rest piece) (more : Tiles (offset + Text.byteLength piece) depth tokens rest) :
    Tiles offset depth tokens (piece ++ rest)
  | token {offset depth : Nat} {tokens : List Token} {rest : List Char} (kind : TokenKind)
    (text : List Char)
    (more : Tiles (offset + Text.byteLength text) (kind.depthBehind depth) tokens rest) :
    Tiles offset depth
      (⟨kind, ⟨offset, offset + Text.byteLength text⟩, String.ofList text⟩ :: tokens) (text ++ rest)

namespace Tiles

variable {offset depth o : Nat} {tokens : List Token} {text : List Char} {t : Token}

/-- The tokens lie in the text. -/
theorem bounds (h : Tiles offset depth tokens text) (ht : t ∈ tokens) :
    offset ≤ t.span.start ∧ t.span.start ≤ t.span.stop ∧
      t.span.stop ≤ offset + Text.byteLength text := by
  induction h with
  | done => exact absurd ht List.not_mem_nil
  | drop _ _ ih =>
    have hrest := ih ht
    rw [Text.byteLength_append]
    omega
  | token kind text _ ih =>
    rw [Text.byteLength_append]
    rcases List.mem_cons.mp ht with rfl | ht
    · dsimp only
      omega
    · have hrest := ih ht
      omega

/-- No token begins before the end of one in front of it. -/
theorem apart (h : Tiles offset depth tokens text) :
    tokens.Pairwise fun t u => t.span.stop ≤ u.span.start := by
  induction h with
  | done => exact .nil
  | drop _ _ ih => exact ih
  | token _ _ more ih => exact List.pairwise_cons.mpr ⟨fun u hu => (more.bounds hu).1, ih⟩

/-- Each token is a stretch of the text. -/
theorem cut (h : Tiles offset depth tokens text) (ht : t ∈ tokens) :
    ∃ before inside behind, text = before ++ (inside ++ behind) ∧
      t.span.start = offset + Text.byteLength before ∧
      t.span.stop = t.span.start + Text.byteLength inside ∧ t.text = String.ofList inside := by
  induction h with
  | done => exact absurd ht List.not_mem_nil
  | @drop offset depth tokens piece rest _ _ ih =>
    obtain ⟨before, inside, behind, rfl, hstart, hstop, htext⟩ := ih ht
    refine ⟨piece ++ before, inside, behind, by simp, ?_, hstop, htext⟩
    rw [hstart, Text.byteLength_append, Nat.add_assoc]
  | @token offset depth tokens rest kind text _ ih =>
    rcases List.mem_cons.mp ht with rfl | ht
    · exact ⟨[], text, rest, rfl, rfl, rfl, rfl⟩
    · obtain ⟨before, inside, behind, rfl, hstart, hstop, htext⟩ := ih ht
      refine ⟨text ++ before, inside, behind, by simp, ?_, hstop, htext⟩
      rw [hstart, Text.byteLength_append, Nat.add_assoc]

/-- The tokens in front of a byte that end there or before, behind the place where all of them
    begin, are none. -/
theorem filter_eq_nil (h : Tiles offset depth tokens text) (ho : o < offset) :
    tokens.filter (·.span.stop ≤ o) = [] := by
  refine List.filter_eq_nil_iff.mpr fun t ht => ?_
  have hbounds := h.bounds ht
  simp only [decide_eq_true_eq]
  omega

/-- Each byte of the text is covered by a token or belongs to a dropped piece. -/
theorem covers (h : Tiles offset depth tokens text) (hstart : offset ≤ o)
    (hstop : o < offset + Text.byteLength text) :
    (∃ t ∈ tokens, t.span.start ≤ o ∧ o < t.span.stop) ∨
      ∃ before piece behind, text = before ++ (piece ++ behind) ∧
        offset + Text.byteLength before ≤ o ∧
        o < offset + Text.byteLength before + Text.byteLength piece ∧
        Dropped (depthBehind depth (tokens.filter (·.span.stop ≤ o))) behind piece := by
  induction h with
  | done =>
    rw [Text.byteLength] at hstop
    omega
  | @drop offset depth tokens piece rest hpiece more ih =>
    by_cases hin : o < offset + Text.byteLength piece
    · refine .inr ⟨[], piece, rest, rfl, by simpa [Text.byteLength] using hstart,
        by simpa [Text.byteLength] using hin, ?_⟩
      rwa [more.filter_eq_nil hin]
    · rw [Text.byteLength_append] at hstop
      obtain hcovered | ⟨before, piece', behind, rfl, hfrom, hto, hdropped⟩ :=
        ih (by omega) (by omega)
      · exact .inl hcovered
      · refine .inr ⟨piece ++ before, piece', behind, by simp, ?_, ?_, hdropped⟩ <;>
          · rw [Text.byteLength_append]
            omega
  | @token offset depth tokens rest kind text _ ih =>
    by_cases hin : o < offset + Text.byteLength text
    · exact .inl ⟨_, List.mem_cons_self, hstart, hin⟩
    · rw [Text.byteLength_append] at hstop
      obtain ⟨t, ht, hcovered⟩ | ⟨before, piece, behind, rfl, hfrom, hto, hdropped⟩ :=
        ih (by omega) (by omega)
      · exact .inl ⟨t, List.mem_cons_of_mem _ ht, hcovered⟩
      · refine .inr ⟨text ++ before, piece, behind, by simp, ?_, ?_, ?_⟩
        · rw [Text.byteLength_append]
          omega
        · rw [Text.byteLength_append]
          omega
        · -- the token in front of the byte is one of those that decide what is open there
          rwa [List.filter_cons_of_pos (by simpa using Nat.le_of_not_lt hin)]

end Tiles

namespace Lexer

variable {s s' s'' : Lexer} {text rest : List Char} {kind : TokenKind}

/-! ### What a step lays -/

/-- From `s` to `s'` tokens are read.  They and what is dropped lie side by side, in front of all
    that is laid behind `s'`. -/
structure Lays (s s' : Lexer) : Prop where
  total : s'.offset + Text.byteLength s'.rest = s.offset + Text.byteLength s.rest
  tiles : ∃ new, s'.tokens = new.reverse ++ s.tokens ∧ ∀ tokens,
    Tiles s'.offset s'.depth tokens s'.rest → Tiles s.offset s.depth (new ++ tokens) s.rest

namespace Lays

theorem trans (h : Lays s s') (h' : Lays s' s'') : Lays s s'' := by
  obtain ⟨new, htokens, htiles⟩ := h.tiles
  obtain ⟨new', htokens', htiles'⟩ := h'.tiles
  refine ⟨h'.total.trans h.total, new ++ new', ?_, fun tokens hrest => ?_⟩
  · rw [htokens', htokens, List.reverse_append, List.append_assoc]
  · rw [List.append_assoc]
    exact htiles _ (htiles' tokens hrest)

/-- Nothing is read. -/
theorem same (hrest : s'.rest = s.rest) (hoffset : s'.offset = s.offset) (hdepth : s'.depth = s.depth)
    (htokens : s'.tokens = s.tokens) : Lays s s' :=
  ⟨by rw [hrest, hoffset], [], htokens, fun tokens h => by rwa [hrest, hoffset, hdepth] at h⟩

theorem refl (s : Lexer) : Lays s s :=
  same rfl rfl rfl rfl

/-- A piece is dropped. -/
theorem drop {piece : List Char} (hpiece : Dropped s.depth s'.rest piece)
    (hrest : s.rest = piece ++ s'.rest) (hoffset : s'.offset = s.offset + Text.byteLength piece)
    (hdepth : s'.depth = s.depth) (htokens : s'.tokens = s.tokens) : Lays s s' := by
  refine ⟨?_, [], htokens, fun tokens h => ?_⟩
  · rw [hrest, hoffset, Text.byteLength_append, Nat.add_assoc]
  · rw [hoffset, hdepth] at h
    rw [hrest]
    exact .drop hpiece h

/-- A token is read. -/
theorem read (kind : TokenKind) (hrest : s.rest = text ++ s'.rest)
    (hoffset : s'.offset = s.offset + Text.byteLength text) (hdepth : s'.depth = kind.depthBehind s.depth)
    (htokens : s'.tokens = ⟨kind, ⟨s.offset, s'.offset⟩, String.ofList text⟩ :: s.tokens) :
    Lays s s' := by
  refine ⟨?_, [⟨kind, ⟨s.offset, s'.offset⟩, String.ofList text⟩], htokens, fun tokens h => ?_⟩
  · rw [hrest, hoffset, Text.byteLength_append, Nat.add_assoc]
  · rw [hoffset, hdepth] at h
    rw [hrest, hoffset]
    exact .token kind text h

/-- A token that is no bracket is read. -/
theorem emit (hkind : kind.isOpenBracket = false ∧ kind.isCloseBracket = false)
    (hrest : s.rest = text ++ rest) : Lays s (s.emit kind text rest) :=
  read kind hrest rfl (by simp [TokenKind.depthBehind, hkind, Lexer.emit, skip]) rfl

theorem mark (hkind : kind.isOpenBracket = false ∧ kind.isCloseBracket = false) (s : Lexer) :
    Lays s (s.mark kind) :=
  emit hkind rfl

/-- Blanks are dropped one by one. -/
theorem blanks {gap : List Char} (hgap : ∀ c ∈ gap, isGap c = true) (hrest : s.rest = gap ++ rest) :
    Lays s (s.skip gap rest) := by
  induction gap generalizing s with
  | nil => exact same hrest.symm rfl rfl rfl
  | cons c gap ih =>
    obtain ⟨hc, hgap⟩ := List.forall_mem_cons.mp hgap
    have hblank : c = ' ' ∨ c = '\t' ∨ c = '\x0c' := by simpa [isGap, or_assoc] using hc
    have hfirst : Lays s (s.skip [c] (gap ++ rest)) := drop (.blank hblank) hrest rfl rfl rfl
    refine hfirst.trans ((ih hgap rfl).trans (same rfl ?_ rfl rfl))
    simp [skip, Text.byteLength, Nat.add_assoc]

end Lays

/-- A reader of a part of a statement lays it, if it keeps count of the brackets. -/
theorem Emits.lays (h : Emits s s' text)
    (hdepth : ∀ t ∈ s'.tokens.head?, s'.depth = t.kind.depthBehind s.depth) : Lays s s' := by
  obtain ⟨kind, -, htokens⟩ := h.tokens
  rw [htokens] at hdepth
  exact .read kind h.rest h.offset (hdepth _ rfl) htokens

/-! ### Readers keep count of the brackets -/

/-- A literal leaves the brackets as they are. -/
theorem LiteralStep.depth {cs : List Char} (h : LiteralStep s text cs s') :
    ∀ t ∈ s'.tokens.head?, s'.depth = t.kind.depthBehind s.depth := by
  cases h <;>
  · rintro t ⟨⟩
    rfl

/-- So does reading one. -/
theorem depth_stringLiteral (s : Lexer) (lead : List Char) (quote : Char) (cs : List Char) :
    ∀ t ∈ (s.stringLiteral lead quote cs).tokens.head?,
      (s.stringLiteral lead quote cs).depth = t.kind.depthBehind s.depth := by
  obtain ⟨text, rest, -, -, hstep⟩ := exists_literalStep s lead quote cs
  exact hstep.depth

/-- So does a word. -/
theorem WordStep.depth (h : WordStep s s') :
    ∀ t ∈ s'.tokens.head?, s'.depth = t.kind.depthBehind s.depth := by
  cases h with
  | literal => exact depth_stringLiteral s _ _ _
  | @letters text =>
    obtain ⟨-, hopen, hclose, -⟩ := wordKind_spec text
    rintro t ⟨⟩
    simp [TokenKind.depthBehind, hopen, hclose, Lexer.emit, skip]

/-- A bracket is counted as it is read. -/
theorem PunctuationStep.depth {c : Char} {cs : List Char} (h : PunctuationStep s c cs s') :
    ∀ t ∈ s'.tokens.head?, s'.depth = t.kind.depthBehind s.depth := by
  cases h with
  | invalid =>
    rintro t ⟨⟩
    rfl
  | opens _ hopen =>
    rintro t ⟨⟩
    simp [TokenKind.depthBehind, hopen, Lexer.emit, skip]
  | stray _ hopen hclose hdepth =>
    rintro t ⟨⟩
    simp [TokenKind.depthBehind, hopen, hclose, hdepth, Lexer.emit, skip, report]
  | closes _ hopen hclose | plain _ hopen hclose =>
    rintro t ⟨⟩
    simp [TokenKind.depthBehind, hopen, hclose, Lexer.emit, skip]

/-! ### Steps -/

/-- The end of a line is a line terminator, whole. -/
theorem terminator_of_isLineBreak {c : Char} (cs : List Char) (h : isLineBreak c = true) :
    Terminator (spanLineBreak (c :: cs)).2 (spanLineBreak (c :: cs)).1 := by
  simp only [isLineBreak, Bool.or_eq_true, beq_iff_eq] at h
  rcases h with rfl | rfl
  · simpa [spanLineBreak] using Terminator.lineFeed
  · by_cases hmore : ∃ ds, cs = '\n' :: ds
    · obtain ⟨ds, rfl⟩ := hmore
      exact .both
    · have hcut : spanLineBreak ('\r' :: cs) = (['\r'], cs) := by
        unfold spanLineBreak
        split <;> simp_all
      rw [hcut]
      refine .carriageReturn fun hhead => hmore ?_
      exact ⟨cs.tail, List.eq_cons_of_mem_head? hhead⟩

/-- Where a line terminator is cut off, it is whole; where there is none, no line ends. -/
theorem terminator_or_none (cs : List Char) :
    Terminator (spanLineBreak cs).2 (spanLineBreak cs).1 ∨
      ((spanLineBreak cs).1 = [] ∧ ∀ c ∈ (spanLineBreak cs).2.head?, c ≠ '\n' ∧ c ≠ '\r') := by
  cases cs with
  | nil => exact .inr ⟨rfl, by simp [spanLineBreak]⟩
  | cons c cs =>
    cases hc : isLineBreak c with
    | true => exact .inl (terminator_of_isLineBreak cs hc)
    | false =>
      simp only [isLineBreak, Bool.or_eq_false_iff, beq_eq_false_iff_ne] at hc
      have hcut : spanLineBreak (c :: cs) = ([], c :: cs) := by
        unfold spanLineBreak
        split <;> simp_all
      rw [hcut]
      refine .inr ⟨rfl, ?_⟩
      rintro _ ⟨⟩
      exact hc

/-- A backslash is dropped, with the line terminator behind it if there is one. -/
theorem dropped_backslash (depth : Nat) (cs : List Char) :
    Dropped depth (spanLineBreak cs).2 ('\\' :: (spanLineBreak cs).1) := by
  rcases terminator_or_none cs with h | ⟨hnil, hhead⟩
  · exact .joined h
  · rw [hnil]
    exact .stray hhead

/-- A comment in brackets is dropped. -/
theorem dropped_comment {depth : Nat} (hdepth : 0 < depth) (cs : List Char) :
    Dropped depth (spanLine ('#' :: cs)).2 (spanLine ('#' :: cs)).1 := by
  have hcut : spanLine ('#' :: cs) = ('#' :: cs.takeWhile (fun c => !isLineBreak c),
      cs.dropWhile fun c => !isLineBreak c) := by
    rw [spanLine, List.span_eq_takeWhile_dropWhile]
    simp [isLineBreak]
  rw [hcut]
  refine .comment hdepth (fun c hc => ?_) fun c hc => ?_
  · simpa [isLineBreak] using List.mem_takeWhile_imp hc
  · have hnot := List.head?_dropWhile_not (fun c => !isLineBreak c) cs
    rw [Option.mem_def.mp hc] at hnot
    simpa [isLineBreak, or_iff_not_imp_left] using hnot

/-- A backslash is dropped with the line break behind it. -/
theorem lays_backslash {cs : List Char} (hrest : s.rest = '\\' :: cs) :
    Lays s ((if (spanLineBreak cs).1.isEmpty then s.report .strayBackslash ['\\'] else s).skip
      ('\\' :: (spanLineBreak cs).1) (spanLineBreak cs).2) := by
  have hcut : s.rest = ('\\' :: (spanLineBreak cs).1) ++ (spanLineBreak cs).2 :=
    hrest.trans (congrArg ('\\' :: ·) (spanLineBreak_append cs).symm)
  have hreport : Lays s
      (if (spanLineBreak cs).1.isEmpty then s.report .strayBackslash ['\\'] else s) := by
    split
    · exact .same rfl rfl rfl rfl
    · exact .refl s
  refine hreport.trans (.drop (dropped_backslash _ cs) ?_ rfl rfl rfl)
  split <;> exact hcut

/-- A part of a line is laid. -/
theorem ReadsPart.lays {c : Char} {cs : List Char} (h : ReadsPart s c cs s')
    (hrest : s.rest = c :: cs) : Lays s s' := by
  obtain ⟨text, hemits⟩ := h.emits hrest
  refine hemits.lays ?_
  cases h with
  | string => exact depth_stringLiteral _ _ _ _
  | number =>
    rintro t ⟨⟩
    rfl
  | word => exact (wordStep s).depth
  | punctuation => exact (punctuationStep s c cs).depth

/-- So is every token. -/
theorem lays_token (h : s.token = some s') : Lays s s' := by
  obtain ⟨gap, c, cs, hrest, hgap, -, hstep⟩ := exists_tokenStep h
  have hblanks : Lays s (s.skip gap (c :: cs)) := .blanks hgap hrest
  refine hblanks.trans ?_
  -- in brackets the ends of lines and the comments are dropped
  cases hstep with
  | newline =>
    exact (Lays.emit ⟨rfl, rfl⟩ (spanLineBreak_append (c :: cs)).symm).trans (.same rfl rfl rfl rfl)
  | bracketedLineEnd hbreak hdepth =>
    exact .drop (.lineEnd hdepth (terminator_of_isLineBreak cs hbreak))
      (spanLineBreak_append (c :: cs)).symm rfl rfl rfl
  | comment => exact .emit ⟨rfl, rfl⟩ (spanLine_append (c :: cs)).symm
  | bracketedComment hhash hdepth =>
    subst hhash
    exact .drop (dropped_comment hdepth cs) (spanLine_append ('#' :: cs)).symm rfl rfl rfl
  | backslash hslash =>
    subst hslash
    exact lays_backslash rfl
  | part hpart => exact hpart.lays rfl

/-- So are the marks of blocks. -/
theorem MarksBlocks.lays (h : MarksBlocks s s') : Lays s s' := by
  induction h with
  | refl => exact .refl s
  | @mark s' kind hkind _ ih =>
    refine ih.trans (.mark ?_ s')
    rcases hkind with rfl | rfl <;> exact ⟨rfl, rfl⟩
  | columns _ _ ih | mismatch _ ih => exact ih.trans (.same rfl rfl rfl rfl)

/-- So is the start of a line. -/
theorem lays_lineStart (h : s.lineStart = some s') : Lays s s' := by
  obtain ⟨blanks, c, cs, hcut, hgap, -, hstep⟩ := exists_lineStep h
  have hblanks : Lays s (s.skip blanks (c :: cs)) := .blanks hgap hcut
  have hblankLine : ∀ s : Lexer, Lays s s.blankLine := fun s =>
    .emit ⟨rfl, rfl⟩ (spanLineBreak_append s.rest).symm
  refine hblanks.trans ?_
  cases hstep with
  | blank => exact hblankLine _
  | comment => exact (Lays.emit ⟨rfl, rfl⟩ (spanLine_append _).symm).trans (hblankLine _)
  | joined hslash =>
    subst hslash
    exact .drop (dropped_backslash _ cs) (congrArg ('\\' :: ·) (spanLineBreak_append cs).symm)
      rfl rfl rfl
  | first =>
    have hinside : Lays (s.skip blanks (c :: cs))
        { s.skip blanks (c :: cs) with atLineStart := false } := .same rfl rfl rfl rfl
    exact hinside.trans (marksBlocks_indentTo _ _).lays

/-- **Each step of the walk** lays the tokens that it reads behind those in front. -/
theorem lays_step (h : s.step = some s') : Lays s s' := by
  unfold step at h
  split at h
  · exact lays_lineStart h
  · exact lays_token h

/-! ### The walk -/

/-- A whole run lays its tokens side by side. -/
theorem lays_run (n : Nat) (s : Lexer) : Lays s (run n s) :=
  run_induction (P := Lays s) (fun _ _ h hstep => h.trans (lays_step hstep)) n (.refl s)

/-- Where there is no further step, only blanks are left. -/
theorem isGap_of_step_eq_none (h : s.step = none) : ∀ c ∈ s.rest, isGap c = true := by
  unfold step at h
  split at h
  -- the blanks of the line lead to the end of the text
  · obtain ⟨hcut, hgap, -⟩ := spanIndent_spec 0 s.rest
    unfold lineStart at h
    dsimp only at h
    split at h
    · rename_i hnil
      rw [← hcut, show (spanIndent 0 s.rest).2.2 = [] from hnil, List.append_nil]
      exact hgap
    · split_ifs at h
  · unfold token at h
    dsimp only at h
    split at h
    · rename_i hnil
      have hcut := span_append_self isGap s.rest
      rw [show (s.rest.span isGap).2 = [] from hnil, List.append_nil,
        List.span_eq_takeWhile_dropWhile] at hcut
      rw [← hcut]
      exact fun c hc => List.mem_takeWhile_imp hc
    · split_ifs at h

/-- The end of the last line is laid. -/
theorem lays_endLine (s : Lexer) : Lays s s.endLine := by
  rcases endLine_eq s with heq | heq <;> rw [heq]
  · exact .refl s
  · exact .mark ⟨rfl, rfl⟩ s

/-- Nothing is left behind the end of the text. -/
theorem rest_finish (s : Lexer) (stop : Nat) : (s.finish stop).rest = [] := by
  have hline (s : Lexer) : s.endLine.rest = s.rest := by
    rcases endLine_eq s with heq | heq <;> rw [heq]
    rfl
  have hreport : (if 0 < s.depth then
      Lexer.report { s with rest := [], offset := stop } .openBracketAtEnd []
      else { s with rest := [], offset := stop }).rest = [] := by
    split <;> rfl
  exact (marksBlocks_endBlocks _).place.1.trans ((hline _).trans hreport)

/-- What is added at the end of the text lies there. -/
theorem lays_finish (hend : s.step = none) :
    Lays s (s.finish (s.offset + Text.byteLength s.rest)) := by
  have hblanks : Lays s (s.skip s.rest []) :=
    .blanks (isGap_of_step_eq_none hend) (List.append_nil _).symm
  have hreport : Lays (s.skip s.rest []) (if 0 < s.depth
      then (s.skip s.rest []).report .openBracketAtEnd [] else s.skip s.rest []) := by
    split
    · exact .same rfl rfl rfl rfl
    · exact .refl _
  exact hblanks.trans (hreport.trans ((lays_endLine _).trans
    ((marksBlocks_endBlocks _).lays.trans (.mark ⟨rfl, rfl⟩ _))))

/-- The tokens of a walk to the end of a text make it up, with what is dropped. -/
theorem exists_tiles {n : Nat} (hend : (run n s).step = none) :
    ∃ tokens, ((run n s).finish (s.offset + Text.byteLength s.rest)).tokens.reverse =
      s.tokens.reverse ++ tokens ∧ Tiles s.offset s.depth tokens s.rest := by
  have hrun := lays_run n s
  have hall := hrun.trans (lays_finish hend)
  rw [hrun.total] at hall
  obtain ⟨new, htokens, htiles⟩ := hall.tiles
  refine ⟨new, ?_, ?_⟩
  · rw [htokens, List.reverse_append, List.reverse_reverse]
  · rw [rest_finish] at htiles
    simpa using htiles [] (.done _ _)

end Lexer

/-! ### The tokens of a text -/

/-- The tokens tile the text. -/
structure Tiled (source : List Char) (tokens : List Token) : Prop where
  /-- Each token ends where it begins or behind, in the text. -/
  within : ∀ t ∈ tokens, t.span.start ≤ t.span.stop ∧ t.span.stop ≤ Text.byteLength source
  /-- Each token begins where those in front of it have ended. -/
  apart : tokens.Pairwise fun t u => t.span.stop ≤ u.span.start
  /-- Each token begins and ends between two characters, and its text is what stands there. -/
  cut : ∀ t ∈ tokens, ∃ before inside behind, source = before ++ (inside ++ behind) ∧
    t.span.start = Text.byteLength before ∧
    t.span.stop = t.span.start + Text.byteLength inside ∧ t.text = String.ofList inside
  /-- Each byte that no token covers belongs to the byte order mark at the beginning or to a piece
      that may be dropped inside the brackets that are open there. -/
  dropped : ∀ o < Text.byteLength source, (∀ t ∈ tokens, ¬(t.span.start ≤ o ∧ o < t.span.stop)) →
    (source.head? = some '\ufeff' ∧ o < '\ufeff'.utf8Size) ∨
      ∃ before piece behind, source = before ++ (piece ++ behind) ∧ Text.byteLength before ≤ o ∧
        o < Text.byteLength before + Text.byteLength piece ∧
        Dropped (depthBehind 0 (tokens.filter (·.span.stop ≤ o))) behind piece

/-- Tokens that make up what stands behind a byte order mark, or the whole text, tile the text. -/
theorem Tiles.tiled {lead text : List Char} {tokens : List Token}
    (hlead : lead = [] ∨ lead = ['\ufeff']) (h : Tiles (Text.byteLength lead) 0 tokens text) :
    Tiled (lead ++ text) tokens := by
  refine ⟨fun t ht => ?_, h.apart, fun t ht => ?_, fun o ho huncovered => ?_⟩
  · have hbounds := h.bounds ht
    rw [Text.byteLength_append]
    exact hbounds.2
  · obtain ⟨before, inside, behind, rfl, hstart, hstop, htext⟩ := h.cut ht
    refine ⟨lead ++ before, inside, behind, by simp, ?_, hstop, htext⟩
    rw [hstart, Text.byteLength_append]
  -- a byte that no token covers is one of the mark, or of what is passed over
  · by_cases hin : o < Text.byteLength lead
    · left
      rcases hlead with rfl | rfl
      · exact absurd hin (Nat.not_lt_zero o)
      · exact ⟨rfl, hin⟩
    · rw [Text.byteLength_append] at ho
      obtain ⟨t, ht, hcovered⟩ | ⟨before, piece, behind, rfl, hfrom, hto, hdropped⟩ :=
        h.covers (Nat.le_of_not_lt hin) ho
      · exact absurd hcovered (huncovered t ht)
      · refine .inr ⟨lead ++ before, piece, behind, by simp, ?_, ?_, hdropped⟩ <;>
          rwa [Text.byteLength_append]

/-- Where the walk over a text begins: behind a byte order mark, if there is one. -/
theorem Lexer.start_spec (cs : List Char) : ∃ lead rest, cs = lead ++ rest ∧
    (lead = [] ∨ lead = ['\ufeff']) ∧ start cs = { rest := rest, offset := Text.byteLength lead } := by
  unfold start
  split
  · rename_i c rest
    split
    · rename_i hmark
      obtain rfl : c = '\ufeff' := Char.ext (UInt32.toNat_inj.mp hmark)
      exact ⟨['\ufeff'], rest, rfl, .inr rfl, by simp [skip]⟩
    · exact ⟨[], c :: rest, rfl, .inl rfl, rfl⟩
  · exact ⟨[], [], rfl, .inl rfl, rfl⟩

/-- The tokens of a text make it up, behind a byte order mark if there is one. -/
theorem exists_tiles_tokenize (source : String) : ∃ lead rest, source.toList = lead ++ rest ∧
    (lead = [] ∨ lead = ['\ufeff']) ∧ Tiles (Text.byteLength lead) 0 (tokenize source).1 rest := by
  obtain ⟨lead, rest, hsource, hlead, hstart⟩ := Lexer.start_spec source.toList
  have hend := Lexer.step_walked source.toList
  rw [Lexer.walked, hstart] at hend
  obtain ⟨tokens, htokens, htiles⟩ := Lexer.exists_tiles hend
  have heq : (tokenize source).1 = tokens := by
    rw [tokenize_eq, Lexer.walked, hstart]
    simpa [hsource, Text.byteLength_append] using htokens
  exact ⟨lead, rest, hsource, hlead, heq ▸ htiles⟩

/-- **The tokens of a text tile it**, whatever is wrong with the text. -/
theorem tokenize_tiled (source : String) : Tiled source.toList (tokenize source).1 := by
  obtain ⟨lead, rest, hsource, hlead, htiles⟩ := exists_tiles_tokenize source
  rw [hsource]
  exact htiles.tiled hlead

end PackageDoc
