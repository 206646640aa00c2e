import PackageDoc.Proofs.Tokens.Tiling

namespace PackageDoc

/-!
# Layout tokens are balanced

Blocks are opened by one kind of token and closed by another, on text of any kind.  A line that
returns to a column of no enclosing block is reported and opens a block without a token; the end of
the text closes what is open.

* `Nested` and `Levelled` — the columns of the enclosing blocks, and how the tokens account for them;
* `Bracketed` — no layout token is read inside brackets;
* `Lexer.Steady` and `Lexer.Steady.step` — both at once, an invariant of every step of the walk;
* `tokenize_balanced` — the layout of any text is balanced.
-/

/-! ### Counting -/

/-- How many of the tokens are of a kind. -/
def kindCount (kind : TokenKind) (tokens : List Token) : Nat :=
  tokens.countP (·.kind = kind)

/-- How many of the issues are of a kind. -/
def errorCount (error : SyntaxError) (issues : List SyntaxIssue) : Nat :=
  issues.countP (·.error = error)

/-- Is the token neither a part of a statement nor the end of the text? -/
def TokenKind.isLayout : TokenKind → Bool
  | newline | blankLine | indent | dedent | comment => true
  | _ => false

/-- A token is counted if it is of the kind. -/
theorem kindCount_cons (kind : TokenKind) (t : Token) (tokens : List Token) :
    kindCount kind (t :: tokens) = kindCount kind tokens + if t.kind = kind then 1 else 0 := by
  simp [kindCount, List.countP_cons]

/-- Tokens are counted alike in either order. -/
theorem kindCount_reverse (kind : TokenKind) (tokens : List Token) :
    kindCount kind tokens.reverse = kindCount kind tokens :=
  List.countP_reverse

/-- An issue is counted if it is of the error. -/
theorem errorCount_cons (error : SyntaxError) (issue : SyntaxIssue) (issues : List SyntaxIssue) :
    errorCount error (issue :: issues) =
      errorCount error issues + if issue.error = error then 1 else 0 := by
  simp [errorCount, List.countP_cons]

/-- Issues are counted alike in either order. -/
theorem errorCount_reverse (error : SyntaxError) (issues : List SyntaxIssue) :
    errorCount error issues.reverse = errorCount error issues :=
  List.countP_reverse

/-- What is part of a statement is no layout. -/
theorem TokenKind.isLayout_of_isContent {kind : TokenKind} (h : kind.isContent = true) :
    kind.isLayout = false := by
  cases kind <;> first | rfl | cases h

/-! ### Columns -/

/-- The columns of the enclosing blocks, outermost first: from the margin on, each block is indented
    further than the one around it. -/
structure Nested (columns : List Nat) : Prop where
  margin : columns.head? = some 0
  rising : columns.Pairwise (· < ·)

namespace Nested

variable {c d : Nat} {cs : List Nat}

theorem ne_nil (h : Nested cs.reverse) : cs ≠ [] := by
  rintro rfl
  exact absurd h.margin (by simp)

/-- One more block. -/
theorem push (h : Nested cs.reverse) (hc : cs.headD 0 < c) : Nested (c :: cs).reverse := by
  obtain ⟨d, ds, rfl⟩ := List.exists_cons_of_ne_nil h.ne_nil
  refine ⟨?_, ?_⟩
  · rw [List.reverse_cons, List.head?_append, h.margin, Option.some_or]
  · -- the innermost block so far is the one indented furthest
    rw [List.pairwise_reverse, List.pairwise_cons]
    have hrising := List.pairwise_reverse.mp h.rising
    refine ⟨fun e he => ?_, hrising⟩
    rcases List.mem_cons.mp he with rfl | he
    · exact hc
    · exact (List.rel_of_pairwise_cons hrising he).trans hc

/-- One block less. -/
theorem pop (h : Nested (c :: d :: cs).reverse) : Nested (d :: cs).reverse := by
  refine ⟨?_, ?_⟩
  · have hmargin := h.margin
    rwa [List.reverse_cons, List.head?_append_of_ne_nil _ (by simp)] at hmargin
  · exact List.pairwise_reverse.mpr (List.pairwise_reverse.mp h.rising).of_cons

/-- The outermost block is at the margin. -/
theorem eq_zero (h : Nested [c].reverse) : c = 0 :=
  Option.some.inj h.margin

end Nested

/-- The enclosing blocks, innermost first, are those that tokens and reports have opened and no token
    has closed: behind all tokens, of which the last is first, and never more closed than opened. -/
structure Levelled (columns : List Nat) (tokens : List Token) (mismatches : Nat) : Prop where
  nested : Nested columns.reverse
  level : kindCount .dedent tokens + columns.length = kindCount .indent tokens + mismatches + 1
  prefixes : ∀ read, read <:+ tokens →
    kindCount .dedent read ≤ kindCount .indent read + mismatches

namespace Levelled

variable {columns cs : List Nat} {tokens : List Token} {mismatches c d : Nat} {t : Token}

/-- Behind all tokens there are no more blocks closed than opened, and so there are not behind fewer. -/
theorem of_level {u : Token} (hprefixes : ∀ read, read <:+ tokens →
      kindCount .dedent read ≤ kindCount .indent read + mismatches)
    (hnested : Nested columns.reverse)
    (hlevel : kindCount .dedent (u :: tokens) + columns.length =
      kindCount .indent (u :: tokens) + mismatches + 1) :
    Levelled columns (u :: tokens) mismatches := by
  refine ⟨hnested, hlevel, fun read hread => ?_⟩
  rcases List.suffix_cons_iff.mp hread with rfl | hread
  · have hpos := List.length_pos_of_ne_nil hnested.ne_nil
    omega
  · exact hprefixes read hread

/-- A token that opens and closes no block. -/
theorem token (h : Levelled columns tokens mismatches) (hindent : t.kind ≠ .indent)
    (hdedent : t.kind ≠ .dedent) : Levelled columns (t :: tokens) mismatches := by
  refine of_level h.prefixes h.nested ?_
  rw [kindCount_cons, kindCount_cons, if_neg hindent, if_neg hdedent]
  exact h.level

/-- A token that opens a block. -/
theorem indent (h : Levelled columns tokens mismatches) (ht : t.kind = .indent)
    (hc : columns.headD 0 < c) : Levelled (c :: columns) (t :: tokens) mismatches := by
  refine of_level h.prefixes (h.nested.push hc) ?_
  have hlevel := h.level
  simp only [kindCount_cons, ht, List.length_cons, reduceCtorEq, if_true, if_false]
  omega

/-- A token that closes a block, which is not the outermost. -/
theorem dedent (h : Levelled (c :: d :: cs) tokens mismatches) (ht : t.kind = .dedent) :
    Levelled (d :: cs) (t :: tokens) mismatches := by
  refine of_level h.prefixes h.nested.pop ?_
  have hlevel := h.level
  simp only [kindCount_cons, ht, List.length_cons, reduceCtorEq, if_true, if_false] at hlevel ⊢
  omega

/-- A report that opens a block. -/
theorem mismatch (h : Levelled columns tokens mismatches) (hc : columns.headD 0 < c) :
    Levelled (c :: columns) tokens (mismatches + 1) := by
  refine ⟨h.nested.push hc, ?_, fun read hread => ?_⟩
  · have hlevel := h.level
    rw [List.length_cons]
    omega
  · have hread := h.prefixes read hread
    omega

/-- Where only the outermost block is open, as many are closed as were opened. -/
theorem closed (h : Levelled [c] tokens mismatches) :
    kindCount .dedent tokens = kindCount .indent tokens + mismatches := by
  have hlevel := h.level
  rw [List.length_singleton] at hlevel
  omega

end Levelled

/-! ### Brackets -/

/-- Does the token close a bracket where `depth` are open and so none is? -/
def TokenKind.isStray (depth : Nat) (kind : TokenKind) : Bool :=
  kind.isCloseBracket && depth == 0

/-- How many of the tokens close a bracket where none is open, with `depth` open in front of them. -/
def strayCount (depth : Nat) : List Token → Nat
  | [] => 0
  | t :: ts => (t.kind.isStray depth).toNat + strayCount (t.kind.depthBehind depth) ts

/-- Brackets are counted through one part and then the next. -/
theorem depthBehind_append (depth : Nat) (ts us : List Token) :
    depthBehind depth (ts ++ us) = depthBehind (depthBehind depth ts) us :=
  List.foldl_append

/-- So are brackets that close nothing. -/
theorem strayCount_append (depth : Nat) (ts us : List Token) :
    strayCount depth (ts ++ us) = strayCount depth ts + strayCount (depthBehind depth ts) us := by
  induction ts generalizing depth with
  | nil => simp [strayCount, depthBehind]
  | cons t ts ih =>
    rw [List.cons_append, strayCount, strayCount, ih, Nat.add_assoc]
    rfl

/-- The tokens, of which the last is first, leave `depth` brackets open and close `strays` that are
    not open, and none of layout is read inside brackets. -/
structure Bracketed (depth strays : Nat) (tokens : List Token) : Prop where
  depth : depthBehind 0 tokens.reverse = depth
  strays : strayCount 0 tokens.reverse = strays
  outside : ∀ t earlier, t :: earlier <:+ tokens → t.kind.isLayout = true →
    depthBehind 0 earlier.reverse = 0

namespace Bracketed

variable {depth strays : Nat} {tokens : List Token} {t : Token}

theorem cons (h : Bracketed depth strays tokens) (ht : t.kind.isLayout = true → depth = 0) :
    Bracketed (t.kind.depthBehind depth) (strays + (t.kind.isStray depth).toNat) (t :: tokens) := by
  refine ⟨?_, ?_, fun u earlier hsuffix hu => ?_⟩
  · rw [List.reverse_cons, depthBehind_append, h.depth]
    rfl
  · rw [List.reverse_cons, strayCount_append, h.depth, h.strays]
    rfl
  · rcases List.suffix_cons_iff.mp hsuffix with heq | hsuffix
    · obtain ⟨rfl, rfl⟩ := List.cons.inj heq
      exact h.depth.trans (ht hu)
    · exact h.outside u earlier hsuffix hu

/-- A part of a statement, a bracket or not. -/
theorem content (h : Bracketed depth strays tokens) (ht : t.kind.isContent = true) :
    Bracketed (t.kind.depthBehind depth) (strays + (t.kind.isStray depth).toNat) (t :: tokens) :=
  h.cons fun hlayout => absurd hlayout (by simp [TokenKind.isLayout_of_isContent ht])

/-- A token of layout. -/
theorem layout (h : Bracketed 0 strays tokens) (ht : t.kind.isLayout = true) :
    Bracketed 0 strays (t :: tokens) := by
  have hplain : t.kind.depthBehind 0 = 0 ∧ t.kind.isStray 0 = false := by
    generalize t.kind = kind at ht ⊢
    cases kind <;> first | exact ⟨rfl, rfl⟩ | cases ht
  have hcons := h.cons (t := t) fun _ => rfl
  rwa [hplain.1, hplain.2] at hcons

end Bracketed

namespace Lexer

variable {s s' : Lexer} {text rest : List Char} {kind : TokenKind}

/-! ### The invariant -/

/-- What holds before and behind every step of the walk, whatever is wrong with the text. -/
structure Steady (s : Lexer) : Prop where
  levels : Levelled s.indents s.tokens (errorCount .unindentMismatch s.issues)
  brackets : Bracketed s.depth (errorCount .unmatchedBracket s.issues) s.tokens
  /-- A line begins outside brackets. -/
  lineStart : s.atLineStart = true → s.depth = 0

/-- A lexer at the start of a text has counted nothing. -/
theorem steady_start (cs : List Char) : (start cs).Steady := by
  have hlevels : Levelled [0] [] 0 :=
    ⟨⟨rfl, List.pairwise_singleton _ _⟩, rfl, fun read hread => by
      rw [List.suffix_nil.mp hread]
      exact Nat.zero_le _⟩
  have hbrackets : Bracketed 0 0 [] :=
    ⟨rfl, rfl, fun t earlier h => absurd (List.suffix_nil.mp h) (by simp)⟩
  unfold start
  split
  · split <;> exact ⟨hlevels, hbrackets, fun _ => rfl⟩
  · exact ⟨hlevels, hbrackets, fun _ => rfl⟩

/-- A report of another kind. -/
theorem errorCount_report {error other : SyntaxError} (h : other ≠ error) (s : Lexer)
    (text : List Char) : errorCount error (s.report other text).issues = errorCount error s.issues := by
  rw [report, errorCount_cons, if_neg h, Nat.add_zero]

/-- A token is read that is a part of a statement.  The brackets are counted, and one that closes none
    is reported. -/
structure Counts (s s' : Lexer) (t : Token) : Prop where
  depth : s'.depth = t.kind.depthBehind s.depth
  mismatches : errorCount .unindentMismatch s'.issues = errorCount .unindentMismatch s.issues
  strays : errorCount .unmatchedBracket s'.issues =
    errorCount .unmatchedBracket s.issues + (t.kind.isStray s.depth).toNat

namespace Steady

/-- Characters are passed over. -/
theorem skip (h : s.Steady) (text rest : List Char) : (s.skip text rest).Steady :=
  ⟨h.levels, h.brackets, h.lineStart⟩

/-- A part of a statement is read. -/
theorem emits (h : s.Steady) (hline : s.atLineStart = false) (hemits : Emits s s' text)
    (hcounts : ∀ t ∈ s'.tokens.head?, Counts s s' t) : s'.Steady := by
  obtain ⟨kind, hkind, htokens⟩ := hemits.tokens
  rw [htokens] at hcounts
  obtain ⟨hdepth, hmismatches, hstrays⟩ := hcounts _ rfl
  refine ⟨?_, ?_, fun hstart => ?_⟩
  · rw [htokens, hemits.indents, hmismatches]
    refine h.levels.token ?_ ?_ <;>
      · rintro rfl
        cases hkind
  · rw [htokens, hdepth, hstrays]
    exact h.brackets.content hkind
  · rw [hemits.atLineStart, hline] at hstart
    cases hstart

/-- A token of layout is read that opens and closes no block. -/
theorem layout (h : s.Steady) (kind : TokenKind) (hdepth : s.depth = 0)
    (hkind : kind.isLayout = true)
    (hindent : kind ≠ .indent) (hdedent : kind ≠ .dedent) (text rest : List Char) :
    (s.emit kind text rest).Steady := by
  have hbrackets := h.brackets
  rw [hdepth] at hbrackets
  refine ⟨h.levels.token hindent hdedent, ?_, h.lineStart⟩
  exact hdepth.symm ▸ hbrackets.layout hkind

/-- An error is reported that is neither about columns nor about brackets. -/
theorem reports (h : s.Steady) (error : SyntaxError) (hcolumn : error ≠ .unindentMismatch)
    (hbracket : error ≠ .unmatchedBracket) (text : List Char) : (s.report error text).Steady := by
  have hlevels := h.levels
  have hbrackets := h.brackets
  rw [← errorCount_report hcolumn s text] at hlevels
  rw [← errorCount_report hbracket s text] at hbrackets
  exact ⟨hlevels, hbrackets, h.lineStart⟩

end Steady

/-! ### Steps -/

/-- A string literal reports nothing but that it is not closed. -/
theorem LiteralStep.errorCount {text rest : List Char} (h : LiteralStep s text rest s')
    {error : SyntaxError} (hsingle : error ≠ .unterminatedString)
    (htriple : error ≠ .unterminatedTripleString) :
    errorCount error s'.issues = errorCount error s.issues := by
  cases h with
  | closed => rfl
  | unclosed error herror =>
    rcases herror with rfl | rfl
    · exact errorCount_report hsingle.symm s _
    · exact errorCount_report htriple.symm s _

/-- Reading a literal keeps the counts. -/
theorem counts_stringLiteral (s : Lexer) (lead : List Char) (quote : Char) (cs : List Char) :
    ∀ t ∈ (s.stringLiteral lead quote cs).tokens.head?, Counts s (s.stringLiteral lead quote cs) t := by
  intro t ht
  obtain ⟨text, rest, -, -, hstep⟩ := exists_literalStep s lead quote cs
  refine ⟨hstep.depth t ht, hstep.errorCount SyntaxError.noConfusion SyntaxError.noConfusion, ?_⟩
  obtain rfl := Option.some.inj ht
  exact hstep.errorCount SyntaxError.noConfusion SyntaxError.noConfusion

/-- So does reading a word. -/
theorem WordStep.counts (h : WordStep s s') : ∀ t ∈ s'.tokens.head?, Counts s s' t := by
  intro t ht
  have hdepth := h.depth t ht
  cases h with
  | literal => exact counts_stringLiteral s _ _ _ t ht
  | @letters text =>
    obtain ⟨-, -, hclose, -⟩ := wordKind_spec text
    obtain rfl := Option.some.inj ht
    exact ⟨hdepth, rfl, by simp [TokenKind.isStray, hclose, emit, Lexer.skip]⟩

/-- A bracket is counted with what is reported of it. -/
theorem PunctuationStep.counts {c : Char} {cs : List Char} (h : PunctuationStep s c cs s') :
    ∀ t ∈ s'.tokens.head?, Counts s s' t := by
  intro t ht
  suffices hcount : errorCount .unindentMismatch s'.issues = errorCount .unindentMismatch s.issues ∧
      errorCount .unmatchedBracket s'.issues =
        errorCount .unmatchedBracket s.issues + (t.kind.isStray s.depth).toNat from
    ⟨h.depth t ht, hcount.1, hcount.2⟩
  cases h with
  | invalid =>
    obtain rfl := Option.some.inj ht
    exact ⟨errorCount_report SyntaxError.noConfusion s _, errorCount_report SyntaxError.noConfusion s _⟩
  | @opens text rest kind _ hopen =>
    obtain rfl := Option.some.inj ht
    have hclose : kind.isCloseBracket = false := by
      cases kind <;> first | rfl | cases hopen
    simp [TokenKind.isStray, hclose, emit, Lexer.skip]
  | stray _ hopen hclose hdepth =>
    obtain rfl := Option.some.inj ht
    simp [hclose, hdepth, TokenKind.isStray, emit, Lexer.skip, report, errorCount_cons]
  | closes _ hopen hclose hdepth =>
    obtain rfl := Option.some.inj ht
    simp [hclose, hdepth, TokenKind.isStray, emit, Lexer.skip]
  | plain _ hopen hclose =>
    obtain rfl := Option.some.inj ht
    simp [hclose, TokenKind.isStray, emit, Lexer.skip]

/-- So is every part of a line. -/
theorem ReadsPart.counts {c : Char} {cs : List Char} (h : ReadsPart s c cs s') :
    ∀ t ∈ s'.tokens.head?, Counts s s' t := by
  cases h with
  | string => exact counts_stringLiteral _ _ _ _
  | number =>
    rintro t ⟨⟩
    exact ⟨rfl, rfl, rfl⟩
  | word => exact (wordStep s).counts
  | punctuation => exact (punctuationStep s c cs).counts

/-- Every token keeps the counts steady. -/
theorem Steady.token (hs : s.Steady) (hline : s.atLineStart = false) (h : s.token = some s') :
    s'.Steady := by
  obtain ⟨gap, c, cs, -, -, -, hstep⟩ := exists_tokenStep h
  have hskip := hs.skip gap (c :: cs)
  cases hstep with
  | newline _ hdepth =>
    have hemit := hskip.layout .newline hdepth rfl (by simp) (by simp)
      (spanLineBreak (c :: cs)).1 (spanLineBreak (c :: cs)).2
    exact ⟨hemit.levels, hemit.brackets, fun _ => hdepth⟩
  | bracketedLineEnd | bracketedComment => exact hskip.skip _ _
  | comment _ hdepth => exact hskip.layout .comment hdepth rfl (by simp) (by simp) _ _
  | backslash =>
    split
    · have hreport := hskip.reports .strayBackslash SyntaxError.noConfusion
        SyntaxError.noConfusion [c]
      exact hreport.skip _ _
    · exact hskip.skip _ _
  | part hpart =>
    obtain ⟨text, hemits⟩ := hpart.emits rfl
    exact hskip.emits hline hemits hpart.counts

/-- Blocks that are indented further than `column` are closed, one token each. -/
theorem closeBlocks_levelled (column : Nat) {columns : List Nat} {strays : Nat}
    (hbrackets : Bracketed 0 strays s.tokens)
    (hlevels : Levelled columns s.tokens (errorCount .unindentMismatch s.issues)) :
    Levelled (closeBlocks column columns s).indents (closeBlocks column columns s).tokens
        (errorCount .unindentMismatch s.issues) ∧
      Bracketed 0 strays (closeBlocks column columns s).tokens ∧
      (closeBlocks column columns s).depth = s.depth ∧
      (closeBlocks column columns s).indents.headD 0 ≤ column := by
  induction columns generalizing s with
  | nil => exact absurd rfl hlevels.nested.ne_nil
  | cons c cs ih =>
    rw [closeBlocks]
    split
    · rename_i hlt
      cases cs with
      | nil =>
        -- the outermost block is at the margin and stays open
        rw [hlevels.nested.eq_zero] at hlt
        exact absurd hlt (Nat.not_lt_zero column)
      | cons d ds => exact ih (s := s.mark .dedent) (hbrackets.layout rfl) (hlevels.dedent rfl)
    · rename_i hle
      exact ⟨hlevels, hbrackets, rfl, Nat.le_of_not_lt hle⟩

/-- Closing blocks reports nothing. -/
theorem issues_closeBlocks (column : Nat) (indents : List Nat) (s : Lexer) :
    (closeBlocks column indents s).issues = s.issues := by
  induction indents generalizing s with
  | nil => rfl
  | cons c cs ih =>
    rw [closeBlocks]
    split
    · rw [ih]
      rfl
    · rfl

/-- Going to a column keeps the counts steady. -/
theorem Steady.indentTo (hs : s.Steady) (hline : s.atLineStart = false) (hdepth : s.depth = 0)
    (column : Nat) : (s.indentTo column).Steady := by
  have hbrackets := hs.brackets
  rw [hdepth] at hbrackets
  have hat : (s.indentTo column).atLineStart = false := (marksBlocks_indentTo s column).place.2.trans hline
  suffices h : Levelled (s.indentTo column).indents (s.indentTo column).tokens
      (errorCount .unindentMismatch (s.indentTo column).issues) ∧
      Bracketed (s.indentTo column).depth (errorCount .unmatchedBracket (s.indentTo column).issues)
        (s.indentTo column).tokens from
    ⟨h.1, h.2, fun hstart => absurd hstart (by simp [hat])⟩
  unfold Lexer.indentTo
  dsimp only
  split
  · -- further in
    rename_i hlt
    exact ⟨hs.levels.indent rfl hlt, hdepth.symm ▸ hbrackets.layout rfl⟩
  · split
    · -- further out, to the column of an enclosing block or to none
      obtain ⟨hlevels, hclosed, hsame, hhead⟩ := closeBlocks_levelled column hbrackets hs.levels
      rw [hdepth] at hsame
      split
      · rw [issues_closeBlocks, hsame]
        exact ⟨hlevels, hclosed⟩
      · rename_i hne
        simp only [report, errorCount_cons, issues_closeBlocks, hsame, if_true, reduceCtorEq,
          if_false, Nat.add_zero]
        exact ⟨hlevels.mismatch (by omega), hclosed⟩
    · exact ⟨hs.levels, hs.brackets⟩

/-- So does the start of a line. -/
theorem Steady.lineStart_step (hs : s.Steady) (hdepth : s.depth = 0) (h : s.lineStart = some s') :
    s'.Steady := by
  obtain ⟨blanks, c, cs, -, -, -, hstep⟩ := exists_lineStep h
  have hskip := hs.skip blanks (c :: cs)
  have hblankLine : ∀ s : Lexer, s.Steady → s.depth = 0 → s.blankLine.Steady := fun s hs hdepth =>
    hs.layout .blankLine hdepth rfl (by simp) (by simp) _ _
  cases hstep with
  | blank => exact hblankLine _ hskip hdepth
  | comment =>
    have hcomment : (s.skip blanks (c :: cs)).comment.Steady :=
      hskip.layout .comment hdepth rfl (by simp) (by simp) _ _
    exact hblankLine _ hcomment hdepth
  | joined => exact hskip.skip _ _
  | first =>
    have hinside : Steady { s.skip blanks (c :: cs) with atLineStart := false } :=
      ⟨hskip.levels, hskip.brackets, fun hstart => by cases hstart⟩
    exact hinside.indentTo rfl hdepth _

/-- **Each step of the walk preserves the invariant**, also on text that is not well formed. -/
theorem Steady.step (hs : s.Steady) (h : s.step = some s') : s'.Steady := by
  unfold Lexer.step at h
  split at h
  · rename_i hstart
    simp only [Bool.and_eq_true, beq_iff_eq] at hstart
    exact hs.lineStart_step hstart.2 h
  · rename_i hstart
    have hline : s.atLineStart = false := by
      by_contra hline
      rw [Bool.not_eq_false] at hline
      exact hstart (by simp [hline, hs.lineStart hline])
    exact hs.token hline h

/-- So does a whole run. -/
theorem Steady.run (hs : s.Steady) (n : Nat) : (run n s).Steady :=
  run_induction (fun _ _ hs h => hs.step h) n hs

/-! ### The end of the text -/

/-- What closes a text that ends at byte `stop`: the end of a line if one is open, the ends of the
    open blocks, and the end of the text. -/
def closing (line : Bool) (blocks stop : Nat) : List Token :=
  (if line then [⟨.newline, ⟨stop, stop⟩, ""⟩] else []) ++
    List.replicate blocks ⟨.dedent, ⟨stop, stop⟩, ""⟩ ++ [⟨.eof, ⟨stop, stop⟩, ""⟩]

/-- A mark is a token of no characters. -/
theorem mark_tokens (s : Lexer) (kind : TokenKind) :
    (s.mark kind).tokens = ⟨kind, ⟨s.offset, s.offset⟩, ""⟩ :: s.tokens :=
  rfl

/-- Ending the last line opens and closes no block. -/
theorem endLine_levelled (h : Levelled s.indents s.tokens (errorCount .unindentMismatch s.issues)) :
    Levelled s.endLine.indents s.endLine.tokens (errorCount .unindentMismatch s.endLine.issues) := by
  rcases endLine_eq s with heq | heq
  · rwa [heq]
  · rw [heq]
    exact h.token (by simp) (by simp)

/-- The blocks inside the outermost are closed, one token each. -/
theorem dedents_levelled {c : Nat} {cs : List Nat}
    (h : Levelled (c :: cs) s.tokens (errorCount .unindentMismatch s.issues)) :
    ∃ d, Levelled [d] (cs.foldl (fun s _ => s.mark .dedent) s).tokens
      (errorCount .unindentMismatch (cs.foldl (fun s _ => s.mark .dedent) s).issues) := by
  induction cs generalizing c s with
  | nil => exact ⟨c, h⟩
  | cons d ds ih => exact ih (s := s.mark .dedent) (h.dedent rfl)

/-- At the end as many blocks are closed as are open. -/
theorem endBlocks_tokens (s : Lexer) :
    s.endBlocks.tokens =
        List.replicate (s.indents.length - 1) ⟨.dedent, ⟨s.offset, s.offset⟩, ""⟩ ++ s.tokens ∧
      s.endBlocks.offset = s.offset := by
  have hmarks (columns : List Nat) (s : Lexer) :
      (columns.foldl (fun s _ => s.mark .dedent) s).tokens =
          List.replicate columns.length ⟨.dedent, ⟨s.offset, s.offset⟩, ""⟩ ++ s.tokens ∧
        (columns.foldl (fun s _ => s.mark .dedent) s).offset = s.offset := by
    induction columns generalizing s with
    | nil => exact ⟨rfl, rfl⟩
    | cons c cs ih =>
      obtain ⟨htokens, hoffset⟩ := ih (s.mark .dedent)
      refine ⟨?_, hoffset⟩
      rw [List.foldl_cons, htokens, List.length_cons, List.replicate_succ', List.append_assoc]
      rfl
  have hdrop := hmarks (s.indents.drop 1) s
  rwa [List.length_drop] at hdrop

/-- At the end of the text, brackets that are open are reported. -/
def atEnd (s : Lexer) (stop : Nat) : Lexer :=
  let s := { s with rest := [], offset := stop }
  if 0 < s.depth then s.report .openBracketAtEnd [] else s

/-- The end of a text marks its last line, its blocks and the end. -/
theorem finish_eq_marks (s : Lexer) (stop : Nat) :
    s.finish stop = (s.atEnd stop).endLine.endBlocks.mark .eof :=
  rfl

/-- Going to the end changes no token and no block. -/
theorem atEnd_spec (s : Lexer) (stop : Nat) :
    (s.atEnd stop).tokens = s.tokens ∧ (s.atEnd stop).indents = s.indents ∧
      (s.atEnd stop).offset = stop ∧
      errorCount .unindentMismatch (s.atEnd stop).issues = errorCount .unindentMismatch s.issues := by
  unfold atEnd
  dsimp only
  split
  · exact ⟨rfl, rfl, rfl, errorCount_report SyntaxError.noConfusion _ _⟩
  · exact ⟨rfl, rfl, rfl, rfl⟩

/-- Behind the end of the text all blocks but the outermost are closed. -/
theorem Steady.finish_levelled (hs : s.Steady) (stop : Nat) :
    ∃ d, Levelled [d] (s.finish stop).tokens (errorCount .unindentMismatch (s.finish stop).issues) := by
  obtain ⟨htokens, hindents, -, hissues⟩ := atEnd_spec s stop
  have hlevels := hs.levels
  rw [← htokens, ← hindents, ← hissues] at hlevels
  have hline := endLine_levelled hlevels
  obtain ⟨c, cs, hcolumns⟩ := List.exists_cons_of_ne_nil hline.nested.ne_nil
  rw [hcolumns] at hline
  obtain ⟨d, hblocks⟩ := dedents_levelled hline
  refine ⟨d, ?_⟩
  rw [finish_eq_marks, endBlocks, hcolumns, List.drop_one, List.tail_cons]
  exact hblocks.token (t := ⟨.eof, _, _⟩) TokenKind.noConfusion TokenKind.noConfusion

/-- What is added at the end of the text closes it. -/
theorem finish_tokens (s : Lexer) (stop : Nat) :
    ∃ line, (s.finish stop).tokens.reverse =
      s.tokens.reverse ++ closing line (s.indents.length - 1) stop := by
  obtain ⟨htokens, hindents, hoffset, -⟩ := atEnd_spec s stop
  obtain ⟨hblocks, hplace⟩ := endBlocks_tokens (s.atEnd stop).endLine
  rw [finish_eq_marks, mark_tokens, hblocks, hplace]
  rcases endLine_eq (s.atEnd stop) with heq | heq
  · exact ⟨false, by simp [heq, htokens, hindents, hoffset, closing]⟩
  · have hnewline : ((s.atEnd stop).mark .newline).tokens =
        ⟨.newline, ⟨stop, stop⟩, ""⟩ :: s.tokens := by
      rw [mark_tokens, htokens, hoffset]
    have hsame : ((s.atEnd stop).mark .newline).indents = s.indents ∧
        ((s.atEnd stop).mark .newline).offset = stop := ⟨hindents, hoffset⟩
    exact ⟨true, by simp [heq, hnewline, hsame, closing]⟩

end Lexer

/-! ### The layout of a text -/

/-- The layout tokens of a text are balanced. -/
structure LayoutBalanced (source : String) : Prop where
  /-- Throughout the walk, the columns of the enclosing blocks rise from the margin. -/
  nested : ∀ n, Nested (Lexer.run n (Lexer.start source.toList)).indents.reverse
  /-- Throughout the walk, the brackets counted as open are those that the tokens leave open. -/
  depth : ∀ n, depthBehind 0 (Lexer.run n (Lexer.start source.toList)).tokens.reverse =
    (Lexer.run n (Lexer.start source.toList)).depth
  /-- All blocks that tokens or reports have opened are closed. -/
  closed : kindCount .dedent (tokenize source).1 =
    kindCount .indent (tokenize source).1 + errorCount .unindentMismatch (tokenize source).2
  /-- None is closed before it is opened. -/
  prefixes : ∀ read, read <+: (tokenize source).1 →
    kindCount .dedent read ≤ kindCount .indent read + errorCount .unindentMismatch (tokenize source).2
  /-- But for those that close the text, no layout token stands inside brackets. -/
  outside : ∃ tokens line blocks,
    (tokenize source).1 = tokens ++ Lexer.closing line blocks (Text.byteLength source.toList) ∧
      ∀ before t behind, tokens = before ++ t :: behind → t.kind.isLayout = true →
        depthBehind 0 before = 0
  /-- One token is the end of the text, and it is the last. -/
  ends : ∃ tokens t, (tokenize source).1 = tokens ++ [t] ∧ t.kind = .eof ∧
    ∀ u ∈ tokens, u.kind ≠ .eof

/-- **The layout of every text is balanced.** -/
theorem tokenize_balanced (source : String) : LayoutBalanced source := by
  have hsteady (n : Nat) : (Lexer.run n (Lexer.start source.toList)).Steady :=
    (Lexer.steady_start source.toList).run n
  have hwalked : (Lexer.walked source.toList).Steady := hsteady _
  obtain ⟨d, hlevels⟩ := hwalked.finish_levelled (Text.byteLength source.toList)
  refine ⟨fun n => (hsteady n).levels.nested, fun n => (hsteady n).brackets.depth, ?_,
    fun read hread => ?_, ?_, tokenize_ends source⟩
  · rw [tokenize_eq, kindCount_reverse, kindCount_reverse, errorCount_reverse]
    exact hlevels.closed
  · rw [tokenize_eq] at hread ⊢
    have hprefix := hlevels.prefixes read.reverse (List.reverse_prefix.mp (by simpa using hread))
    rwa [kindCount_reverse, kindCount_reverse, ← errorCount_reverse] at hprefix
  · obtain ⟨line, htokens⟩ :=
      Lexer.finish_tokens (Lexer.walked source.toList) (Text.byteLength source.toList)
    refine ⟨(Lexer.walked source.toList).tokens.reverse, line, _, htokens, ?_⟩
    intro before t behind hsplit ht
    rw [List.reverse_eq_iff, List.reverse_append, List.reverse_cons, List.append_assoc] at hsplit
    have houtside := hwalked.brackets.outside t before.reverse ⟨behind.reverse, hsplit.symm⟩ ht
    rwa [List.reverse_reverse] at houtside

end PackageDoc
