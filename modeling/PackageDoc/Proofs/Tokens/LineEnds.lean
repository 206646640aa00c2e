import PackageDoc.Proofs.Annotation.Lockstep
import PackageDoc.Proofs.Progress.Tokens

namespace PackageDoc

/-!
# Line ends do not matter to the tokens

A text whose lines end in `\n` and the same text with `\r\n` in their place are read in lockstep.

* `Text.crlf` — a text with `\r\n` in the place of every `\n`;
* `CutsAlike` and `spanString_crlf` — a lexeme is cut off at the same place of both texts;
* `Lexer.Twin` — two lexers at the same place of both texts;
* `Lexer.twin_step` — a step of one is a step of the other;
* `tokenize_withReturns` — both texts have the same tokens and the same messages.
-/

namespace Text

/-- A text with `\r\n` in the place of every `\n`. -/
def crlf (cs : List Char) : List Char :=
  cs.flatMap fun c => if c = '\n' then ['\r', '\n'] else [c]

variable {c : Char} {cs text : List Char}

@[simp] theorem crlf_nil : crlf [] = [] := rfl

/-- Two texts are given returns one after the other. -/
theorem crlf_append (cs ds : List Char) : crlf (cs ++ ds) = crlf cs ++ crlf ds :=
  List.flatMap_append

/-- A line feed is given a return. -/
@[simp] theorem crlf_newline (cs : List Char) : crlf ('\n' :: cs) = '\r' :: '\n' :: crlf cs := rfl

/-- Any other character stays as it is. -/
theorem crlf_cons (hc : c ≠ '\n') (cs : List Char) : crlf (c :: cs) = c :: crlf cs := by
  rw [crlf, List.flatMap_cons, if_neg hc]
  rfl

/-- So does a text without line feeds. -/
theorem crlf_eq_self (h : '\n' ∉ cs) : crlf cs = cs := by
  induction cs with
  | nil => rfl
  | cons c cs ih =>
    obtain ⟨hc, hcs⟩ := not_or.mp (fun hmem => h (List.mem_cons.mpr hmem))
    rw [crlf_cons (Ne.symm hc), ih hcs]

/-- Only the empty text becomes empty. -/
theorem isEmpty_crlf (cs : List Char) : (crlf cs).isEmpty = cs.isEmpty := by
  cases cs with
  | nil => rfl
  | cons c cs =>
    by_cases hc : c = '\n'
    · subst hc
      rfl
    · rw [crlf_cons hc]
      rfl

/-- What is asked of the next character has the same answer, unless it tells line ends apart. -/
theorem any_head?_crlf {p : Char → Bool} (hp : p '\r' = p '\n') (cs : List Char) :
    (crlf cs).head?.any p = cs.head?.any p := by
  cases cs with
  | nil => rfl
  | cons c cs =>
    by_cases hc : c = '\n'
    · subst hc
      exact hp
    · rw [crlf_cons hc]
      rfl

/-- A word without line ends stands at the beginning of both texts or of neither. -/
theorem isPrefixOf_crlf (htext : ∀ c ∈ text, isLineBreak c = false) (cs : List Char) :
    text.isPrefixOf (crlf cs) = text.isPrefixOf cs := by
  induction text generalizing cs with
  | nil => rw [List.isPrefixOf_nil_left, List.isPrefixOf_nil_left]
  | cons a text ih =>
    obtain ⟨ha, htext⟩ := List.forall_mem_cons.mp htext
    cases cs with
    | nil => rfl
    | cons c cs =>
      by_cases hc : c = '\n'
      · subst hc
        simp only [isLineBreak, Bool.or_eq_false_iff] at ha
        simp [List.isPrefixOf, ha]
      · rw [crlf_cons hc, List.isPrefixOf, List.isPrefixOf, ih htext]

/-- Behind it the texts go on alike. -/
theorem drop_crlf (htext : ∀ c ∈ text, isLineBreak c = false) (h : text.isPrefixOf cs = true) :
    (crlf cs).drop text.length = crlf (cs.drop text.length) := by
  obtain ⟨rest, rfl⟩ := List.isPrefixOf_iff_prefix.mp h
  have hself : crlf text = text := crlf_eq_self fun hmem => absurd (htext _ hmem) (by decide)
  rw [crlf_append, hself, List.drop_left, List.drop_left]

end Text

/-- A text whose lines end in `\r\n` where those of `source` end in `\n`. -/
def withReturns (source : String) : String :=
  String.ofList (Text.crlf source.toList)

open Text

/-! ### Cuts -/

variable {cs rest : List Char} {c quote : Char} {hex triple : Bool}

/-- Both texts are cut at the same place. -/
def CutsAlike (cut : List Char → List Char × List Char) : Prop :=
  ∀ cs, '\r' ∉ cs → cut (crlf cs) = (crlf (cut cs).1, crlf (cut cs).2)

/-- A class of characters ends at the same place, unless it holds line ends. -/
theorem cutsAlike_span {p : Char → Bool} (hp : ∀ c, isLineBreak c = true → p c = false) :
    CutsAlike (List.span p) := by
  intro cs hcs
  simp only [List.span_eq_takeWhile_dropWhile]
  induction cs with
  | nil => rfl
  | cons c cs ih =>
    by_cases hc : c = '\n'
    · subst hc
      simp [hp '\n' rfl, hp '\r' rfl]
    · rw [crlf_cons hc]
      cases hpc : p c with
      | false => simp [hpc, crlf_cons hc]
      | true =>
        obtain ⟨htake, hdrop⟩ := Prod.mk.inj (ih fun hmem => hcs (List.mem_cons_of_mem c hmem))
        simp [hpc, htake, hdrop, crlf_cons hc]

/-- A line is cut off alike with and without returns. -/
theorem cutsAlike_spanLine : CutsAlike spanLine :=
  cutsAlike_span fun c hc => by rw [hc]; rfl

/-- So is a gap. -/
theorem cutsAlike_isGap : CutsAlike (List.span isGap) := by
  refine cutsAlike_span fun c hc => ?_
  simp only [isLineBreak, Bool.or_eq_true, beq_iff_eq] at hc
  rcases hc with rfl | rfl <;> rfl

/-- So is a name. -/
theorem cutsAlike_isNamePart : CutsAlike (List.span isNamePart) := by
  refine cutsAlike_span fun c hc => ?_
  simp only [isLineBreak, Bool.or_eq_true, beq_iff_eq] at hc
  rcases hc with rfl | rfl <;> rfl

/-- So is a line break. -/
theorem cutsAlike_spanLineBreak : CutsAlike spanLineBreak := by
  intro cs hcs
  cases cs with
  | nil => rfl
  | cons c cs =>
    have hr : c ≠ '\r' := fun h => hcs (h ▸ List.mem_cons_self)
    by_cases hc : c = '\n'
    · subst hc
      rfl
    · have hnone : ∀ ds, spanLineBreak (c :: ds) = ([], c :: ds) := fun ds => by
        simp [spanLineBreak, hr, hc]
      rw [crlf_cons hc, hnone, hnone, crlf_nil, crlf_cons hc]

/-- So is a number. -/
theorem cutsAlike_spanNumber (hex : Bool) (prev : Char) : CutsAlike (spanNumber hex prev) := by
  intro cs hcs
  induction cs generalizing prev with
  | nil => rfl
  | cons c cs ih =>
    by_cases hc : c = '\n'
    · subst hc
      simp [spanNumber]
    · rw [crlf_cons hc, spanNumber, spanNumber, ih c fun hmem => hcs (List.mem_cons_of_mem c hmem)]
      dsimp only
      split
      · rw [crlf_cons hc]
      · rw [crlf_nil, crlf_cons hc]

/-- The blanks at the beginning of a line lead to the same column. -/
theorem spanIndent_crlf (column : Nat) (hcs : '\r' ∉ cs) :
    spanIndent column (crlf cs) =
      ((spanIndent column cs).1, crlf (spanIndent column cs).2.1, crlf (spanIndent column cs).2.2) := by
  induction cs generalizing column with
  | nil => rfl
  | cons c cs ih =>
    by_cases hc : c = '\n'
    · subst hc
      simp [spanIndent]
    · rw [crlf_cons hc]
      rcases spanIndent_cons column c cs with ⟨-, column', heq⟩ | ⟨hgap, heq⟩
      · rw [heq, heq, ih column' fun hmem => hcs (List.mem_cons_of_mem c hmem), crlf_cons hc]
      · have hstop : spanIndent column (c :: crlf cs) = (column, [], c :: crlf cs) := by
          rcases spanIndent_cons column c (crlf cs) with ⟨htrue, -⟩ | ⟨-, heq⟩
          · rw [hgap] at htrue
            cases htrue
          · exact heq
        rw [heq, hstop, crlf_nil, crlf_cons hc]

/-! ### String literals -/

/-- The body of a string literal with the other line ends. -/
def StringBody.crlf (body : StringBody) : StringBody :=
  ⟨Text.crlf body.text, Text.crlf body.rest, body.closed⟩

/-- Characters that are put in front of the body of a string are given returns with it. -/
theorem StringBody.after_crlf (cs : List Char) (body : StringBody) :
    body.crlf.after (Text.crlf cs) = (body.after cs).crlf := by
  simp [StringBody.after, StringBody.crlf, crlf_append]

/-- A backslash takes the character behind it along. -/
theorem spanString_backslash (hc : ∀ ds, c = '\r' → cs = '\n' :: ds → False) :
    spanString quote triple ('\\' :: c :: cs) = (spanString quote triple cs).after ['\\', c] := by
  rw [spanString]
  exact hc

/-- A line break ends a string unless it is tripled. -/
theorem spanString_lineBreak (hc : isLineBreak c = true) (hquote : isLineBreak quote = false)
    (triple : Bool) (cs : List Char) :
    spanString quote triple (c :: cs) =
      if triple then (spanString quote triple cs).after [c] else ⟨[], c :: cs, false⟩ := by
  have hslash : c ≠ '\\' := by
    rintro rfl
    cases hc
  have hne : c ≠ quote := by
    rintro rfl
    rw [hc] at hquote
    cases hquote
  rw [spanString_cons hslash, if_neg hne, hc]
  cases triple <;> rfl

/-- What stands behind a backslash belongs to the literal, be it one character or a line end of
    two. -/
theorem spanString_crlf_backslash (hc : c ≠ '\r')
    (hmore : spanString quote triple (crlf cs) = (spanString quote triple cs).crlf) :
    spanString quote triple (crlf ('\\' :: c :: cs)) =
      (spanString quote triple ('\\' :: c :: cs)).crlf := by
  rw [crlf_cons (by decide), spanString_backslash fun _ h _ => hc h, ← StringBody.after_crlf,
    ← hmore]
  by_cases hd : c = '\n'
  · subst hd
    rfl
  · rw [crlf_cons hd, spanString_backslash fun _ h _ => hc h, crlf_cons (by decide), crlf_cons hd,
      crlf_nil]

/-- A string literal ends at the same place. -/
theorem spanString_crlf (hquote : isLineBreak quote = false) (triple : Bool) (hcs : '\r' ∉ cs) :
    spanString quote triple (crlf cs) = (spanString quote triple cs).crlf := by
  -- behind a backslash two characters are taken at once, so the induction is on the length
  induction hn : cs.length using Nat.strong_induction_on generalizing cs with
  | _ n ih =>
    have hbehind : ∀ ds : List Char, ds.length < n → '\r' ∉ ds →
        spanString quote triple (crlf ds) = (spanString quote triple ds).crlf :=
      fun _ hlength hds => ih _ hlength hds rfl
    clear ih
    rcases cs with _ | ⟨c, cs⟩
    · simp [spanString, StringBody.crlf]
    have hrest := List.not_mem_of_not_mem_cons hcs
    rw [List.length_cons] at hn
    by_cases hslash : c = '\\'
    · subst hslash
      rcases cs with _ | ⟨d, cs⟩
      · simp [spanString, StringBody.crlf, crlf]
      rw [List.length_cons] at hn
      exact spanString_crlf_backslash (Ne.symm (List.ne_of_not_mem_cons hrest))
        (hbehind cs (by omega) (List.not_mem_of_not_mem_cons hrest))
    · have hmore := hbehind cs (by omega) hrest
      by_cases hc : c = '\n'
      -- a line end ends the literal, or both of its characters belong to it
      · subst hc
        rw [crlf_newline, spanString_lineBreak rfl hquote, spanString_lineBreak rfl hquote,
          spanString_lineBreak rfl hquote, hmore]
        cases triple <;> rfl
      · have hquotes : ∀ d ∈ [quote, quote], isLineBreak d = false := by simpa using hquote
        rw [crlf_cons hc, spanString_cons hslash, spanString_cons hslash, isPrefixOf_crlf hquotes,
          hmore]
        split
        · rw [StringBody.crlf, crlf_nil, crlf_cons hc]
        · split
          -- a quote closes the literal, alone or as the first of three, or belongs to it
          · split
            · simp [StringBody.crlf, crlf_cons hc]
            · split
              · rename_i hc' _ htriple
                subst hc'
                have hdrop : (crlf cs).drop 2 = crlf (cs.drop 2) := drop_crlf hquotes htriple
                simp [StringBody.crlf, crlf_cons hc, hdrop]
              · rw [← StringBody.after_crlf, crlf_cons hc, crlf_nil]
          · rw [← StringBody.after_crlf, crlf_cons hc, crlf_nil]

/-! ### Two lexers -/

/-- A token and the one in the same place of the text with the other line ends. -/
def Token.Twin (t t' : Token) : Prop :=
  t'.kind = t.kind ∧ t'.text = withReturns t.text

namespace Lexer

/-- The lexer `s` reads a text without `\r`, and `s'` stands at the same place of the text with
    `\r\n` in the place of `\n`. -/
structure Twin (s s' : Lexer) : Prop where
  rest : s'.rest = crlf s.rest
  plain : '\r' ∉ s.rest
  indents : s'.indents = s.indents
  depth : s'.depth = s.depth
  atLineStart : s'.atLineStart = s.atLineStart
  tokens : List.Forall₂ Token.Twin s.tokens s'.tokens
  issues : s'.issues.map SyntaxIssue.error = s.issues.map SyntaxIssue.error

variable {s s' : Lexer} {text lead : List Char} {kind : TokenKind}

/-- A string literal that begins with `opening`, reported as `error` if nothing closes it. -/
def openLiteral (s : Lexer) (error : SyntaxError) (opening : List Char) (body : StringBody) : Lexer :=
  (if body.closed then s else s.report error (opening ++ body.text)).emit .string
    (opening ++ body.text) body.rest

/-- Without two more quotes a literal is in single ones. -/
theorem stringLiteral_single (s : Lexer) (lead : List Char)
    (h : [quote, quote].isPrefixOf cs = false) : s.stringLiteral lead quote cs =
      s.openLiteral .unterminatedString (lead ++ [quote]) (spanString quote false cs) := by
  simp [stringLiteral, openLiteral, h]

/-- With two more it is in triple ones. -/
theorem stringLiteral_triple (s : Lexer) (lead : List Char)
    (h : [quote, quote].isPrefixOf cs = true) : s.stringLiteral lead quote cs =
      s.openLiteral .unterminatedTripleString (lead ++ [quote, quote, quote])
        (spanString quote true (cs.drop 2)) := by
  simp [stringLiteral, openLiteral, h]

namespace Twin

/-- Twins stay twins when both skip the same characters. -/
theorem skip (h : Twin s s') (hcut : s.rest = text ++ rest) :
    Twin (s.skip text rest) (s'.skip (crlf text) (crlf rest)) :=
  { h with
    rest := rfl
    plain := fun hmem => h.plain (by rw [hcut]; exact List.mem_append_right _ hmem) }

/-- So do they when both make a token of them. -/
theorem emit (h : Twin s s') (kind : TokenKind) (hcut : s.rest = text ++ rest) :
    Twin (s.emit kind text rest) (s'.emit kind (crlf text) (crlf rest)) :=
  { h.skip hcut with
    tokens := .cons ⟨rfl, by rw [withReturns, String.toList_ofList]⟩ h.tokens }

/-- So do they when both make a mark. -/
theorem mark (h : Twin s s') (kind : TokenKind) : Twin (s.mark kind) (s'.mark kind) := by
  have hemit := h.emit kind (List.nil_append s.rest).symm
  rwa [← h.rest] at hemit

/-- So do they when both report an error. -/
theorem report (h : Twin s s') (error : SyntaxError) (text text' : List Char) :
    Twin (s.report error text) (s'.report error text') :=
  { h with issues := by simp [Lexer.report, h.issues] }

/-- So do they when both change the open blocks. -/
theorem withIndents (h : Twin s s') {indents indents' : List Nat} (hsame : indents' = indents) :
    Twin { s with indents := indents } { s' with indents := indents' } :=
  { h with indents := hsame }

/-- So do they when both change the open brackets. -/
theorem withDepth (h : Twin s s') (depth : Nat) :
    Twin { s with depth := depth } { s' with depth := depth } :=
  { h with depth := rfl }

/-- So do they when both come to the start of a line, or leave it. -/
theorem withLineStart (h : Twin s s') (atLineStart : Bool) :
    Twin { s with atLineStart := atLineStart } { s' with atLineStart := atLineStart } :=
  { h with atLineStart := rfl }

/-! ### Lexemes -/

/-- Twins read the same comment. -/
theorem comment (h : Twin s s') : Twin s.comment s'.comment := by
  have hemit := h.emit .comment (spanLine_append s.rest).symm
  unfold Lexer.comment
  rw [h.rest, cutsAlike_spanLine s.rest h.plain]
  exact hemit

/-- They read the same blank line. -/
theorem blankLine (h : Twin s s') : Twin s.blankLine s'.blankLine := by
  have hemit := h.emit .blankLine (spanLineBreak_append s.rest).symm
  unfold Lexer.blankLine
  rw [h.rest, cutsAlike_spanLineBreak s.rest h.plain]
  exact hemit

/-- They read the same body of a literal. -/
theorem openLiteral (h : Twin s s') (error : SyntaxError) (triple : Bool)
    (hrest : s.rest = lead ++ cs) (hquote : isLineBreak quote = false) (hlead : crlf lead = lead) :
    Twin (s.openLiteral error lead (spanString quote triple cs))
      (s'.openLiteral error lead (spanString quote triple (crlf cs))) := by
  have hcs : '\r' ∉ cs := fun hmem => h.plain (by rw [hrest]; exact List.mem_append_right _ hmem)
  have hcut : s.rest = (lead ++ (spanString quote triple cs).text) ++
      (spanString quote triple cs).rest := by
    rw [List.append_assoc, spanString_append, hrest]
  have htext : lead ++ crlf (spanString quote triple cs).text =
      crlf (lead ++ (spanString quote triple cs).text) := by
    rw [crlf_append, hlead]
  rw [spanString_crlf hquote triple hcs]
  simp only [Lexer.openLiteral, StringBody.crlf, htext]
  split
  · exact h.emit .string hcut
  · exact (h.report _ _ _).emit .string hcut

/-- They read the same literal. -/
theorem stringLiteral (h : Twin s s') (hrest : s.rest = lead ++ quote :: cs)
    (hquote : isLineBreak quote = false) (hlead : crlf lead = lead) :
    Twin (s.stringLiteral lead quote cs) (s'.stringLiteral lead quote (crlf cs)) := by
  have hquotes : ∀ d ∈ [quote, quote], isLineBreak d = false := by simpa using hquote
  have hne : quote ≠ '\n' := by
    rintro rfl
    cases hquote
  cases htriple : [quote, quote].isPrefixOf cs with
  | false =>
    have hopening : crlf (lead ++ [quote]) = lead ++ [quote] := by
      rw [crlf_append, hlead, crlf_cons hne, crlf_nil]
    have hcut : s.rest = (lead ++ [quote]) ++ cs := by
      rw [hrest, List.append_assoc, List.singleton_append]
    rw [stringLiteral_single s lead htriple,
      stringLiteral_single s' lead ((isPrefixOf_crlf hquotes cs).trans htriple)]
    exact h.openLiteral _ false hcut hquote hopening
  | true =>
    have hdrop : (crlf cs).drop 2 = crlf (cs.drop 2) := drop_crlf hquotes htriple
    have hopening : crlf (lead ++ [quote, quote, quote]) = lead ++ [quote, quote, quote] := by
      rw [crlf_append, hlead, crlf_cons hne, crlf_cons hne, crlf_cons hne, crlf_nil]
    have hcut : s.rest = (lead ++ [quote, quote, quote]) ++ cs.drop 2 := by
      obtain ⟨ds, rfl⟩ := List.isPrefixOf_iff_prefix.mp htriple
      rw [hrest, List.append_assoc]
      rfl
    rw [stringLiteral_triple s lead htriple,
      stringLiteral_triple s' lead ((isPrefixOf_crlf hquotes cs).trans htriple), hdrop]
    exact h.openLiteral _ true hcut hquote hopening

/-- A quote behind letters makes a literal of them, and no line end is a quote. -/
theorem beginsLiteral_crlf (text more : List Char) :
    beginsLiteral text (crlf more) = beginsLiteral text more :=
  any_head?_crlf (by simp) more

/-- Twins read the same word. -/
theorem word (h : Twin s s') : Twin s.word s'.word := by
  obtain ⟨text, more, hspan⟩ : ∃ text more, s.rest.span isNamePart = (text, more) := ⟨_, _, rfl⟩
  -- the letters of a word are no line ends
  have hself : crlf text = text := by
    refine crlf_eq_self fun hmem => ?_
    rw [List.span_eq_takeWhile_dropWhile] at hspan
    rw [← (Prod.mk.inj hspan).1] at hmem
    exact absurd (List.mem_takeWhile_imp hmem) (by decide)
  have hspan' : s'.rest.span isNamePart = (text, crlf more) := by
    rw [h.rest, cutsAlike_isNamePart s.rest h.plain, hspan, hself]
  have hcut := append_of_span hspan
  cases hliteral : beginsLiteral text more with
  | false =>
    rw [word_name hspan hliteral, word_name hspan' ((beginsLiteral_crlf text more).trans hliteral)]
    have hemit := h.emit (wordKind text) hcut
    rwa [hself] at hemit
  | true =>
    obtain ⟨c, cs, rfl, hquote, -⟩ := exists_of_beginsLiteral hliteral
    have hne : c ≠ '\n' := by rintro rfl; simp at hquote
    have hbreak : isLineBreak c = false := by rcases hquote with rfl | rfl <;> rfl
    have hliteral' := (beginsLiteral_crlf text (c :: cs)).trans hliteral
    rw [crlf_cons hne] at hspan' hliteral'
    rw [word_literal hspan hliteral, word_literal hspan' hliteral']
    exact h.stringLiteral hcut hbreak hself

/-- They read the same number. -/
theorem number (h : Twin s s') (hrest : s.rest = c :: cs) (hc : c ≠ '\n') :
    Twin (s.number c cs) (s'.number c (crlf cs)) := by
  have hcs : '\r' ∉ cs := fun hmem => h.plain (by rw [hrest]; exact List.mem_cons_of_mem _ hmem)
  -- the mark of a hexadecimal number is no line end, so it stands in both texts or in none
  have hnext : ∀ d, isLineBreak d = false → ((crlf cs).head? == some d) = (cs.head? == some d) := by
    intro d hd
    simp only [isLineBreak, Bool.or_eq_false_iff, beq_eq_false_iff_ne] at hd
    cases cs with
    | nil => rfl
    | cons e cs =>
      by_cases he : e = '\n'
      · subst he
        simp [Ne.symm hd.1, Ne.symm hd.2]
      · rw [crlf_cons he]
        rfl
  unfold Lexer.number
  dsimp only
  rw [hnext 'x' rfl, hnext 'X' rfl, cutsAlike_spanNumber _ c cs hcs, ← crlf_cons hc]
  refine h.emit .number ?_
  rw [hrest, List.cons_append, spanNumber_append]

/-- No operator has a line end. -/
theorem isLineBreak_of_mem_operators : ∀ op ∈ operators, ∀ c ∈ op.1, isLineBreak c = false := by
  have hall : (operators.all fun op => op.1.all fun c => !isLineBreak c) = true := by
    decide
  intro op hop c hc
  simpa using List.all_eq_true.mp (List.all_eq_true.mp hall op hop) c hc

/-- Twins read the same punctuation mark. -/
theorem punctuation (h : Twin s s') (hrest : s.rest = c :: cs) (hc : c ≠ '\n') :
    Twin (s.punctuation c cs) (s'.punctuation c (crlf cs)) := by
  have hfind : (operators.find? fun op => op.1.isPrefixOf (c :: crlf cs)) =
      operators.find? fun op => op.1.isPrefixOf (c :: cs) := by
    rw [← List.head?_filter, ← List.head?_filter]
    refine congrArg List.head? (List.filter_congr fun op hop => ?_)
    rw [← crlf_cons hc, isPrefixOf_crlf (isLineBreak_of_mem_operators op hop)]
  unfold Lexer.punctuation
  rw [hfind]
  split
  -- no operator begins here
  · have hcut : s.rest = [c] ++ cs := hrest
    have hemit := (h.report (.invalidCharacter c) [c] [c]).emit .error hcut
    rwa [crlf_cons hc, crlf_nil] at hemit
  · rename_i text kind hfound
    have htext := isLineBreak_of_mem_operators _ (List.mem_of_find?_eq_some hfound)
    have hfits : text.isPrefixOf (c :: cs) = true := by simpa using List.find?_some hfound
    have hself : crlf text = text := crlf_eq_self fun hmem => absurd (htext _ hmem) (by decide)
    have hcut : s.rest = text ++ (c :: cs).drop text.length := by
      obtain ⟨rest, hprefix⟩ := List.isPrefixOf_iff_prefix.mp hfits
      rw [hrest, ← hprefix, List.drop_left]
    have hemit : ∀ {s₁ s₁' : Lexer}, Twin s₁ s₁' → s₁.rest = s.rest →
        Twin (s₁.emit kind text ((c :: cs).drop text.length))
          (s₁'.emit kind text ((c :: crlf cs).drop text.length)) := by
      intro s₁ s₁' h₁ hsame
      have hemit := h₁.emit kind (hsame.trans hcut)
      rwa [hself, ← drop_crlf htext hfits, crlf_cons hc] at hemit
    -- whether a bracket is opened, closed or neither, the same is emitted
    dsimp only
    rw [h.depth]
    split
    · exact hemit (h.withDepth _) rfl
    · split
      · split
        · exact hemit (h.report _ _ _) rfl
        · exact hemit (h.withDepth _) rfl
      · exact hemit h rfl

end Twin

/-! ### Steps -/

/-- The steps inside a line. -/
theorem twin_token (h : Twin s s') : Option.Rel Twin s.token s'.token := by
  have hskip := h.skip (span_append_self isGap s.rest).symm
  unfold token
  dsimp only
  rw [h.rest, cutsAlike_isGap s.rest h.plain]
  generalize s.skip (s.rest.span isGap).1 (s.rest.span isGap).2 = s₁ at hskip ⊢
  generalize s'.skip (crlf (s.rest.span isGap).1) (crlf (s.rest.span isGap).2) = s₁' at hskip ⊢
  have hrest' := hskip.rest
  cases hrest : s₁.rest with
  | nil =>
    rw [hrest] at hrest'
    rw [hrest']
    exact .none
  | cons c cs =>
    have hplain : '\r' ∉ c :: cs := hrest ▸ hskip.plain
    have hcs := List.not_mem_of_not_mem_cons hplain
    rw [hrest] at hrest'
    by_cases hc : c = '\n'
    -- the end of a line
    · subst hc
      have hcut := hrest.trans (spanLineBreak_append ('\n' :: cs)).symm
      have hbreak := cutsAlike_spanLineBreak _ hplain
      rw [crlf_newline] at hrest' hbreak
      rw [hrest']
      dsimp only
      rw [if_pos (show isLineBreak '\n' = true from rfl),
        if_pos (show isLineBreak '\r' = true from rfl), hbreak, hskip.depth]
      split
      · exact .some ((hskip.emit .newline hcut).withLineStart true)
      · exact .some (hskip.skip hcut)
    · rw [crlf_cons hc] at hrest'
      rw [hrest']
      dsimp only
      split
      -- `\r` would be the only other line end
      · rename_i hbreak
        have hr : c = '\r' := by simpa [isLineBreak, hc] using hbreak
        exact absurd List.mem_cons_self (hr ▸ hplain)
      · split
        -- a comment
        · have hcut := hrest.trans (spanLine_append (c :: cs)).symm
          have hline := cutsAlike_spanLine _ hplain
          rw [crlf_cons hc] at hline
          rw [hline, hskip.depth]
          split
          · exact .some hskip.comment
          · exact .some (hskip.skip hcut)
        · split
          -- a backslash
          · have hcut : s₁.rest = (c :: (spanLineBreak cs).1) ++ (spanLineBreak cs).2 := by
              rw [hrest, List.cons_append, spanLineBreak_append]
            rw [cutsAlike_spanLineBreak cs hcs, isEmpty_crlf, ← crlf_cons hc]
            split
            · exact .some ((hskip.report _ _ _).skip hcut)
            · exact .some (hskip.skip hcut)
          · split
            -- a string literal
            · rename_i hquote
              refine .some (hskip.stringLiteral (hrest.trans (List.nil_append _).symm) ?_ rfl)
              have hquote : c = '"' ∨ c = '\'' := by simpa using hquote
              rcases hquote with rfl | rfl <;> rfl
            -- a number, a word, an operator
            · rw [any_head?_crlf rfl]
              split
              · exact .some (hskip.number hrest hc)
              · split
                · exact .some hskip.word
                · exact .some (hskip.punctuation hrest hc)

/-- Twins close the same blocks. -/
theorem twin_closeBlocks (column : Nat) (indents : List Nat) (h : Twin s s') :
    Twin (closeBlocks column indents s) (closeBlocks column indents s') := by
  induction indents generalizing s s' with
  | nil => exact h.withIndents rfl
  | cons c cs ih =>
    rw [closeBlocks, closeBlocks]
    split
    · exact ih (h.mark .dedent)
    · exact h.withIndents rfl

/-- They go to the same column. -/
theorem twin_indentTo (column : Nat) (h : Twin s s') :
    Twin (s.indentTo column) (s'.indentTo column) := by
  unfold indentTo
  dsimp only
  rw [h.indents]
  split
  · exact (h.mark .indent).withIndents rfl
  · split
    · have hclose := twin_closeBlocks column s.indents h
      rw [hclose.indents]
      split
      · exact hclose
      · have hreport := hclose.report .unindentMismatch [] []
        exact hreport.withIndents (by rw [hreport.indents])
    · exact h

/-- The steps at the beginning of a line. -/
theorem twin_lineStart (h : Twin s s') : Option.Rel Twin s.lineStart s'.lineStart := by
  have hskip := h.skip (spanIndent_spec 0 s.rest).1.symm
  unfold lineStart
  dsimp only
  rw [h.rest, spanIndent_crlf 0 h.plain]
  generalize (spanIndent 0 s.rest).1 = column
  generalize s.skip (spanIndent 0 s.rest).2.1 (spanIndent 0 s.rest).2.2 = s₁ at hskip ⊢
  generalize s'.skip (crlf (spanIndent 0 s.rest).2.1) (crlf (spanIndent 0 s.rest).2.2) = s₁' at hskip ⊢
  have hrest' := hskip.rest
  cases hrest : s₁.rest with
  | nil =>
    rw [hrest] at hrest'
    rw [hrest']
    exact .none
  | cons c cs =>
    have hplain : '\r' ∉ c :: cs := hrest ▸ hskip.plain
    rw [hrest] at hrest'
    by_cases hc : c = '\n'
    · subst hc
      rw [crlf_newline] at hrest'
      rw [hrest']
      exact .some hskip.blankLine
    · rw [crlf_cons hc] at hrest'
      rw [hrest']
      dsimp only
      split
      · exact .some hskip.blankLine
      · split
        · exact .some hskip.comment.blankLine
        · rw [cutsAlike_spanLineBreak cs (List.not_mem_of_not_mem_cons hplain), isEmpty_crlf]
          split
          -- a backslash joins the next line to this one
          · have hcut : s₁.rest = (c :: (spanLineBreak cs).1) ++ (spanLineBreak cs).2 := by
              rw [hrest, List.cons_append, spanLineBreak_append]
            rw [← crlf_cons hc]
            exact .some (hskip.skip hcut)
          -- a statement begins
          · have hinside := hskip.withLineStart false
            rw [hrest, hrest'] at hinside
            exact .some (twin_indentTo column hinside)

/-- **Each step of the walk** over one text is a step of the walk over the other. -/
theorem twin_step (h : Twin s s') : Option.Rel Twin s.step s'.step := by
  unfold step
  rw [h.atLineStart, h.depth]
  split
  · exact twin_lineStart h
  · exact twin_token h

/-! ### The walk -/

/-- Two walks with enough steps for their texts, which are not equally long. -/
theorem twin_run {n n' : Nat} (h : Twin s s') (hn : s.measure < n) (hn' : s'.measure < n') :
    Twin (run n s) (run n' s') := by
  induction n generalizing n' s s' with
  | zero => omega
  | succ n ih =>
    obtain _ | n' := n'
    · omega
    rw [run, run]
    cases hstep : s.step with
    | none =>
      cases hstep' : s'.step with
      | none => exact h
      | some t' =>
        have hrel := twin_step h
        rw [hstep, hstep'] at hrel
        cases hrel
    | some t =>
      have hrel := twin_step h
      rw [hstep] at hrel
      cases hstep' : s'.step with
      | none =>
        rw [hstep'] at hrel
        cases hrel
      | some t' =>
        rw [hstep'] at hrel
        obtain ⟨htwin⟩ := hrel
        have hless := (moves_step hstep).less
        have hless' := (moves_step hstep').less
        exact ih htwin (by omega) (by omega)

/-- Twins end the last line alike. -/
theorem twin_endLine (h : Twin s s') : Twin s.endLine s'.endLine := by
  have htokens := h.tokens
  unfold endLine
  cases hs : s.tokens with
  | nil =>
    rw [hs] at htokens
    rw [List.forall₂_nil_left_iff.mp htokens]
    exact h
  | cons last others =>
    rw [hs] at htokens
    obtain ⟨last', others', ⟨hkind, -⟩, -, hs'⟩ := List.forall₂_cons_left_iff.mp htokens
    rw [hs']
    dsimp only
    rw [hkind]
    split
    · exact h
    · exact h.mark .newline

/-- They close the last blocks alike. -/
theorem twin_endBlocks (h : Twin s s') : Twin s.endBlocks s'.endBlocks := by
  have hmarks : ∀ (columns : List Nat) {s s' : Lexer}, Twin s s' →
      Twin (columns.foldl (fun s _ => s.mark .dedent) s)
        (columns.foldl (fun s _ => s.mark .dedent) s') := by
    intro columns
    induction columns with
    | nil => exact id
    | cons c cs ih => exact fun h => ih (h.mark .dedent)
  unfold endBlocks
  rw [h.indents]
  exact (hmarks _ h).withIndents rfl

/-- They end the text alike. -/
theorem twin_finish (h : Twin s s') (stop stop' : Nat) : Twin (s.finish stop) (s'.finish stop') := by
  have hend : Twin { s with rest := [], offset := stop } { s' with rest := [], offset := stop' } :=
    { h with rest := rfl, plain := List.not_mem_nil }
  have hreport : Twin
      (if 0 < s.depth then Lexer.report { s with rest := [], offset := stop } .openBracketAtEnd []
        else { s with rest := [], offset := stop })
      (if 0 < s'.depth then Lexer.report { s' with rest := [], offset := stop' } .openBracketAtEnd []
        else { s' with rest := [], offset := stop' }) := by
    by_cases hdepth : 0 < s.depth
    · rw [if_pos hdepth, if_pos (by rwa [h.depth])]
      exact hend.report _ _ _
    · rw [if_neg hdepth, if_neg (by rwa [h.depth])]
      exact hend
  exact (twin_endBlocks (twin_endLine hreport)).mark .eof

/-- They begin as twins. -/
theorem twin_start {cs : List Char} (hcs : '\r' ∉ cs) : Twin (start cs) (start (crlf cs)) := by
  have hplain : Twin { rest := cs } { rest := crlf cs } :=
    ⟨rfl, hcs, rfl, rfl, rfl, .nil, rfl⟩
  unfold start
  rcases cs with _ | ⟨c, cs⟩
  · exact hplain
  by_cases hc : c = '\n'
  · subst hc
    exact hplain
  · rw [crlf_cons hc] at hplain ⊢
    dsimp only
    split
    · have hcut : c :: cs = [c] ++ cs := rfl
      have hskip := hplain.skip hcut
      rwa [crlf_cons hc, crlf_nil] at hskip
    · exact hplain

end Lexer

/-! ### The tokens of a text -/

/-- **Line ends do not matter to the tokens.**  A text without `\r` and the same text with `\r\n` in
    the place of every `\n` have tokens of the same kinds, with texts that differ in nothing else,
    and the same messages. -/
theorem tokenize_withReturns (source : String) (h : '\r' ∉ source.toList) :
    List.Forall₂ (fun t t' => t'.kind = t.kind ∧ t'.text = withReturns t.text)
        (tokenize source).1 (tokenize (withReturns source)).1 ∧
      (tokenize (withReturns source)).2.map SyntaxIssue.message =
        (tokenize source).2.map SyntaxIssue.message := by
  have hwalked : Lexer.Twin (Lexer.walked source.toList) (Lexer.walked (crlf source.toList)) :=
    Lexer.twin_run (Lexer.twin_start h) (Lexer.laid_start _).2 (Lexer.laid_start _).2
  have hend := Lexer.twin_finish hwalked (Text.byteLength source.toList)
    (Text.byteLength (crlf source.toList))
  rw [tokenize_eq, tokenize_eq, withReturns, String.toList_ofList]
  refine ⟨List.rel_reverse hend.tokens, ?_⟩
  have hmessages := congrArg (List.map SyntaxError.message) hend.issues
  rw [List.map_map, List.map_map] at hmessages
  rw [List.map_reverse, List.map_reverse]
  exact congrArg List.reverse hmessages

/-- Line ends in a block, behind backslashes, in brackets and in string literals, one of which they
    leave open. -/
def brokenLines : String :=
  "if a:  # b\n\n\tx = \"\"\"p\\\nq\n\"\"\" + \\\n (1, # c\n 2\n)\ny = 'z\n"

/-- Line breaks behind backslashes and in strings make no difference either. -/
theorem tokenize_withReturns_brokenLines :
    '\r' ∉ brokenLines.toList ∧
      List.Forall₂ (fun t t' => t'.kind = t.kind ∧ t'.text = withReturns t.text)
        (tokenize brokenLines).1 (tokenize (withReturns brokenLines)).1 ∧
      (tokenize (withReturns brokenLines)).2.map SyntaxIssue.message =
        (tokenize brokenLines).2.map SyntaxIssue.message := by
  have hplain : '\r' ∉ brokenLines.toList := by decide
  exact ⟨hplain, tokenize_withReturns brokenLines hplain⟩

end PackageDoc
