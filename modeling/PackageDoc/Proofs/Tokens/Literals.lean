import PackageDoc.Proofs.Annotation.Lockstep
import PackageDoc.Proofs.Tokens.Balance

namespace PackageDoc

/-!
# String literals in a text

A string literal is cut out of a text where its closing quote is found, and later decoded from its
characters alone.

* `Literal` — a literal with the place where its body ends, and `Literal.Cut`, how it is found;
* `Lexer.step_cases` — a step of the walk reads a literal, or it passes over what is none;
* `Lexer.Traced` — where the literals among the tokens read so far were found;
* `literalContent_eq_iff` — decoding goes by the body that was found, unless a literal without a
  closing quote ends in the characters of one.
-/

/-! ### Literals -/

/-- A string literal. -/
structure Literal where
  /-- The letters in front of the opening quote. -/
  lead : List Char
  quotes : Quotes
  body : List Char
  /-- Does a closing quote follow the body? -/
  closed : Bool

namespace Literal

/-- What stands behind the opening quote. -/
def inside (l : Literal) : List Char :=
  l.body ++ if l.closed then l.quotes.text else []

/-- The characters of the literal. -/
def text (l : Literal) : List Char :=
  l.lead ++ (l.quotes.text ++ l.inside)

/-- In front of `behind`, the search for the closing quote cuts the literal so. -/
structure Cut (l : Literal) (behind : List Char) : Prop where
  lead : l.lead = [] ∨ isStringLead l.lead = true
  opening : [l.quotes.mark, l.quotes.mark].isPrefixOf (l.quotes.others ++ (l.inside ++ behind)) =
    l.quotes.tripled
  search : spanString l.quotes.mark l.quotes.tripled (l.inside ++ behind) =
    ⟨l.inside, behind, l.closed⟩

/-- The token is the literal where it stands in the text. -/
def StandsAt (l : Literal) (source : List Char) (t : Token) : Prop :=
  ∃ before behind, source = before ++ (l.text ++ behind) ∧ l.Cut behind ∧
    t.span = ⟨Text.byteLength before, Text.byteLength before + Text.byteLength l.text⟩ ∧
      t.text = String.ofList l.text

end Literal

/-- A closing quote that is found is a part of what is read. -/
theorem Quotes.spanString_closing (q : Quotes) {cs text rest : List Char}
    (h : spanString q.mark q.tripled cs = ⟨text, rest, true⟩) : ∃ body, text = body ++ q.text := by
  have hafter : ∀ {more : List Char} (front : List Char),
      (∃ body, more = body ++ q.text) → ∃ body, front ++ more = body ++ q.text := by
    rintro more front ⟨body, rfl⟩
    exact ⟨front ++ body, (List.append_assoc _ _ _).symm⟩
  generalize hquote : q.mark = quote at h
  generalize htriple : q.tripled = triple at h
  fun_induction spanString quote triple cs generalizing text with
  | case1 | case2 | case5 => cases h
  -- the closing quote itself, alone or tripled
  | case6 cs hplain =>
    cases h
    exact ⟨[], by simp_all [Quotes.text_eq]⟩
  | case7 htriple' c₁ c₂ cs hquotes =>
    cases h
    exact ⟨[], by simp_all [Quotes.text_eq]⟩
  -- one character or an escape in front of it
  | case3 _ ih | case4 _ _ _ ih | case8 _ _ _ _ _ _ _ _ _ ih | case9 _ _ _ _ _ _ _ ih
  | case10 _ _ _ _ _ _ _ ih =>
    obtain ⟨more, rfl, hmore⟩ := StringBody.after_eq_iff.mp h
    exact hafter _ (ih hmore)

namespace Literal

variable {l : Literal} {behind : List Char}

/-- A literal that is cut out is tripled exactly when it shows three quotes. -/
theorem Cut.isPrefixOf_inside (h : l.Cut behind) :
    [l.quotes.mark, l.quotes.mark].isPrefixOf (l.quotes.others ++ l.inside) = l.quotes.tripled := by
  cases htripled : l.quotes.tripled with
  | true => simp [Quotes.others, htripled]
  | false =>
    have hopening := h.opening
    rw [htripled, Bool.eq_false_iff, ← List.append_assoc] at hopening
    refine Bool.eq_false_iff.mpr fun hbegin => hopening ?_
    have hprefix := (List.isPrefixOf_iff_prefix.mp hbegin).trans (List.prefix_append _ behind)
    exact List.isPrefixOf_iff_prefix.mpr hprefix

/-- Decoding cuts what stands behind the opening quote at the end, if that is in its characters. -/
theorem Cut.literalBody_eq (h : l.Cut behind) :
    literalBody (l.quotes.text ++ l.inside) =
      (Text.stripEnd? l.quotes.text l.inside).getD l.inside := by
  have hcons : l.quotes.text ++ l.inside = l.quotes.mark :: (l.quotes.others ++ l.inside) := rfl
  rw [hcons, literalBody]
  simp only [h.isPrefixOf_inside]
  rw [← Quotes.text_eq, ← hcons, List.drop_left]

/-- **Decoding goes by the body of a literal**, unless the literal is not closed and its body ends in
    the characters of a closing quote. -/
theorem Cut.literalBody_eq_body_iff (h : l.Cut behind) :
    literalBody (l.quotes.text ++ l.inside) = l.body ↔
      (l.closed = false → ¬l.quotes.text <:+ l.body) := by
  rw [h.literalBody_eq]
  cases hclosed : l.closed with
  | true => simp [inside, hclosed, stripEnd?_append]
  | false =>
    have hinside : l.inside = l.body := by simp [inside, hclosed]
    rw [hinside]
    cases hstrip : Text.stripEnd? l.quotes.text l.body with
    | none =>
      refine iff_of_true rfl fun _ ⟨body, hbody⟩ => ?_
      rw [stripEnd?_eq_some.mpr hbody.symm] at hstrip
      cases hstrip
    | some body =>
      have hbody := stripEnd?_eq_some.mp hstrip
      refine iff_of_false (fun heq => ?_) fun hno => hno rfl ⟨body, hbody.symm⟩
      -- the characters of the quote would be missing
      have hlength := congrArg List.length (hbody.symm.trans heq.symm)
      simp [Quotes.text] at hlength

end Literal

/-- The prefix of a string has no quotes. -/
theorem isQuote_eq_false_of_isStringLead {lead : List Char}
    (h : lead = [] ∨ isStringLead lead = true) : ∀ c ∈ lead, isQuote c = false := by
  rcases h with rfl | h
  · simp
  · intro c hc
    by_contra hquote
    rw [Bool.not_eq_false] at hquote
    -- quotes have no case, so a quote would still be there in lower case
    have hlower : c.toLower = c := by
      have hmark : c = '\'' ∨ c = '"' := by simpa [isQuote] using hquote
      rcases hmark with rfl | rfl <;> rfl
    have hword : c ∈ (String.ofList (lead.map Char.toLower)).toList := by
      rw [String.toList_ofList]
      exact List.mem_map.mpr ⟨c, hc, hlower⟩
    have hwords : (["r", "b", "f", "u", "rb", "br", "fr", "rf"].all fun w =>
        w.toList.all fun c => !isQuote c) = true := by decide
    have hno := List.all_eq_true.mp
      (List.all_eq_true.mp hwords _ (List.contains_iff_mem.mp h)) c hword
    rw [hquote] at hno
    cases hno

/-- Decoding looks for the opening quote behind the letters. -/
theorem Literal.Cut.literalContent_text {l : Literal} {behind : List Char} (h : l.Cut behind) :
    literalContent (String.ofList l.text) = literalBody (l.quotes.text ++ l.inside) := by
  have hlead := isQuote_eq_false_of_isStringLead h.lead
  have hquote : isQuote l.quotes.mark = true := l.quotes.isMark
  rw [literalContent, String.toList_ofList, List.span_eq_takeWhile_dropWhile, Literal.text,
    List.dropWhile_append_of_pos (by simpa using hlead), Quotes.text, List.cons_append,
    List.dropWhile_cons_of_neg (by simp [hquote])]

/-! ### The walk -/

namespace Lexer

variable {s s' s'' : Lexer} {text rest : List Char} {kind : TokenKind}

/-- A literal at `span` is reported as not closed. -/
def Unclosed (issues : List SyntaxIssue) (span : Span) : Prop :=
  ∃ i ∈ issues, i.span = span ∧
    (i.error = .unterminatedString ∨ i.error = .unterminatedTripleString)

/-- From `s` to `s'` characters are passed over, and no literal is read or reported. -/
structure PassesOver (s s' : Lexer) : Prop where
  rest : ∃ piece, s.rest = piece ++ s'.rest ∧ s'.offset = s.offset + Text.byteLength piece
  literals : ∀ t ∈ s'.tokens, t.kind = .string → t ∈ s.tokens
  issues : ∀ span, Unclosed s'.issues span ↔ Unclosed s.issues span

/-- Other errors say nothing about literals that are not closed. -/
theorem unclosed_report {error : SyntaxError} (h : error ≠ .unterminatedString)
    (h' : error ≠ .unterminatedTripleString) (s : Lexer) (text : List Char) (span : Span) :
    Unclosed (s.report error text).issues span ↔ Unclosed s.issues span := by
  simp [Unclosed, Lexer.report, h, h']

namespace PassesOver

theorem trans (h : PassesOver s s') (h' : PassesOver s' s'') : PassesOver s s'' := by
  obtain ⟨piece, hrest, hoffset⟩ := h.rest
  obtain ⟨piece', hrest', hoffset'⟩ := h'.rest
  refine ⟨⟨piece ++ piece', ?_, ?_⟩, fun t ht hkind => ?_, fun span => ?_⟩
  · rw [hrest, hrest', List.append_assoc]
  · rw [hoffset', hoffset, Text.byteLength_append, Nat.add_assoc]
  · exact h.literals t (h'.literals t ht hkind) hkind
  · exact (h'.issues span).trans (h.issues span)

/-- Nothing is read. -/
theorem same (hrest : s'.rest = s.rest) (hoffset : s'.offset = s.offset)
    (htokens : s'.tokens = s.tokens) (hissues : s'.issues = s.issues) : PassesOver s s' :=
  ⟨⟨[], hrest.symm, hoffset⟩, fun t ht _ => htokens ▸ ht, fun span => by rw [hissues]⟩

/-- Skipping characters reads no literal. -/
theorem skip (hrest : s.rest = text ++ rest) : PassesOver s (s.skip text rest) :=
  ⟨⟨text, hrest, rfl⟩, fun _ ht _ => ht, fun _ => Iff.rfl⟩

/-- Nor does making a token of another kind. -/
theorem emit (hkind : kind ≠ .string) (hrest : s.rest = text ++ rest) :
    PassesOver s (s.emit kind text rest) := by
  refine ⟨⟨text, hrest, rfl⟩, fun t ht hstring => ?_, fun _ => Iff.rfl⟩
  rcases List.mem_cons.mp ht with rfl | ht
  · exact absurd hstring hkind
  · exact ht

/-- Nor does making a mark of one. -/
theorem mark (hkind : kind ≠ .string) (s : Lexer) : PassesOver s (s.mark kind) :=
  emit hkind rfl

/-- Nor does reporting an error about something else. -/
theorem report {error : SyntaxError} (h : error ≠ .unterminatedString)
    (h' : error ≠ .unterminatedTripleString) (s : Lexer) (text : List Char) :
    PassesOver s (s.report error text) :=
  ⟨⟨[], rfl, rfl⟩, fun _ ht _ => ht, unclosed_report h h' s text⟩

/-- Nor does opening and closing blocks. -/
theorem marksBlocks (h : MarksBlocks s s') : PassesOver s s' := by
  induction h with
  | refl => exact same rfl rfl rfl rfl
  | @mark s' kind hkind _ ih =>
    refine ih.trans (mark ?_ s')
    rcases hkind with rfl | rfl <;> exact TokenKind.noConfusion
  | columns _ _ ih => exact ih.trans (same rfl rfl rfl rfl)
  | @mismatch s' _ ih =>
    exact ih.trans (report SyntaxError.noConfusion SyntaxError.noConfusion s' [])

/-- Nor does the start of a line. -/
theorem lineStart (h : s.lineStart = some s') : PassesOver s s' := by
  obtain ⟨blanks, c, cs, hcut, -, -, hstep⟩ := exists_lineStep h
  have hblanks : PassesOver s (s.skip blanks (c :: cs)) := skip hcut
  have hblankLine : ∀ s : Lexer, PassesOver s s.blankLine := fun s =>
    emit TokenKind.noConfusion (spanLineBreak_append s.rest).symm
  refine hblanks.trans ?_
  cases hstep with
  | blank => exact hblankLine _
  | comment => exact (emit TokenKind.noConfusion (spanLine_append _).symm).trans (hblankLine _)
  | joined => exact skip (congrArg (c :: ·) (spanLineBreak_append cs).symm)
  | first =>
    have hinside : PassesOver (s.skip blanks (c :: cs))
        { s.skip blanks (c :: cs) with atLineStart := false } := same rfl rfl rfl rfl
    exact hinside.trans (marksBlocks (marksBlocks_indentTo _ _))

/-- Nor does a punctuation mark. -/
theorem punctuation {c : Char} {cs : List Char} (h : PunctuationStep s c cs s')
    (hrest : s.rest = c :: cs) : PassesOver s s' := by
  have hemit {text rest : List Char} {kind : TokenKind} (h : BeginsWith (c :: cs) text kind rest)
      (depth : Nat) : PassesOver s (({ s with depth := depth } : Lexer).emit kind text rest) := by
    have hsame : PassesOver s { s with depth := depth } := same rfl rfl rfl rfl
    exact hsame.trans (emit h.spec.2.2 (hrest.trans h.cut))
  cases h with
  | invalid =>
    have hreport : PassesOver s (s.report (.invalidCharacter c) [c]) :=
      report SyntaxError.noConfusion SyntaxError.noConfusion s [c]
    exact hreport.trans (emit TokenKind.noConfusion hrest)
  | opens h | closes h => exact hemit h _
  | plain h => exact hemit h s.depth
  | @stray text _ _ h =>
    have hreport : PassesOver s (s.report .unmatchedBracket text) :=
      report SyntaxError.noConfusion SyntaxError.noConfusion s text
    exact hreport.trans (emit h.spec.2.2 (hrest.trans h.cut))

end PassesOver

/-- Behind what is passed over, a literal is read. -/
def ReadsLiteral (s s' : Lexer) : Prop :=
  ∃ s₀ lead quote cs, PassesOver s s₀ ∧ s₀.rest = lead ++ quote :: cs ∧
    (lead = [] ∨ isStringLead lead = true) ∧ isQuote quote = true ∧
      s' = s₀.stringLiteral lead quote cs

/-- A word is passed over, or a literal begins with it. -/
theorem WordStep.passes_or_reads (h : WordStep s s') : PassesOver s s' ∨ ReadsLiteral s s' := by
  cases h with
  | @literal text cs quote hspan hquote hlead =>
    have hmark : isQuote quote = true := by rcases hquote with rfl | rfl <;> rfl
    exact .inr ⟨s, text, quote, cs, .same rfl rfl rfl rfl, append_of_span hspan, .inr hlead, hmark,
      rfl⟩
  | @letters text rest hspan =>
    exact .inl (.emit (wordKind_spec text).2.2.2 (append_of_span hspan))

/-- So is any part of a line. -/
theorem ReadsPart.passes_or_reads {c : Char} {cs : List Char} (h : ReadsPart s c cs s')
    (hrest : s.rest = c :: cs) : PassesOver s s' ∨ ReadsLiteral s s' := by
  cases h with
  | string hquote =>
    have hmark : isQuote c = true := by rcases hquote with rfl | rfl <;> rfl
    exact .inr ⟨s, [], c, cs, .same rfl rfl rfl rfl, hrest, .inl rfl, hmark, rfl⟩
  | number =>
    refine .inl (.emit TokenKind.noConfusion ?_)
    rw [hrest]
    exact congrArg (c :: ·) (spanNumber_append _ _ _).symm
  | word => exact (wordStep s).passes_or_reads
  | punctuation => exact .inl (.punctuation (punctuationStep s c cs) hrest)

/-- So is every token. -/
theorem token_cases (h : s.token = some s') : PassesOver s s' ∨ ReadsLiteral s s' := by
  obtain ⟨gap, c, cs, hrest, -, -, hstep⟩ := exists_tokenStep h
  have hgap : PassesOver s (s.skip gap (c :: cs)) := .skip hrest
  have hline := (spanLineBreak_append (c :: cs)).symm
  have hcomment := (spanLine_append (c :: cs)).symm
  cases hstep with
  | newline =>
    have hemit : PassesOver (s.skip gap (c :: cs)) ((s.skip gap (c :: cs)).emit .newline
        (spanLineBreak (c :: cs)).1 (spanLineBreak (c :: cs)).2) := .emit TokenKind.noConfusion hline
    exact .inl (hgap.trans (hemit.trans (.same rfl rfl rfl rfl)))
  | bracketedLineEnd => exact .inl (hgap.trans (.skip hline))
  | comment => exact .inl (hgap.trans (.emit TokenKind.noConfusion hcomment))
  | bracketedComment => exact .inl (hgap.trans (.skip hcomment))
  | backslash =>
    have hcut : c :: cs = c :: (spanLineBreak cs).1 ++ (spanLineBreak cs).2 :=
      congrArg (c :: ·) (spanLineBreak_append cs).symm
    refine .inl (hgap.trans ?_)
    split
    · have hreport : PassesOver (s.skip gap (c :: cs))
          ((s.skip gap (c :: cs)).report .strayBackslash [c]) :=
        .report SyntaxError.noConfusion SyntaxError.noConfusion _ _
      exact hreport.trans (.skip hcut)
    · exact .skip hcut
  | part hpart =>
    rcases hpart.passes_or_reads rfl with hpasses | ⟨s₀, lead, quote, cs, hpasses, hliteral⟩
    · exact .inl (hgap.trans hpasses)
    · exact .inr ⟨s₀, lead, quote, cs, hgap.trans hpasses, hliteral⟩

/-- **A step reads a literal, or it passes over what is none.** -/
theorem step_cases (h : s.step = some s') : PassesOver s s' ∨ ReadsLiteral s s' := by
  unfold step at h
  split at h
  · exact .inl (.lineStart h)
  · exact token_cases h

/-! ### Where the literals are found -/

/-- Without a closing quote, a literal is reported before it is read. -/
def readLiteral (s : Lexer) (l : Literal) (behind : List Char) : Lexer :=
  let s :=
    if l.closed then s
    else if l.quotes.tripled then s.report .unterminatedTripleString l.text
    else s.report .unterminatedString l.text
  s.emit .string l.text behind

/-- What is read behind an opening quote is a literal with the body that the search cuts. -/
theorem stringLiteral_eq {lead cs : List Char} {quote : Char} (hrest : s.rest = lead ++ quote :: cs)
    (hlead : lead = [] ∨ isStringLead lead = true) (hquote : isQuote quote = true) :
    ∃ l behind, Literal.Cut l behind ∧ s.rest = l.text ++ behind ∧
      s.stringLiteral lead quote cs = s.readLiteral l behind := by
  obtain ⟨q, hmark, htriple⟩ : ∃ q : Quotes, q.mark = quote ∧
      [quote, quote].isPrefixOf cs = q.tripled := ⟨⟨quote, _, hquote⟩, rfl, rfl⟩
  obtain ⟨inner, hinner, hcs⟩ : ∃ inner,
      (if q.tripled = true then cs.drop 2 else cs) = inner ∧ cs = q.others ++ inner := by
    refine ⟨_, rfl, ?_⟩
    cases htripled : q.tripled with
    | false => simp [Quotes.others, htripled]
    | true =>
      obtain ⟨more, rfl⟩ := List.isPrefixOf_iff_prefix.mp (htriple.trans htripled)
      simp [Quotes.others, htripled, hmark]
  obtain ⟨text, behind, closed, hsearch⟩ : ∃ text behind closed,
      spanString quote q.tripled inner = ⟨text, behind, closed⟩ := ⟨_, _, _, rfl⟩
  have happend : text ++ behind = inner := by
    have happend := spanString_append quote q.tripled inner
    rwa [hsearch] at happend
  -- a closing quote that is found is no part of the body
  obtain ⟨l, rfl, rfl, rfl, rfl⟩ : ∃ l : Literal, l.lead = lead ∧ l.quotes = q ∧
      l.inside = text ∧ l.closed = closed := by
    cases closed with
    | false => exact ⟨⟨lead, q, text, false⟩, rfl, rfl, List.append_nil text, rfl⟩
    | true =>
      obtain ⟨body, rfl⟩ := q.spanString_closing (hmark ▸ hsearch)
      exact ⟨⟨lead, q, body, true⟩, rfl, rfl, rfl, rfl⟩
  refine ⟨l, behind, ⟨hlead, ?_, ?_⟩, ?_, ?_⟩
  · rw [happend, ← hcs, hmark, htriple]
  · rw [happend, hmark, hsearch]
  · rw [hrest, hcs, ← happend, ← hmark]
    simp [Literal.text, Quotes.text]
  · unfold stringLiteral readLiteral
    dsimp only
    rw [htriple, hinner, hsearch, ← hmark, ← Quotes.text_eq, List.append_assoc]
    rfl

/-- Every literal read so far was found in the text, and it is reported if it is not closed. -/
structure Traced (source : List Char) (s : Lexer) : Prop where
  place : ∃ done, source = done ++ s.rest ∧ s.offset = Text.byteLength done
  found : ∀ t ∈ s.tokens, t.kind = .string → t.span.start < s.offset ∧
    ∃ l : Literal, l.StandsAt source t ∧ (Unclosed s.issues t.span ↔ l.closed = false)
  reported : ∀ span, Unclosed s.issues span → span.start < s.offset

variable {source : List Char}

/-- What passes over literals leaves those before it where they were found. -/
theorem Traced.passesOver (h : s.Traced source) (hpasses : PassesOver s s') : s'.Traced source := by
  obtain ⟨done, hsource, hdone⟩ := h.place
  obtain ⟨piece, hrest, hoffset⟩ := hpasses.rest
  refine ⟨⟨done ++ piece, ?_, ?_⟩, fun t ht hkind => ?_, fun span hspan => ?_⟩
  · rw [hsource, hrest, List.append_assoc]
  · rw [hoffset, hdone, Text.byteLength_append]
  · obtain ⟨hbefore, l, hstands, hreported⟩ := h.found t (hpasses.literals t ht hkind) hkind
    exact ⟨by omega, l, hstands, (hpasses.issues _).trans hreported⟩
  · have hbefore := h.reported span ((hpasses.issues span).mp hspan)
    omega

/-- A literal is read as one token. -/
theorem tokens_readLiteral (s : Lexer) (l : Literal) (behind : List Char) :
    (s.readLiteral l behind).tokens = ⟨.string,
      ⟨s.offset, s.offset + Text.byteLength l.text⟩, String.ofList l.text⟩ :: s.tokens := by
  unfold Lexer.readLiteral
  dsimp only
  split
  · rfl
  · split <;> rfl

/-- The lexer stands behind it. -/
theorem offset_readLiteral (s : Lexer) (l : Literal) (behind : List Char) :
    (s.readLiteral l behind).offset = s.offset + Text.byteLength l.text := by
  unfold Lexer.readLiteral
  dsimp only
  split
  · rfl
  · split <;> rfl

/-- It is reported exactly if it is not closed. -/
theorem unclosed_readLiteral (s : Lexer) (l : Literal) (behind : List Char) (span : Span) :
    Unclosed (s.readLiteral l behind).issues span ↔ Unclosed s.issues span ∨
      l.closed = false ∧ span = ⟨s.offset, s.offset + Text.byteLength l.text⟩ := by
  unfold Lexer.readLiteral
  dsimp only
  cases l.closed with
  | true => simp [Lexer.emit, skip]
  | false =>
    rw [if_neg Bool.false_ne_true]
    split <;> simp [Lexer.emit, skip, Lexer.report, Unclosed, or_comm, eq_comm]

/-- A literal that is read is found where it stands. -/
theorem Traced.readLiteral (h : s.Traced source) {l : Literal} {behind : List Char}
    (hcut : l.Cut behind) (hrest : s.rest = l.text ++ behind) :
    (s.readLiteral l behind).Traced source := by
  obtain ⟨done, hsource, hdone⟩ := h.place
  have hpos : 0 < Text.byteLength l.text := by
    refine Text.byteLength_pos ?_
    simp [Literal.text, Quotes.text]
  have hoffset := offset_readLiteral s l behind
  refine ⟨⟨done ++ l.text, ?_, ?_⟩, fun t ht hkind => ?_, fun span hspan => ?_⟩
  · have hbehind : (s.readLiteral l behind).rest = behind := rfl
    rw [hsource, hrest, hbehind, List.append_assoc]
  · rw [hoffset, hdone, Text.byteLength_append]
  · rw [tokens_readLiteral] at ht
    rw [hoffset]
    rcases List.mem_cons.mp ht with rfl | ht
    · -- no report was made before about what begins here
      refine ⟨Nat.lt_add_of_pos_right hpos, l, ⟨done, behind, ?_, hcut, ?_, rfl⟩, ?_⟩
      · rw [hsource, hrest]
      · rw [hdone]
      · rw [unclosed_readLiteral]
        refine ⟨?_, fun hopen => .inr ⟨hopen, rfl⟩⟩
        rintro (hspan | ⟨hopen, -⟩)
        · exact absurd (h.reported _ hspan) (Nat.lt_irrefl _)
        · exact hopen
    · obtain ⟨hbefore, l', hstands, hreported⟩ := h.found t ht hkind
      refine ⟨by omega, l', hstands, ?_⟩
      rw [unclosed_readLiteral, or_iff_left, hreported]
      rintro ⟨-, hspan⟩
      rw [hspan] at hbefore
      exact Nat.lt_irrefl _ hbefore
  · rw [hoffset]
    rcases (unclosed_readLiteral s l behind span).mp hspan with hspan | ⟨-, rfl⟩
    · have hbefore := h.reported span hspan
      omega
    · exact Nat.lt_add_of_pos_right hpos

/-- **Each step of the walk** finds the literal that it reads. -/
theorem Traced.step (h : s.Traced source) (hstep : s.step = some s') : s'.Traced source := by
  obtain hpasses | ⟨s₀, lead, quote, cs, hpasses, hrest, hlead, hquote, rfl⟩ := step_cases hstep
  · exact h.passesOver hpasses
  · obtain ⟨l, behind, hcut, htext, heq⟩ := stringLiteral_eq hrest hlead hquote
    rw [heq]
    exact (h.passesOver hpasses).readLiteral hcut htext

/-- A whole run finds every literal. -/
theorem Traced.run (h : s.Traced source) (n : Nat) : (run n s).Traced source :=
  run_induction (fun _ _ h hstep => h.step hstep) n h

/-- At the start there is none. -/
theorem traced_start (cs : List Char) : (start cs).Traced cs := by
  obtain ⟨lead, rest, hsource, -, hstart⟩ := start_spec cs
  rw [hstart]
  exact ⟨⟨lead, hsource, rfl⟩, by simp, by simp [Unclosed]⟩

/-- What closes a text at its end is no literal. -/
theorem passesOver_finish (s : Lexer) (stop : Nat) : PassesOver (s.atEnd stop) (s.finish stop) := by
  have hline (s : Lexer) : PassesOver s s.endLine := by
    rcases endLine_eq s with heq | heq <;> rw [heq]
    · exact .same rfl rfl rfl rfl
    · exact .mark TokenKind.noConfusion s
  rw [finish_eq_marks]
  exact ((hline _).trans (.marksBlocks (marksBlocks_endBlocks _))).trans (.mark TokenKind.noConfusion _)

/-- At the end of the text only open brackets are reported. -/
theorem unclosed_atEnd (s : Lexer) (stop : Nat) (span : Span) :
    Unclosed (s.atEnd stop).issues span ↔ Unclosed s.issues span := by
  unfold atEnd
  dsimp only
  split
  · exact unclosed_report SyntaxError.noConfusion SyntaxError.noConfusion _ _ _
  · rfl

end Lexer

/-! ### The literals of a text -/

/-- A literal among the tokens of a text stands in the text, and it is reported exactly when it is not
    closed. -/
theorem exists_literal {source : String} {t : Token} (ht : t ∈ (tokenize source).1)
    (hkind : t.kind = .string) :
    ∃ l : Literal, l.StandsAt source.toList t ∧
      (Lexer.Unclosed (tokenize source).2 t.span ↔ l.closed = false) := by
  have htraced : (Lexer.walked source.toList).Traced source.toList :=
    (Lexer.traced_start source.toList).run _
  have hfinish := Lexer.passesOver_finish (Lexer.walked source.toList)
    (Text.byteLength source.toList)
  rw [tokenize_eq] at ht ⊢
  have hread : t ∈ (Lexer.walked source.toList).tokens := by
    rw [← (Lexer.atEnd_spec _ (Text.byteLength source.toList)).1]
    exact hfinish.literals t (List.mem_reverse.mp ht) hkind
  obtain ⟨-, l, hstands, hreported⟩ := htraced.found t hread hkind
  refine ⟨l, hstands, ?_⟩
  rw [← hreported, ← Lexer.unclosed_atEnd _ (Text.byteLength source.toList), ← hfinish.issues]
  simp [Lexer.Unclosed]

/-- **Decoding goes by the body that was found.**  Every literal among the tokens of a text, whatever
    is wrong with it, is a stretch of the text whose body the search for the closing quote has cut;
    it is reported exactly when it is not closed.  Decoding goes by this body, unless the literal is
    not closed and its body ends in the characters of a closing quote. -/
theorem literalContent_eq_iff (source : String) (t : Token) (ht : t ∈ (tokenize source).1)
    (hkind : t.kind = .string) :
    ∃ l : Literal, l.StandsAt source.toList t ∧
      (Lexer.Unclosed (tokenize source).2 t.span ↔ l.closed = false) ∧
      (literalContent t.text = l.body ↔ (l.closed = false → ¬l.quotes.text <:+ l.body)) := by
  obtain ⟨l, hstands, hreported⟩ := exists_literal ht hkind
  refine ⟨l, hstands, hreported, ?_⟩
  obtain ⟨before, behind, -, hcut, -, htext⟩ := hstands
  rw [htext, hcut.literalContent_text, hcut.literalBody_eq_body_iff]

/-- A raw literal with a quote behind a backslash is closed, and decoding goes by all of it. -/
theorem literalContent_eq_iff_raw :
    ∃ t ∈ (tokenize "x = r'a\\'b'\n").1, t.kind = .string ∧
      ∃ l : Literal, l.StandsAt "x = r'a\\'b'\n".toList t ∧ l.closed = true ∧
        literalContent t.text = l.body := by
  have ht : (⟨.string, ⟨4, 11⟩, "r'a\\'b'"⟩ : Token) ∈ (tokenize "x = r'a\\'b'\n").1 := by
    decide +kernel
  have hissues : (tokenize "x = r'a\\'b'\n").2 = [] := by decide +kernel
  obtain ⟨l, hstands, hreported, hcontent⟩ := literalContent_eq_iff _ _ ht rfl
  have hclosed : l.closed = true := by
    rw [hissues] at hreported
    by_contra hopen
    rw [Bool.not_eq_true] at hopen
    obtain ⟨i, hi, -⟩ := hreported.mpr hopen
    cases hi
  exact ⟨_, ht, rfl, l, hstands, hclosed, hcontent.mpr fun hopen => by simp [hclosed] at hopen⟩

/-- The line ends before the literal is closed: all of `ab\'` stands behind its opening quote.  The
    last quote is lost in decoding, though a backslash protects it. -/
theorem literalContent_ne_unclosed :
    ∃ t ∈ (tokenize "x = 'ab\\'\n").1, t.kind = .string ∧
      Lexer.Unclosed (tokenize "x = 'ab\\'\n").2 t.span ∧ t.text = "'" ++ "ab\\'" ∧
        literalContent t.text ≠ "ab\\'".toList := by
  have ht : (⟨.string, ⟨4, 9⟩, "'ab\\'"⟩ : Token) ∈ (tokenize "x = 'ab\\'\n").1 := by
    decide +kernel
  have hreport : (⟨⟨4, 9⟩, .unterminatedString⟩ : SyntaxIssue) ∈
      (tokenize "x = 'ab\\'\n").2 := by
    decide +kernel
  exact ⟨_, ht, rfl, ⟨_, hreport, rfl, .inl rfl⟩, rfl, by decide⟩

end PackageDoc
