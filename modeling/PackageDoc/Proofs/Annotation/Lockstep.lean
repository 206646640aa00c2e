import PackageDoc.Proofs.Annotation.Extent
import PackageDoc.Proofs.Layout.Tokens
import PackageDoc.Proofs.Syntax.Lexing

namespace PackageDoc

/-!
# A text and what stands around it

A lexer that reads a text on its own and one that reads it in the middle of another take the same
steps, as long as the second does not read beyond the text and the first finds no end of a line.

* `Cuts` — cutting a lexeme off does not depend on what stands behind the text;
* `spanString_closed` — nor does reading a string literal up to its closing quote;
* `Lexer.Around` — two lexers at the same place of a text, one of them with more around it;
* `Lexer.Around.token` — a step of the second is one of the first.
-/

/-! ### Cuts -/

/-- What is cut off within a text is cut off without the characters behind the text too. -/
def Cuts (cut : List Char → List Char × List Char) : Prop :=
  ∀ cs behind text rest, cut (cs ++ behind) = (text, rest ++ behind) → cut cs = (text, rest)

/-- A run that ends in front of what stands behind a text is a run of that text. -/
theorem eq_append_of_append {cs behind text rest : List Char}
    (h : text ++ (rest ++ behind) = cs ++ behind) : cs = text ++ rest := by
  rw [← List.append_assoc] at h
  exact (List.append_cancel_right h).symm

/-- A run of characters of one sort is cut off a text and off the text in its place alike. -/
theorem cuts_span (p : Char → Bool) : Cuts (List.span p) := by
  intro cs behind text rest h
  have happend := span_append_self p (cs ++ behind)
  rw [h] at happend
  obtain rfl := eq_append_of_append happend
  rw [List.span_eq_takeWhile_dropWhile, Prod.mk.injEq] at h
  refine Lexeme.span_append (fun c hc => ?_) fun c hc => ?_
  · rw [← h.1] at hc
    exact List.mem_takeWhile_imp hc
  · have hnot := List.head?_dropWhile_not p (text ++ rest ++ behind)
    rw [h.2, List.head?_append, Option.mem_def.mp hc] at hnot
    simpa using hnot

/-- So is the rest of a line. -/
theorem cuts_spanLine : Cuts spanLine :=
  cuts_span _

/-- So is a line break. -/
theorem cuts_spanLineBreak : Cuts spanLineBreak := by
  intro cs behind text rest h
  have happend := spanLineBreak_append (cs ++ behind)
  rw [h] at happend
  obtain rfl := eq_append_of_append happend
  clear happend
  unfold spanLineBreak at h
  split at h
  · obtain ⟨rfl, -⟩ := Prod.mk.inj h
    rfl
  -- a carriage return would take along a line feed, so none is behind it
  · rename_i hnext _
    obtain ⟨rfl, rfl⟩ := Prod.mk.inj h
    cases rest with
    | nil => rfl
    | cons d rest =>
      have hd : d ≠ '\n' := by
        rintro rfl
        exact hnext _ rfl
      simp [spanLineBreak, hd]
  · obtain ⟨rfl, -⟩ := Prod.mk.inj h
    rfl
  -- no line break is read, so what is left does not begin with one
  · rename_i hreturn hnewline
    obtain ⟨rfl, hrest⟩ := Prod.mk.inj h
    cases rest with
    | nil => rfl
    | cons d rest =>
      have hd : d ≠ '\n' := by
        rintro rfl
        exact hnewline _ hrest.symm
      have hd' : d ≠ '\r' := by
        rintro rfl
        exact hreturn _ hrest.symm
      simp [spanLineBreak, hd, hd']

/-- So is a number. -/
theorem cuts_spanNumber (hex : Bool) (prev : Char) : Cuts (spanNumber hex prev) := by
  intro cs behind text rest h
  induction cs generalizing prev text with
  | nil =>
    have happend := spanNumber_append hex prev ([] ++ behind)
    rw [h] at happend
    obtain ⟨rfl, rfl⟩ := List.append_eq_nil_iff.mp (eq_append_of_append happend).symm
    rfl
  | cons c cs ih =>
    rw [List.cons_append, spanNumber] at h
    rw [spanNumber]
    dsimp only at h ⊢
    split at h
    · rename_i hc
      obtain ⟨rfl, hrest⟩ := Prod.mk.inj h
      rw [if_pos hc, ih c _ (Prod.ext rfl hrest)]
    · rename_i hc
      obtain ⟨rfl, hrest⟩ := Prod.mk.inj h
      rw [← List.cons_append] at hrest
      rw [if_neg hc, List.append_cancel_right hrest]

/-- A letter or a digit goes on with a number. -/
theorem spanNumber_ne {hex : Bool} {prev d : Char} {ds rest : List Char} (hd : d.isAlphanum = true) :
    (spanNumber hex prev (d :: ds)).2 ≠ rest ++ d :: ds := by
  intro h
  rw [spanNumber] at h
  simp only [hd, Bool.true_or, if_true] at h
  have hlength := congrArg List.length (spanNumber_append hex d ds)
  rw [List.length_append, h, List.length_append, List.length_cons] at hlength
  omega

/-! ### String literals -/

/-- Characters that are put in front of the body of a string only lengthen it. -/
theorem StringBody.after_eq_iff {cs text rest : List Char} {closed : Bool} {body : StringBody} :
    body.after cs = ⟨text, rest, closed⟩ ↔ ∃ more, text = cs ++ more ∧ body = ⟨more, rest, closed⟩ := by
  obtain ⟨more, rest', closed'⟩ := body
  constructor
  · rintro ⟨⟩
    exact ⟨more, rfl, rfl⟩
  · rintro ⟨more, rfl, ⟨⟩⟩
    rfl

/-- The closing quote is a part of the body. -/
theorem spanString_length {quote : Char} {triple : Bool} {cs text rest : List Char}
    (h : spanString quote triple cs = ⟨text, rest, true⟩) :
    text ++ rest = cs ∧ (if triple then 3 else 1) ≤ text.length := by
  have happend := spanString_append quote triple cs
  rw [h] at happend
  refine ⟨happend, ?_⟩
  clear happend
  fun_induction spanString quote triple cs generalizing text <;> grind [StringBody.after_eq_iff]

/-- A string literal is read up to its closing quote, whatever stands behind that. -/
theorem spanString_closed {quote : Char} {triple : Bool} {cs text rest : List Char}
    (h : spanString quote triple cs = ⟨text, rest, true⟩) (rest' : List Char) :
    spanString quote triple (text ++ rest') = ⟨text, rest', true⟩ := by
  have hslash : ∀ {c : Char} {ds : List Char}, (c = '\\' → ds = [] → False) →
      (∀ (d : Char) (es : List Char), c = '\\' → ds = d :: es → False) → c ≠ '\\' := by
    intro c ds hnil hcons hc
    cases ds with
    | nil => exact hnil hc rfl
    | cons d ds => exact hcons d ds hc rfl
  -- in a tripled quote, what is behind a quote is a part of the literal
  have hinside : ∀ {cs more : List Char}, spanString quote triple cs = ⟨more, rest, true⟩ →
      (!triple) ≠ true → [quote, quote].isPrefixOf cs = false →
      [quote, quote].isPrefixOf (more ++ rest') ≠ true := by
    intro cs more hmore htriple hcs
    obtain ⟨happend, hlength⟩ := spanString_length hmore
    rcases more with _ | ⟨d₁, _ | ⟨d₂, more⟩⟩ <;> grind [List.isPrefixOf]
  fun_induction spanString quote triple cs generalizing text with
  -- the text or the line ends before the literal does
  | case1 | case2 | case5 => cases h
  -- a backslash, with what stands behind it
  | case3 cs ih =>
    obtain ⟨more, rfl, hmore⟩ := StringBody.after_eq_iff.mp h
    exact StringBody.after_eq_iff.mpr ⟨more, rfl, ih hmore⟩
  | case4 c cs hbreak ih =>
    obtain ⟨more, rfl, hmore⟩ := StringBody.after_eq_iff.mp h
    obtain ⟨happend, hlength⟩ := spanString_length hmore
    change spanString quote triple ('\\' :: c :: (more ++ rest')) = _
    rw [spanString]
    · exact StringBody.after_eq_iff.mpr ⟨more, rfl, ih hmore⟩
    · -- no line end of two characters comes about where the literal is cut off
      intro ds hc hds
      cases more with
      | nil => cases triple <;> simp at hlength
      | cons d more => exact hbreak (more ++ rest) hc (by grind)
  -- the closing quote, alone or tripled
  | case6 cs hplain hnil _ hcons hline =>
    cases h
    rw [List.singleton_append, spanString_cons (hslash hnil hcons), if_neg hline, if_pos rfl,
      if_pos hplain]
  | case7 htriple c₁ c₂ cs hquotes hline hnil _ hcons =>
    cases h
    obtain ⟨rfl, rfl⟩ : c₁ = quote ∧ c₂ = quote := by simpa using hquotes
    rw [List.cons_append, spanString_cons (hslash hnil hcons), if_neg hline, if_pos rfl,
      if_neg htriple, if_pos (by simp)]
    rfl
  -- a quote that does not close a tripled one
  | case8 htriple c₁ c₂ cs hquotes hline hnil _ hcons ih =>
    obtain ⟨more, rfl, hmore⟩ := StringBody.after_eq_iff.mp h
    rw [List.singleton_append, List.cons_append, spanString_cons (hslash hnil hcons), if_neg hline,
      if_pos rfl, if_neg htriple, if_neg (hinside hmore htriple (by grind [List.isPrefixOf]))]
    exact StringBody.after_eq_iff.mpr ⟨more, rfl, ih hmore⟩
  | case9 htriple cs hshort =>
    -- too few characters are left for the closing quotes
    obtain ⟨more, rfl, hmore⟩ := StringBody.after_eq_iff.mp h
    obtain ⟨rfl, hlength⟩ := spanString_length hmore
    rcases more with _ | ⟨d₁, _ | ⟨d₂, more⟩⟩ <;> grind
  -- any other character
  | case10 c cs hnil _ hcons hline hquote ih =>
    obtain ⟨more, rfl, hmore⟩ := StringBody.after_eq_iff.mp h
    rw [List.singleton_append, List.cons_append, spanString_cons (hslash hnil hcons), if_neg hline,
      if_neg hquote]
    exact StringBody.after_eq_iff.mpr ⟨more, rfl, ih hmore⟩

/-- A string that is closed within a text is read alike without what stands behind. -/
theorem spanString_cut {quote : Char} {triple : Bool} {cs behind text rest : List Char}
    (h : spanString quote triple (cs ++ behind) = ⟨text, rest ++ behind, true⟩) :
    spanString quote triple cs = ⟨text, rest, true⟩ := by
  rw [eq_append_of_append (spanString_length h).1]
  exact spanString_closed h rest

/-! ### Two lexers -/

namespace Lexer

/-- What stands around a text: where the text begins and how many brackets are open there, the
    tokens in front of it, last first, and the characters behind it. -/
structure Surroundings where
  start : Nat
  depth : Nat
  before : List Token
  behind : List Char

/-- The lexer `s` reads a text on its own, `s'` the same text among its surroundings. -/
structure Around (w : Surroundings) (s s' : Lexer) : Prop where
  rest : s'.rest = s.rest ++ w.behind
  offset : s'.offset = s.offset + w.start
  depth : s'.depth = s.depth + w.depth
  tokens : s'.tokens = s.tokens.map (Token.mapSpan (Span.shift w.start)) ++ w.before
  inLine : s.atLineStart = false
  inLine' : s'.atLineStart = false
  indents : s.indents = [0]
  brackets : depthBehind? 0 s.tokens.reverse = some s.depth

/-- No issue was found, and neither a comment nor the end of a line was passed. -/
def InOneLine (s : Lexer) : Prop :=
  s.issues = [] ∧
    ∀ t ∈ s.tokens, t.kind = .newline ∨ t.kind = .comment → s.offset ≤ t.span.start

variable {w : Surroundings} {s s' : Lexer} {rest cs : List Char} {c quote : Char}
variable {kind : TokenKind} {depth : Nat}

namespace Around

/-- Two readings stay in step when both skip the same characters. -/
theorem skip (h : Around w s s') (text rest : List Char) :
    Around w (s.skip text rest) (s'.skip text (rest ++ w.behind)) where
  rest := rfl
  offset := by
    have hoffset := h.offset
    simp only [Lexer.skip]
    omega
  depth := h.depth
  tokens := h.tokens
  inLine := h.inLine
  inLine' := h.inLine'
  indents := h.indents
  brackets := h.brackets

/-- They stay in step when both make a token of the same characters. -/
theorem emit (h : Around w s s') (hdepth : kind.depthBehind? s.depth = some depth)
    (text rest : List Char) :
    Around w ({ s with depth := depth }.emit kind text rest)
      ({ s' with depth := depth + w.depth }.emit kind text (rest ++ w.behind)) where
  rest := rfl
  offset := by
    have hoffset := h.offset
    simp only [Lexer.emit, Lexer.skip]
    omega
  depth := rfl
  tokens := by
    have hoffset := h.offset
    simp only [Lexer.emit, Lexer.skip, List.map_cons, List.cons_append, h.tokens, Token.mapSpan,
      Span.shift, List.cons.injEq, Token.mk.injEq, Span.mk.injEq, true_and, and_true]
    omega
  inLine := h.inLine
  inLine' := h.inLine'
  indents := h.indents
  brackets := by
    simp only [Lexer.emit, Lexer.skip, List.reverse_cons]
    rw [depthBehind?_append, h.brackets, Option.bind_some, depthBehind?_cons, hdepth]
    rfl

/-- A token that is no bracket. -/
theorem emit_plain (h : Around w s s')
    (hkind : kind.isOpenBracket = false ∧ kind.isCloseBracket = false) (text rest : List Char) :
    Around w (s.emit kind text rest) (s'.emit kind text (rest ++ w.behind)) := by
  have hdepth : kind.depthBehind? s.depth = some s.depth := by
    simp [TokenKind.depthBehind?, hkind]
  have hemit := h.emit hdepth text rest
  rwa [← h.depth] at hemit

/-! ### Lexemes -/

/-- Two readings stay in step at a number. -/
theorem number (h : Around w s s')
    (hrest : (s'.number c (cs ++ w.behind)).rest = rest ++ w.behind) :
    Around w (s.number c cs) (s'.number c (cs ++ w.behind)) := by
  unfold Lexer.number at hrest ⊢
  dsimp only [Lexer.emit, Lexer.skip] at hrest
  have hhex : (c == '0' && ((cs ++ w.behind).head? == some 'x' || (cs ++ w.behind).head? == some 'X')) =
      (c == '0' && (cs.head? == some 'x' || cs.head? == some 'X')) := by
    cases cs with
    | cons d cs => rfl
    | nil =>
      -- behind the text no `x` stands, or it would have been read
      by_contra hne
      obtain ⟨d, ds, hbehind, hd⟩ : ∃ d ds, w.behind = d :: ds ∧ d.isAlphanum = true := by
        cases hw : w.behind with
        | nil => simp [hw] at hne
        | cons d ds =>
          refine ⟨d, ds, rfl, ?_⟩
          by_cases hx : d = 'x' ∨ d = 'X'
          · rcases hx with rfl | rfl <;> rfl
          · simp [hw, not_or.mp hx] at hne
      rw [List.nil_append, hbehind] at hrest
      exact spanNumber_ne hd hrest
  rw [hhex] at hrest ⊢
  dsimp only
  rw [cuts_spanNumber _ c cs w.behind _ rest (Prod.ext rfl hrest), hrest]
  exact h.emit_plain ⟨rfl, rfl⟩ _ _

end Around

/-! ### String literals -/

/-- What is read of a string literal behind its opening quote. -/
def quotedBody (quote : Char) (cs : List Char) : StringBody :=
  spanString quote ([quote, quote].isPrefixOf cs)
    (if [quote, quote].isPrefixOf cs then cs.drop 2 else cs)

/-- A quoted body that is closed within a text is the same without what stands behind, and so is its
    sort. -/
theorem quotedBody_cut {behind body : List Char}
    (h : quotedBody quote (cs ++ behind) = ⟨body, rest ++ behind, true⟩) :
    [quote, quote].isPrefixOf (cs ++ behind) = [quote, quote].isPrefixOf cs ∧
      quotedBody quote cs = ⟨body, rest, true⟩ := by
  unfold quotedBody at h ⊢
  cases htriple : [quote, quote].isPrefixOf (cs ++ behind) with
  | false =>
    have hcs : [quote, quote].isPrefixOf cs = false := by
      rw [Bool.eq_false_iff] at htriple ⊢
      intro hbegin
      have hbegin := (List.isPrefixOf_iff_prefix.mp hbegin).trans (List.prefix_append cs behind)
      exact htriple (List.isPrefixOf_iff_prefix.mpr hbegin)
    rw [htriple, if_neg (by simp)] at h
    rw [hcs, if_neg (by simp)]
    exact ⟨rfl, spanString_cut h⟩
  | true =>
    rw [htriple, if_pos rfl] at h
    obtain ⟨happend, hlength⟩ := spanString_length h
    rw [if_pos rfl] at hlength
    -- the quotes that open the literal are in front of `behind`, since all of `behind` is left
    have htwo : 2 ≤ cs.length := by
      have hcount := congrArg List.length happend
      simp only [List.length_append, List.length_drop] at hcount
      omega
    obtain ⟨a, b, cs, rfl⟩ : ∃ a b ds, cs = a :: b :: ds := by
      rcases cs with _ | ⟨a, _ | ⟨b, cs⟩⟩
      · simp at htwo
      · simp at htwo
      · exact ⟨a, b, cs, rfl⟩
    have hcs : [quote, quote].isPrefixOf (a :: b :: cs) = true := by
      simpa [List.isPrefixOf] using htriple
    rw [hcs, if_pos rfl]
    exact ⟨rfl, spanString_cut h⟩

/-- The characters behind a string literal are some of those behind its opening quote. -/
theorem stringLiteral_rest (s : Lexer) (lead : List Char) (quote : Char) (cs : List Char) :
    ∃ more, cs = more ++ (s.stringLiteral lead quote cs).rest := by
  have hparts := spanString_append quote ([quote, quote].isPrefixOf cs)
    (if [quote, quote].isPrefixOf cs then cs.drop 2 else cs)
  have hrest : (s.stringLiteral lead quote cs).rest = (quotedBody quote cs).rest := rfl
  rw [hrest, quotedBody]
  split at hparts
  · rename_i h
    rw [if_pos h]
    exact ⟨cs.take 2 ++ _, by rw [List.append_assoc, hparts, List.take_append_drop]⟩
  · rename_i h
    rw [if_neg h]
    exact ⟨_, hparts.symm⟩

/-- A string literal that is closed, read off its body. -/
theorem stringLiteral_closed (s : Lexer) (lead : List Char) {body : List Char}
    (h : quotedBody quote cs = ⟨body, rest, true⟩) :
    s.stringLiteral lead quote cs =
      s.emit .string (lead ++ (if [quote, quote].isPrefixOf cs then [quote, quote, quote] else [quote]) ++
        body) rest := by
  unfold stringLiteral
  unfold quotedBody at h
  dsimp only
  rw [h, if_pos rfl]

/-- A string literal of which nothing is reported is closed. -/
theorem stringLiteral_issues (s : Lexer) (lead : List Char)
    (h : (s.stringLiteral lead quote cs).issues = []) : (quotedBody quote cs).closed = true := by
  by_contra hopen
  unfold stringLiteral at h
  unfold quotedBody at hopen
  dsimp only at h
  rw [if_neg hopen] at h
  split at h <;> cases h

/-- Two readings stay in step at a string literal. -/
theorem Around.stringLiteral (h : Around w s s') (lead : List Char)
    (hissues : (s'.stringLiteral lead quote (cs ++ w.behind)).issues = [])
    (hrest : (s'.stringLiteral lead quote (cs ++ w.behind)).rest = rest ++ w.behind) :
    Around w (s.stringLiteral lead quote cs) (s'.stringLiteral lead quote (cs ++ w.behind)) := by
  have hclosed := stringLiteral_issues s' lead hissues
  change (quotedBody quote (cs ++ w.behind)).rest = _ at hrest
  have hbody : quotedBody quote (cs ++ w.behind) =
      ⟨(quotedBody quote (cs ++ w.behind)).text, rest ++ w.behind, true⟩ := by
    rw [← hrest, ← hclosed]
  obtain ⟨htriple, hcut⟩ := quotedBody_cut hbody
  rw [stringLiteral_closed s' lead hbody, stringLiteral_closed s lead hcut, htriple]
  exact h.emit_plain ⟨rfl, rfl⟩ _ _

/-! ### Words and punctuation -/

/-- They stay in step at a word, which may be the prefix of a string. -/
theorem Around.word (h : Around w s s') (hissues : s'.word.issues = [])
    (hrest : s'.word.rest = rest ++ w.behind) : Around w s.word s'.word := by
  obtain ⟨text, more, hspan⟩ : ∃ text more, s'.rest.span isNamePart = (text, more) := ⟨_, _, rfl⟩
  cases hliteral : beginsLiteral text more with
  | true =>
    obtain ⟨quote, ds, rfl, -⟩ := exists_of_beginsLiteral hliteral
    rw [word_literal hspan hliteral] at hissues hrest ⊢
    -- the literal ends in front of `behind`, so what stands behind its quote is `cs` and `behind`
    obtain ⟨inner, hinner⟩ := stringLiteral_rest s' text quote ds
    rw [hrest, ← List.append_assoc] at hinner
    generalize inner ++ rest = cs at hinner
    subst hinner
    rw [h.rest, ← List.cons_append] at hspan
    rw [word_literal (cuts_span _ _ _ _ _ hspan) hliteral]
    exact h.stringLiteral text hissues hrest
  | false =>
    rw [word_name hspan hliteral] at hrest ⊢
    obtain rfl : more = rest ++ w.behind := hrest
    rw [h.rest] at hspan
    have hliteral' : beginsLiteral text rest = false := by
      cases rest with
      | nil => rfl
      | cons c rest => exact hliteral
    rw [word_name (cuts_span _ _ _ _ _ hspan) hliteral']
    obtain ⟨-, hopen, hclose, -⟩ := wordKind_spec text
    exact h.emit_plain ⟨hopen, hclose⟩ _ _

/-- Of two searches the one that fewer elements satisfy finds the same when that is one of them. -/
theorem find?_eq_some_of_imp {α : Type} {p q : α → Bool} {xs : List α} {a : α}
    (h : xs.find? p = some a) (himp : ∀ b, q b = true → p b = true) (ha : q a = true) :
    xs.find? q = some a := by
  obtain ⟨-, as, bs, rfl, hbefore⟩ := List.find?_eq_some_iff_append.mp h
  refine List.find?_eq_some_iff_append.mpr ⟨ha, as, bs, rfl, fun b hb => ?_⟩
  have hb := hbefore b hb
  cases hq : q b with
  | false => rfl
  | true => simp [himp b hq] at hb

/-- A delimiter that is read without an issue. -/
theorem punctuation_eq (h : (s.punctuation c cs).issues = []) :
    ∃ text kind rest d, BeginsWith (c :: cs) text kind rest ∧ kind.depthBehind? s.depth = some d ∧
      s.punctuation c cs = { s with depth := d }.emit kind text rest := by
  have hstep := punctuationStep s c cs
  generalize s.punctuation c cs = s' at h hstep ⊢
  cases hstep with
  | invalid | stray => cases h
  | opens hbegins hopen =>
    exact ⟨_, _, _, _, hbegins, by simp [TokenKind.depthBehind?, hopen], rfl⟩
  | closes hbegins hopen hclose hdepth =>
    exact ⟨_, _, _, _, hbegins, by simp [TokenKind.depthBehind?, hopen, hclose, hdepth], rfl⟩
  | plain hbegins hopen hclose =>
    exact ⟨_, _, _, _, hbegins, by simp [TokenKind.depthBehind?, hopen, hclose], rfl⟩

/-- They stay in step at a punctuation mark or a bracket. -/
theorem Around.punctuation (h : Around w s s')
    (hissues' : (s'.punctuation c (cs ++ w.behind)).issues = [])
    (hrest : (s'.punctuation c (cs ++ w.behind)).rest = rest ++ w.behind)
    (hissues : (s.punctuation c cs).issues = []) :
    Around w (s.punctuation c cs) (s'.punctuation c (cs ++ w.behind)) := by
  obtain ⟨text, kind, rest', d', hbegins', hdepth', heq'⟩ := punctuation_eq hissues'
  obtain ⟨text₁, kind₁, rest₁, d, hbegins, hdepth, heq⟩ := punctuation_eq hissues
  rw [heq'] at hrest ⊢
  obtain rfl : rest' = rest ++ w.behind := hrest
  have hcs : c :: cs = text ++ rest := eq_append_of_append hbegins'.cut.symm
  -- the same delimiter is found in the text alone
  have hsame : BeginsWith (c :: cs) text kind rest := by
    refine ⟨find?_eq_some_of_imp hbegins'.found (fun op hop => ?_) ?_, hcs⟩
    · have hbegin := (List.isPrefixOf_iff_prefix.mp hop).trans (List.prefix_append _ w.behind)
      rw [List.cons_append] at hbegin
      exact List.isPrefixOf_iff_prefix.mpr hbegin
    · rw [hcs]
      exact List.isPrefixOf_iff_prefix.mpr (List.prefix_append _ _)
  obtain ⟨rfl, rfl, rfl⟩ := hsame.unique hbegins
  rw [h.depth] at hdepth'
  obtain rfl : d + w.depth = d' :=
    Option.some.inj ((TokenKind.depthBehind?_add w.depth hdepth).symm.trans hdepth')
  rw [heq]
  exact h.emit hdepth text rest

/-! ### Steps -/

/-- Blanks are passed over before a token is read. -/
theorem token_skip {gap : List Char} (hrest : s.rest = gap ++ rest)
    (hgap : ∀ c ∈ gap, isGap c = true) (hhead : ∀ c ∈ rest.head?, isGap c = false) :
    (s.skip gap rest).token = s.token := by
  have hspan : s.rest.span isGap = (gap, rest) := by
    rw [hrest]
    exact Lexeme.span_append hgap hhead
  have hspan' : (s.skip gap rest).rest.span isGap = ([], rest) :=
    Lexeme.span_append (List.forall_mem_nil _) hhead
  unfold Lexer.token
  rw [hspan, hspan']
  rfl

/-- The step where no blanks are ahead. -/
theorem token_cons (hrest : s.rest = c :: cs) (hgap : isGap c = false) :
    s.token =
      if isLineBreak c then
        if s.depth = 0 then
          some { s.emit .newline (spanLineBreak (c :: cs)).1 (spanLineBreak (c :: cs)).2 with
            atLineStart := true }
        else some (s.skip (spanLineBreak (c :: cs)).1 (spanLineBreak (c :: cs)).2)
      else if c = '#' then
        if s.depth = 0 then some (s.emit .comment (spanLine (c :: cs)).1 (spanLine (c :: cs)).2)
        else some (s.skip (spanLine (c :: cs)).1 (spanLine (c :: cs)).2)
      else if c = '\\' then
        some ((if (spanLineBreak cs).1.isEmpty then s.report .strayBackslash [c] else s).skip
          (c :: (spanLineBreak cs).1) (spanLineBreak cs).2)
      else if c = '"' || c = '\'' then some (s.stringLiteral [] c cs)
      else if c.isDigit || (c = '.' && cs.head?.any Char.isDigit) then some (s.number c cs)
      else if isNameStart c then some s.word
      else some (s.punctuation c cs) := by
  have hspan : s.rest.span isGap = ([], c :: cs) := by
    rw [hrest]
    exact Lexeme.span_append (List.forall_mem_nil _) (by simpa using hgap)
  have hskip : s.skip [] (c :: cs) = s := by
    rw [← hrest]
    rfl
  unfold Lexer.token
  rw [hspan]
  dsimp only
  rw [hskip]
  simp only [hrest, Lexer.comment]

/-- A comment or a line end does not stay in one line. -/
theorem not_inOneLine_emit (hkind : kind = .newline ∨ kind = .comment) {text : List Char}
    (hne : text ≠ []) (rest : List Char) : ¬ (s.emit kind text rest).InOneLine := by
  intro h
  have hle : s.offset + Text.byteLength text ≤ s.offset := h.2 _ List.mem_cons_self hkind
  have hpos := Text.byteLength_pos hne
  omega

/-- What is cut off, behind some characters, is passed over alike. -/
theorem Around.skip_cut {cut : List Char → List Char × List Char} (h : Around w s s')
    (hcut : Cuts cut) (lead cs : List Char)
    (hrest : (cut (cs ++ w.behind)).2 = rest ++ w.behind) :
    Around w (s.skip (lead ++ (cut cs).1) (cut cs).2)
      (s'.skip (lead ++ (cut (cs ++ w.behind)).1) (cut (cs ++ w.behind)).2) := by
  rw [hcut cs w.behind _ rest (Prod.ext rfl hrest), hrest]
  exact h.skip _ _

/-- Whether a number begins is decided within the text when no more than the text is read of it:
    behind a dot at the end of the text no digit stands, or it would be read. -/
theorem beginsNumber_eq (s : Lexer) (rest : List Char) {behind : List Char}
    (h : (c.isDigit || (c = '.' && (cs ++ behind).head?.any Char.isDigit)) = true →
      (s.number c (cs ++ behind)).rest = rest ++ behind) :
    (c.isDigit || (c = '.' && (cs ++ behind).head?.any Char.isDigit)) =
      (c.isDigit || (c = '.' && cs.head?.any Char.isDigit)) := by
  cases cs with
  | cons d cs => rfl
  | nil =>
    by_contra hne
    obtain ⟨rfl, d, ds, rfl, hd⟩ : c = '.' ∧ ∃ d ds, behind = d :: ds ∧ d.isDigit = true := by
      cases hbehind : behind with
      | nil => simp [hbehind] at hne
      | cons d ds =>
        simp only [hbehind, List.nil_append, List.head?_cons, Option.any_some, List.head?_nil,
          Option.any_none] at hne
        grind
    have hrest := h (by simp [hd])
    change (spanNumber _ _ _).2 = _ at hrest
    exact spanNumber_ne (by simp [Char.isAlphanum, hd]) hrest

/-- Two readings that are in step at a character make the same token of it. -/
theorem Around.token_cons (h : Around w s s') (hs : s.rest = c :: cs) (hgap : isGap c = false)
    {next' : Lexer} (hstep : s'.token = some next') (hissues : next'.issues = [])
    (hrest : next'.rest = rest ++ w.behind) :
    ∃ next, s.token = some next ∧ (next.InOneLine → Around w next next') := by
  have hs' : s'.rest = c :: (cs ++ w.behind) := by rw [h.rest, hs, List.cons_append]
  have hdepth' : s.depth ≠ 0 → s'.depth ≠ 0 := fun hdepth => by have := h.depth; omega
  rw [Lexer.token_cons hs' hgap] at hstep
  rw [Lexer.token_cons hs hgap]
  by_cases hbreak : isLineBreak c = true
  · -- outside brackets the line would end here
    rw [if_pos hbreak] at hstep ⊢
    by_cases hdepth : s.depth = 0
    · rw [if_pos hdepth]
      obtain ⟨more, hmore⟩ := spanLineBreak_of_isLineBreak cs hbreak
      have hne : (spanLineBreak (c :: cs)).1 ≠ [] := by simp [hmore]
      exact ⟨_, rfl, fun hline => (not_inOneLine_emit (s := s) (.inl rfl) hne _ hline).elim⟩
    · rw [if_neg (hdepth' hdepth)] at hstep
      obtain rfl := Option.some.inj hstep
      rw [if_neg hdepth]
      exact ⟨_, rfl, fun _ => h.skip_cut cuts_spanLineBreak [] (c :: cs) hrest⟩
  rw [if_neg hbreak] at hstep ⊢
  by_cases hhash : c = '#'
  · -- outside brackets a comment would end the line
    subst hhash
    rw [if_pos rfl] at hstep ⊢
    by_cases hdepth : s.depth = 0
    · rw [if_pos hdepth]
      obtain ⟨more, hmore⟩ := spanLine_hash cs
      have hne : (spanLine ('#' :: cs)).1 ≠ [] := by simp [hmore]
      exact ⟨_, rfl, fun hline => absurd hline (not_inOneLine_emit (.inr rfl) hne _)⟩
    · rw [if_neg (hdepth' hdepth)] at hstep
      obtain rfl := Option.some.inj hstep
      rw [if_neg hdepth]
      exact ⟨_, rfl, fun _ => h.skip_cut cuts_spanLine [] ('#' :: cs) hrest⟩
  rw [if_neg hhash] at hstep ⊢
  by_cases hslash : c = '\\'
  · -- a joined line; a backslash with no line to join would be an issue
    rw [if_pos hslash] at hstep ⊢
    obtain rfl := Option.some.inj hstep
    change (spanLineBreak _).2 = _ at hrest
    by_cases hstray : (spanLineBreak (cs ++ w.behind)).1.isEmpty = true
    · rw [if_pos hstray] at hissues
      cases hissues
    · have hcut := cuts_spanLineBreak cs w.behind _ rest (Prod.ext rfl hrest)
      rw [if_neg hstray, if_neg (by rwa [hcut])]
      exact ⟨_, rfl, fun _ => h.skip_cut cuts_spanLineBreak [c] cs hrest⟩
  rw [if_neg hslash] at hstep ⊢
  by_cases hquote : (c = '"' || c = '\'') = true
  · rw [if_pos hquote] at hstep ⊢
    obtain rfl := Option.some.inj hstep
    exact ⟨_, rfl, fun _ => h.stringLiteral [] hissues hrest⟩
  rw [if_neg hquote] at hstep ⊢
  have hnumber : (c.isDigit || (c = '.' && (cs ++ w.behind).head?.any Char.isDigit)) =
      (c.isDigit || (c = '.' && cs.head?.any Char.isDigit)) := by
    refine beginsNumber_eq s' rest fun hdigit => ?_
    rw [if_pos hdigit] at hstep
    rwa [Option.some.inj hstep]
  rw [hnumber] at hstep
  by_cases hdigit : (c.isDigit || (c = '.' && cs.head?.any Char.isDigit)) = true
  · rw [if_pos hdigit] at hstep ⊢
    obtain rfl := Option.some.inj hstep
    exact ⟨_, rfl, fun _ => h.number hrest⟩
  rw [if_neg hdigit] at hstep ⊢
  by_cases hname : isNameStart c = true
  · rw [if_pos hname] at hstep ⊢
    obtain rfl := Option.some.inj hstep
    exact ⟨_, rfl, fun _ => h.word hissues hrest⟩
  · rw [if_neg hname] at hstep ⊢
    obtain rfl := Option.some.inj hstep
    exact ⟨_, rfl, fun hline => h.punctuation hissues hrest hline.1⟩

/-- **A step among the surroundings of a text is a step in the text alone.** -/
theorem Around.token (h : Around w s s') {next' : Lexer} (hstep : s'.token = some next')
    (hissues : next'.issues = []) (hrest : next'.rest = rest ++ w.behind) :
    ∃ next, s.token = some next ∧ (next.InOneLine → Around w next next') := by
  obtain ⟨-, gap, text, hreads⟩ := reads_token hstep hissues
  obtain ⟨c, more, rfl⟩ := List.exists_cons_of_ne_nil hreads.ne_nil
  have hgap : ∀ d ∈ (c :: (more ++ rest)).head?, isGap d = false := by
    simpa using hreads.head c rfl
  have hs : s.rest = gap ++ c :: (more ++ rest) := by
    have hcut := hreads.rest
    rw [hrest, h.rest] at hcut
    exact eq_append_of_append (by rw [hcut]; simp)
  have hs' : s'.rest = gap ++ (c :: (more ++ rest) ++ w.behind) := by
    rw [h.rest, hs, List.append_assoc]
  rw [← token_skip hs' hreads.blanks (by simpa using hgap)] at hstep
  rw [← token_skip hs hreads.blanks hgap]
  exact (h.skip gap _).token_cons rfl (hgap c rfl) hstep hissues hrest

end Lexer

end PackageDoc
