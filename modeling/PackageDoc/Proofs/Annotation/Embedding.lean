import Mathlib.Data.List.Find
import PackageDoc.Proofs.Annotation.Reparsing
import PackageDoc.Proofs.Tokens.Tiling

namespace PackageDoc

/-!
# A text set among others

What is read of a text on its own is read of it in the middle of another text too, if the text is one
line and no character behind it goes on with a lexeme.

* `Severs` — characters that go on with no lexeme;
* `Lexer.Around.exists_token` — a step in the text alone is one among its surroundings;
* `Lexer.Around.exists_steps` — so is a walk over the text;
* `IsExpression` — a text that is one expression of the modelled language on one line;
* `Lexer.Walks` — the tokens of a stretch of a text;
* `Lexer.exists_walks_of_parse?` — the walk over a text that is an expression, wherever it stands.
-/

/-- Some characters that go on with no lexeme. -/
abbrev severing : List Char :=
  [' ', '\t', '\x0c', ',', ')', ']', ':']

/-- The characters begin with none that goes on with a lexeme in front of them. -/
def Severs (behind : List Char) : Prop :=
  ∀ c ∈ behind.head?, c ∈ severing

/-- What begins with a severing character severs. -/
theorem severs_cons {c : Char} (hc : c ∈ severing) (cs : List Char) : Severs (c :: cs) := by
  rintro d ⟨⟩
  exact hc

variable {behind cs text rest body : List Char} {quote : Char}

/-! ### Cuts -/

/-- A run that ends in a text ends there too when more stands behind, unless that goes on with
    it. -/
theorem span_append_behind {p : Char → Bool} (hp : ∀ c ∈ behind.head?, p c = false)
    (h : cs.span p = (text, rest)) : (cs ++ behind).span p = (text, rest ++ behind) := by
  have happend := span_append_self p cs
  rw [h] at happend
  rw [List.span_eq_takeWhile_dropWhile, Prod.mk.injEq] at h
  rw [← happend, List.append_assoc]
  refine Lexeme.span_append (fun c hc => ?_) fun c hc => ?_
  · rw [← h.1] at hc
    exact List.mem_takeWhile_imp hc
  · cases rest with
    | nil => exact hp c hc
    | cons d rest =>
      have hnot := List.head?_dropWhile_not p cs
      rw [h.2] at hnot
      obtain rfl := Option.some.inj hc
      simpa using hnot

/-- Without a line break nothing is cut off as one. -/
theorem isEmpty_spanLineBreak (h : ∀ c ∈ cs, isLineBreak c = false) :
    (spanLineBreak cs).1.isEmpty = true := by
  rw [List.isEmpty_iff, List.eq_nil_iff_forall_not_mem]
  intro c hc
  have hmem : c ∈ cs := by
    rw [← spanLineBreak_append cs]
    exact List.mem_append_left _ hc
  have hno := h c hmem
  rw [spanLineBreak_isLineBreak cs c hc] at hno
  cases hno

namespace Severs

/-- What severs ends a word. -/
theorem endsWord (h : Severs behind) : Lexeme.EndsWord behind := by
  have hall : (severing.all fun c => !isNamePart c && c != '"' && c != '\'') = true := by decide
  intro d hd
  simpa [and_assoc] using List.all_eq_true.mp hall d (h d hd)

/-- What severs adds no digit in front. -/
theorem head?_any_isDigit (h : Severs behind) (cs : List Char) :
    (cs ++ behind).head?.any Char.isDigit = cs.head?.any Char.isDigit := by
  cases cs with
  | cons d cs => rfl
  | nil =>
    cases behind with
    | nil => rfl
    | cons d behind =>
      have hword := (h.endsWord d rfl).1
      rw [isNamePart, Bool.or_eq_false_iff] at hword
      simp [hword.2]

/-- A number ends in front of what severs, where it ends without it. -/
theorem spanNumber_append (h : Severs behind) (hex : Bool) (prev : Char) (cs : List Char) :
    spanNumber hex prev (cs ++ behind) =
      ((spanNumber hex prev cs).1, (spanNumber hex prev cs).2 ++ behind) := by
  induction cs generalizing prev with
  | nil =>
    cases behind with
    | nil => rfl
    | cons c behind =>
      have hall : (severing.all fun c => !(c.isAlphanum || c == '_' || c == '.' ||
          c == '+' || c == '-')) = true := by decide
      have hc := List.all_eq_true.mp hall c (h c rfl)
      simp only [Bool.not_eq_true', Bool.or_eq_false_iff] at hc
      obtain ⟨⟨⟨⟨halnum, hline⟩, hdot⟩, hplus⟩, hminus⟩ := hc
      simp [spanNumber, halnum, hline, hdot, hplus, hminus]
  | cons c cs ih =>
    rw [List.cons_append, spanNumber, spanNumber]
    dsimp only
    split
    · rw [ih]
    · rfl

/-- The same operator is found, because none goes on with what is behind. -/
theorem find?_operators (h : Severs behind) (c : Char) (cs : List Char) :
    operators.find? (fun op => op.1.isPrefixOf (c :: (cs ++ behind))) =
      operators.find? (fun op => op.1.isPrefixOf (c :: cs)) := by
  have hlater : ∀ op ∈ operators, ∀ d ∈ op.1.tail, d ∉ severing := by
    have hall : (operators.all fun op =>
        op.1.tail.all fun d => !(severing.contains d)) = true := by decide
    intro op hop d hd
    simpa using List.all_eq_true.mp (List.all_eq_true.mp hall op hop) d hd
  refine List.find?_congr fun op hop => ?_
  rw [Bool.eq_iff_iff, List.isPrefixOf_iff_prefix, List.isPrefixOf_iff_prefix]
  constructor
  · rintro ⟨more, hmore⟩
    rw [← List.cons_append] at hmore
    obtain ⟨inner, hcs, -⟩ | ⟨outer, hop', hbehind⟩ := List.append_eq_append_iff.mp hmore
    · exact ⟨inner, hcs.symm⟩
    · cases outer with
      | nil => exact ⟨[], by rw [List.append_nil, hop', List.append_nil]⟩
      | cons d outer =>
        -- a later character of an operator would stand behind
        have hd : d ∈ op.1.tail := by simp [hop']
        exact absurd (h d (by rw [hbehind]; rfl)) (hlater op hop d hd)
  · intro hprefix
    exact hprefix.trans (List.prefix_append (c :: cs) behind)

end Severs

namespace Lexer

/-- A string literal that is closed stays as it is. -/
theorem quotedBody_append (hquote : behind.head? ≠ some quote)
    (h : quotedBody quote cs = ⟨body, rest, true⟩) :
    [quote, quote].isPrefixOf (cs ++ behind) = [quote, quote].isPrefixOf cs ∧
      quotedBody quote (cs ++ behind) = ⟨body, rest ++ behind, true⟩ := by
  -- a literal without text would become a triple one if another quote stood behind it
  have hsame : [quote, quote].isPrefixOf (cs ++ behind) = [quote, quote].isPrefixOf cs := by
    match cs with
    | [] =>
      cases h
    | [c] =>
      cases behind with
      | nil => rfl
      | cons d behind =>
        have hd : (quote == d) = false :=
          beq_eq_false_iff_ne.mpr fun hd => hquote (by rw [hd]; rfl)
        simp [List.isPrefixOf, hd]
    | c :: d :: cs => simp [List.isPrefixOf]
  refine ⟨hsame, ?_⟩
  unfold quotedBody at h ⊢
  rw [hsame]
  cases htriple : [quote, quote].isPrefixOf cs with
  | false =>
    rw [htriple, if_neg Bool.false_ne_true] at h
    have hparts := (spanString_length h).1
    rw [if_neg Bool.false_ne_true, ← hparts, List.append_assoc]
    exact spanString_closed h _
  | true =>
    rw [htriple, if_pos rfl] at h
    have hparts := (spanString_length h).1
    have hlength : 2 ≤ cs.length :=
      (List.isPrefixOf_iff_prefix.mp htriple).length_le
    rw [if_pos rfl, List.drop_append_of_le_length hlength, ← hparts, List.append_assoc]
    exact spanString_closed h _

/-! ### Steps -/

variable {w : Surroundings} {s s' next : Lexer} {c quote : Char} {cs : List Char}

/-- A delimiter that closes no bracket that is not open. -/
theorem punctuation_of_beginsWith {text rest : List Char} {kind : TokenKind} {depth : Nat}
    (h : BeginsWith (c :: cs) text kind rest) (hdepth : kind.depthBehind? s.depth = some depth) :
    s.punctuation c cs = { s with depth := depth }.emit kind text rest := by
  have hstep := punctuationStep s c cs
  generalize s.punctuation c cs = s' at hstep ⊢
  cases hstep with
  | invalid hnone => cases hnone.symm.trans h.found
  | opens h' hopen =>
    obtain ⟨rfl, rfl, rfl⟩ := h.unique h'
    rw [TokenKind.depthBehind?, if_pos hopen] at hdepth
    rw [← Option.some.inj hdepth]
  | stray h' hopen hclose hzero =>
    obtain ⟨rfl, rfl, rfl⟩ := h.unique h'
    simp [TokenKind.depthBehind?, hopen, hclose, hzero] at hdepth
  | closes h' hopen hclose hzero =>
    obtain ⟨rfl, rfl, rfl⟩ := h.unique h'
    obtain rfl : s.depth - 1 = depth := by
      simpa [TokenKind.depthBehind?, hopen, hclose, hzero] using hdepth
    rfl
  | plain h' hopen hclose =>
    obtain ⟨rfl, rfl, rfl⟩ := h.unique h'
    obtain rfl : s.depth = depth := by
      simpa [TokenKind.depthBehind?, hopen, hclose] using hdepth
    rfl

namespace Around

/-- What is read among the surroundings is what is read in the text alone, and nothing is wrong
    with it. -/
structure Follows (w : Surroundings) (next s' next' : Lexer) : Prop where
  around : Around w next next'
  issues : next'.issues = s'.issues

/-- Numbers are read alike with and without what stands around them. -/
theorem follows_number (h : Around w s s') (hsevers : Severs w.behind) (c : Char) (cs : List Char) :
    Follows w (s.number c cs) s' (s'.number c (cs ++ w.behind)) := by
  have hhex : (c == '0' && ((cs ++ w.behind).head? == some 'x' || (cs ++ w.behind).head? == some 'X')) =
      (c == '0' && (cs.head? == some 'x' || cs.head? == some 'X')) := by
    cases cs with
    | cons d cs => rfl
    | nil =>
      have hne : ∀ d ∈ ['x', 'X'], w.behind.head? ≠ some d := by
        intro d hd hhead
        have hall : ∀ d ∈ ['x', 'X'], d ∉ severing := by simp
        exact hall d hd (hsevers d hhead)
      simp [hne]
  unfold Lexer.number
  rw [hhex]
  dsimp only
  rw [hsevers.spanNumber_append]
  exact ⟨h.emit_plain ⟨rfl, rfl⟩ _ _, rfl⟩

/-- So are string literals, if nothing is reported of them. -/
theorem follows_stringLiteral (h : Around w s s') (hsevers : Severs w.behind) (lead : List Char)
    (hissues : (s.stringLiteral lead quote cs).issues = []) (hquote : quote = '"' ∨ quote = '\'') :
    Follows w (s.stringLiteral lead quote cs) s' (s'.stringLiteral lead quote (cs ++ w.behind)) := by
  have hne : w.behind.head? ≠ some quote := by
    intro hhead
    have hends := hsevers.endsWord quote hhead
    rcases hquote with rfl | rfl
    · exact hends.2.1 rfl
    · exact hends.2.2 rfl
  obtain ⟨body, rest, hbody⟩ : ∃ body rest, quotedBody quote cs = ⟨body, rest, true⟩ :=
    ⟨_, _, by rw [← stringLiteral_issues s lead hissues]⟩
  obtain ⟨hsame, hbody'⟩ := quotedBody_append hne hbody
  rw [stringLiteral_closed s lead hbody, stringLiteral_closed s' lead hbody', hsame]
  exact ⟨h.emit_plain ⟨rfl, rfl⟩ _ _, rfl⟩

/-- So are words. -/
theorem follows_word (h : Around w s s') (hsevers : Severs w.behind) (hissues : s.word.issues = []) :
    Follows w s.word s' s'.word := by
  obtain ⟨text, more, hspan⟩ : ∃ text more, s.rest.span isNamePart = (text, more) := ⟨_, _, rfl⟩
  have hspan' : s'.rest.span isNamePart = (text, more ++ w.behind) := by
    rw [h.rest]
    exact span_append_behind (fun c hc => (hsevers.endsWord c hc).1) hspan
  cases hliteral : beginsLiteral text more with
  | true =>
    obtain ⟨quote, cs, rfl, hquote, -⟩ := exists_of_beginsLiteral hliteral
    have hword' : s'.word = s'.stringLiteral text quote (cs ++ w.behind) :=
      word_literal hspan' hliteral
    rw [word_literal hspan hliteral] at hissues ⊢
    rw [hword']
    exact h.follows_stringLiteral hsevers text hissues hquote
  | false =>
    -- nor does the name become the prefix of a literal, for no quote is behind it
    have hliteral' : beginsLiteral text (more ++ w.behind) = false := by
      cases more with
      | cons c more => exact hliteral
      | nil =>
        cases hbehind : w.behind with
        | nil => rfl
        | cons c behind =>
          obtain ⟨-, hquote, happly⟩ := hsevers.endsWord c (by rw [hbehind]; rfl)
          simp [beginsLiteral, hquote, happly]
    rw [word_name hspan hliteral, word_name hspan' hliteral']
    obtain ⟨-, hopen, hclose, -⟩ := wordKind_spec text
    exact ⟨h.emit_plain ⟨hopen, hclose⟩ _ _, rfl⟩

/-- So are punctuation marks and brackets. -/
theorem follows_punctuation (h : Around w s s') (hsevers : Severs w.behind)
    (hissues : (s.punctuation c cs).issues = []) :
    Follows w (s.punctuation c cs) s' (s'.punctuation c (cs ++ w.behind)) := by
  obtain ⟨text, kind, rest, depth, hbegins, hdepth, heq⟩ := punctuation_eq hissues
  have hbegins' : BeginsWith (c :: (cs ++ w.behind)) text kind (rest ++ w.behind) := by
    refine ⟨(hsevers.find?_operators c cs).trans hbegins.found, ?_⟩
    rw [← List.cons_append, hbegins.cut, List.append_assoc]
  have hdepth' := TokenKind.depthBehind?_add w.depth hdepth
  rw [← h.depth] at hdepth'
  rw [heq, punctuation_of_beginsWith hbegins' hdepth']
  exact ⟨h.emit hdepth text _, rfl⟩

/-- No comment begins in a text of one line that ends outside brackets, if none is read. -/
theorem ne_hash_of_token (hs : s.rest = c :: cs) (hgap : isGap c = false)
    (hline : ∀ d ∈ c :: cs, isLineBreak d = false) (hstep : s.token = some next)
    (hcomment : ∀ t ∈ next.tokens, t.kind ≠ .comment) (hclosed : next.rest = [] → next.depth = 0) :
    c ≠ '#' := by
  rintro rfl
  rw [Lexer.token_cons hs hgap, if_neg (by simp [hline]), if_pos rfl] at hstep
  by_cases hdepth : s.depth = 0
  · rw [if_pos hdepth] at hstep
    obtain rfl := Option.some.inj hstep
    exact hcomment _ List.mem_cons_self rfl
  · -- the comment would go on to the end of the text, and a bracket would stay open
    rw [if_neg hdepth] at hstep
    obtain rfl := Option.some.inj hstep
    refine hdepth (hclosed ?_)
    show (spanLine ('#' :: cs)).2 = []
    rw [spanLine, List.span_eq_takeWhile_dropWhile]
    exact List.dropWhile_eq_nil_iff.mpr fun d hd => by simp [hline d hd]

/-- No line is continued in a text of one line. -/
theorem ne_backslash_of_token (hs : s.rest = c :: cs) (hgap : isGap c = false)
    (hline : ∀ d ∈ c :: cs, isLineBreak d = false) (hstep : s.token = some next)
    (hissues : next.issues = []) : c ≠ '\\' := by
  rintro rfl
  rw [Lexer.token_cons hs hgap, if_neg (by simp [hline]), if_neg (by decide), if_pos rfl,
    if_pos (isEmpty_spanLineBreak fun d hd => hline d (List.mem_cons_of_mem _ hd))] at hstep
  obtain rfl := Option.some.inj hstep
  cases hissues

/-- A token that begins with the next character is read alike. -/
theorem token_follows_cons (h : Around w s s') (hsevers : Severs w.behind) (hs : s.rest = c :: cs)
    (hgap : isGap c = false) (hline : ∀ d ∈ c :: cs, isLineBreak d = false)
    (hstep : s.token = some next) (hissues : next.issues = [])
    (hcomment : ∀ t ∈ next.tokens, t.kind ≠ .comment) (hclosed : next.rest = [] → next.depth = 0) :
    ∃ next', s'.token = some next' ∧ Follows w next s' next' := by
  have hs' : s'.rest = c :: (cs ++ w.behind) := by rw [h.rest, hs, List.cons_append]
  have hbreak : ¬ isLineBreak c = true := by simp [hline c List.mem_cons_self]
  have hhash : c ≠ '#' := ne_hash_of_token hs hgap hline hstep hcomment hclosed
  have hslash : c ≠ '\\' := ne_backslash_of_token hs hgap hline hstep hissues
  rw [Lexer.token_cons hs hgap, if_neg hbreak, if_neg hhash, if_neg hslash] at hstep
  rw [Lexer.token_cons hs' hgap, if_neg hbreak, if_neg hhash, if_neg hslash,
    hsevers.head?_any_isDigit]
  -- the same branch is taken, and in each the surroundings stay behind
  by_cases hquote : (c = '"' || c = '\'') = true
  · rw [if_pos hquote] at hstep ⊢
    obtain rfl := Option.some.inj hstep
    exact ⟨_, rfl, h.follows_stringLiteral hsevers [] hissues (by simpa using hquote)⟩
  rw [if_neg hquote] at hstep ⊢
  by_cases hnumber : (c.isDigit || (c = '.' && cs.head?.any Char.isDigit)) = true
  · rw [if_pos hnumber] at hstep ⊢
    obtain rfl := Option.some.inj hstep
    exact ⟨_, rfl, h.follows_number hsevers c cs⟩
  rw [if_neg hnumber] at hstep ⊢
  by_cases hname : isNameStart c = true
  · rw [if_pos hname] at hstep ⊢
    obtain rfl := Option.some.inj hstep
    exact ⟨_, rfl, h.follows_word hsevers hissues⟩
  · rw [if_neg hname] at hstep ⊢
    obtain rfl := Option.some.inj hstep
    exact ⟨_, rfl, h.follows_punctuation hsevers hissues⟩

/-- **A step in a text is one among its surroundings**, when the text is one line that closes its
    brackets. -/
theorem exists_token (h : Around w s s') (hsevers : Severs w.behind)
    (hline : ∀ d ∈ s.rest, isLineBreak d = false) (hstep : s.token = some next)
    (hissues : next.issues = []) (hcomment : ∀ t ∈ next.tokens, t.kind ≠ .comment)
    (hclosed : next.rest = [] → next.depth = 0) :
    ∃ next', s'.token = some next' ∧ Follows w next s' next' := by
  obtain ⟨-, gap, text, hreads⟩ := reads_token hstep hissues
  obtain ⟨c, more, rfl⟩ := List.exists_cons_of_ne_nil hreads.ne_nil
  have hgap : ∀ d ∈ (c :: (more ++ next.rest)).head?, isGap d = false := by
    simpa using hreads.head c rfl
  have hs : s.rest = gap ++ c :: (more ++ next.rest) := hreads.rest
  have hs' : s'.rest = gap ++ (c :: (more ++ next.rest) ++ w.behind) := by
    rw [h.rest, hs, List.append_assoc]
  rw [← token_skip hs hreads.blanks hgap] at hstep
  rw [← token_skip hs' hreads.blanks (by simpa using hgap)]
  obtain ⟨next', hstep', haround, hsame⟩ := (h.skip gap _).token_follows_cons hsevers rfl
    (hgap c rfl) (fun d hd => hline d (by rw [hs]; exact List.mem_append_right _ hd)) hstep hissues
    hcomment hclosed
  exact ⟨next', hstep', haround, hsame⟩

end Around

/-! ### The walk -/

/-- Nothing is read at the end of the text. -/
theorem step_of_rest_eq_nil (h : s.rest = []) : s.step = none := by
  unfold step
  split
  · simp [lineStart, spanIndent, skip, h]
  · simp [token, skip, h]

variable {last : Lexer}

/-- Of a text without ends of lines, only parts of a statement and comments are read. -/
theorem Steps.content_or_comment (h : Steps s last) (hissues : last.issues = [])
    (hinLine : s.atLineStart = false) (hline : ∀ c ∈ s.rest, isLineBreak c = false) :
    last.atLineStart = false ∧ ∃ new, last.tokens = new ++ s.tokens ∧
      ∀ t ∈ new, t.kind.isContent = true ∨ t.kind = .comment := by
  induction h with
  | refl => exact ⟨hinLine, [], rfl, by simp⟩
  | @tail a b hsteps hstep ih =>
    have hissues' := issues_of_step hstep hissues
    obtain ⟨hinLine', new, htokens, hnew⟩ := ih hissues'
    have htoken : a.token = some b := by rwa [step, if_neg (by simp [hinLine'])] at hstep
    obtain ⟨-, gap, text, hreads⟩ := reads_token htoken hissues
    have hone : ∀ t, (t.kind.isContent = true ∨ t.kind = .comment) → b.tokens = t :: a.tokens →
        ∃ new, b.tokens = new ++ s.tokens ∧ ∀ t ∈ new, t.kind.isContent = true ∨ t.kind = .comment :=
      fun t ht heq => ⟨t :: new, by rw [heq, htokens, List.cons_append],
        List.forall_mem_cons.mpr ⟨ht, hnew⟩⟩
    cases hreads.effect with
    | content kind hkind heq hstart => exact ⟨hstart.trans hinLine', hone _ (.inl hkind) heq⟩
    | comment _ _ heq hstart => exact ⟨hstart.trans hinLine', hone _ (.inr rfl) heq⟩
    | nothing _ heq hstart => exact ⟨hstart.trans hinLine', new, heq.trans htokens, hnew⟩
    | newline _ hbreaks =>
      -- the end of a line would be a part of the text
      obtain ⟨c, hc⟩ := List.exists_mem_of_ne_nil text hreads.ne_nil
      obtain ⟨_, hgrows⟩ := Steps.grows hsteps hissues'
      obtain ⟨done, hdone, -⟩ := hgrows.rest
      have hno := hline c (by simp [hdone, hreads.rest, hc])
      rw [hbreaks c hc] at hno
      cases hno

/-- **A walk over a text is one among its surroundings**, when the text is one line without a comment
    and closes its brackets. -/
theorem Around.exists_steps (h : Around w s s') (hsevers : Severs w.behind)
    (hline : ∀ d ∈ s.rest, isLineBreak d = false) (hissues' : s'.issues = [])
    (hsteps : Steps s last) (hissues : last.issues = [])
    (hcomment : ∀ t ∈ last.tokens, t.kind ≠ .comment) (hdepth : last.depth = 0) :
    ∃ last', Steps s' last' ∧ Around w last last' ∧ last'.issues = [] ∧
      last'.indents = s'.indents := by
  induction hsteps using Relation.ReflTransGen.head_induction_on generalizing s' with
  | refl => exact ⟨s', .refl, h, hissues', rfl⟩
  | @head a b hstep hsteps ih =>
    have htoken : a.token = some b := by rwa [step, if_neg (by simp [h.inLine])] at hstep
    obtain ⟨new, hgrows⟩ := Steps.grows hsteps hissues
    -- where a step has read all, it is the last one
    have hclosed : b.rest = [] → b.depth = 0 := by
      intro hrest
      rw [← Steps.eq_of_last hsteps (step_of_rest_eq_nil hrest)]
      exact hdepth
    obtain ⟨b', hstep', haround, hsame⟩ := h.exists_token hsevers hline htoken
      (Steps.issues hsteps hissues)
      (fun t ht => hcomment t (by rw [hgrows.tokens]; exact List.mem_append_right _ ht)) hclosed
    have hb' : b'.issues = [] := hsame.trans hissues'
    obtain ⟨-, gap, text, hreads⟩ := reads_token hstep' hb'
    obtain ⟨-, gap₀, text₀, hreads₀⟩ := reads_token htoken (Steps.issues hsteps hissues)
    obtain ⟨last', hlast', hresult, hclean, hindents⟩ := ih haround
      (fun d hd => hline d (by simp [hreads₀.rest, hd])) hb'
    have hs' : s'.step = some b' := by rw [step, if_neg (by simp [h.inLine']), hstep']
    exact ⟨last', .head hs' hlast', hresult, hclean, hindents.trans hreads.indents⟩

end Lexer

/-! ### Texts that are expressions -/

/-- The text is one expression of the modelled language, on one line and without blanks around it. -/
structure IsExpression (text : String) : Prop where
  read : (Expr.parse? text).isSome = true
  oneLine : ∀ c ∈ text.toList, isLineBreak c = false
  first : ∀ c ∈ text.toList.head?, isGap c = false ∧ c.toNat ≠ 0xfeff
  last : ∀ c ∈ text.toList.getLast?, isGap c = false

/-- A text is an expression of its own when it parses, keeps to one line and has no blanks at its
    ends. -/
theorem isExpression_iff (text : String) : IsExpression text ↔ (Expr.parse? text).isSome = true ∧
    (text.toList.all fun c => !isLineBreak c) = true ∧
    (text.toList.head?.all fun c => !isGap c && c.toNat != 0xfeff) = true ∧
    (text.toList.getLast?.all fun c => !isGap c) = true := by
  simp only [List.all_eq_true, Option.all_eq_true, Bool.and_eq_true, Bool.not_eq_true',
    bne_iff_ne]
  exact ⟨fun h => ⟨h.read, h.oneLine, h.first, h.last⟩, fun h => ⟨h.1, h.2.1, h.2.2.1, h.2.2.2⟩⟩

instance (text : String) : Decidable (IsExpression text) :=
  decidable_of_iff _ (isExpression_iff text).symm

theorem IsExpression.ne_nil {text : String} (h : IsExpression text) : text.toList ≠ [] := by
  intro hnil
  obtain rfl : text = "" := String.toList_eq_nil_iff.mp hnil
  exact absurd h.read (by decide)

namespace Lexer

/-- Two ways to cut tokens where the parts of a statement end. -/
theorem eq_of_append_eq {ts us after marks : List Token} {t : Token}
    (h : us ++ marks = ts ++ t :: after) (hts : ∀ u ∈ ts, u.kind.isContent = true)
    (ht : t.kind.isContent = false ∧ t.kind ≠ .comment)
    (hus : ∀ u ∈ us, u.kind.isContent = true ∨ u.kind = .comment)
    (hmarks : ∀ u ∈ marks, u.kind.isContent = false) : us = ts := by
  -- if one were longer, `t` or one of `marks` would be a part of the statement
  obtain ⟨_ | ⟨u, mid⟩, hts', hmid⟩ | ⟨_ | ⟨u, mid⟩, hus', hmid⟩ := List.append_eq_append_iff.mp h
  · rw [hts', List.append_nil]
  · have hcontent := hts u (by simp [hts'])
    rw [hmarks u (by simp [hmid])] at hcontent
    cases hcontent
  · rw [hus', List.append_nil]
  · obtain ⟨rfl, -⟩ := List.cons.inj hmid
    rcases hus t (by simp [hus']) with hcontent | hcomment
    · rw [ht.1] at hcontent
      cases hcontent
    · exact absurd hcomment ht.2

/-- A line that does not begin with a comment is walked over from its first character on. -/
theorem start_step_or_comment {c : Char} {cs : List Char} (hgap : isGap c = false)
    (hmark : c.toNat ≠ 0xfeff) (hline : ∀ d ∈ c :: cs, isLineBreak d = false) :
    (start (c :: cs)).step = some { rest := c :: cs, atLineStart := false } ∨
      ∃ s blank comment, (start (c :: cs)).step = some s ∧ s.tokens = [blank, comment] ∧
        comment.kind = .comment := by
  obtain ⟨hbreak, hbreaks⟩ := List.forall_mem_cons.mp hline
  have hstart : start (c :: cs) = { rest := c :: cs } := if_neg hmark
  have hindent : spanIndent 0 (c :: cs) = (0, [], c :: cs) := by
    rcases spanIndent_cons 0 c cs with ⟨hblank, -⟩ | ⟨-, heq⟩
    · rw [hgap] at hblank
      cases hblank
    · exact heq
  rw [hstart]
  -- a line without a line break may still be a comment, which is a token of its own
  by_cases hhash : c = '#'
  · subst hhash
    refine .inr ⟨(comment { rest := '#' :: cs }).blankLine, _, _, ?_, rfl, rfl⟩
    simp [step, lineStart, hindent, skip, hbreak, Text.byteLength]
  · refine .inl ?_
    simp [step, lineStart, hindent, skip, hbreak, hhash,
      List.isEmpty_iff.mp (isEmpty_spanLineBreak hbreaks), indentTo, Text.byteLength]

/-- The walk over a line that does not begin with a comment goes on from its first character. -/
theorem Steps.of_start {c : Char} {cs : List Char} {last : Lexer} (h : Steps (start (c :: cs)) last)
    (hend : last.step = none) (hissues : last.issues = []) (hgap : isGap c = false)
    (hmark : c.toNat ≠ 0xfeff) (hline : ∀ d ∈ c :: cs, isLineBreak d = false)
    (hfirst : ∀ t ∈ last.tokens.reverse.head?, t.kind ≠ .comment) :
    Steps { rest := c :: cs, atLineStart := false } last := by
  have hstart := start_step_or_comment hgap hmark hline
  rcases Relation.ReflTransGen.cases_head h with rfl | ⟨s, hstep, hsteps⟩
  · rcases hstart with hstep | ⟨s, -, -, hstep, -⟩ <;>
      · rw [hend] at hstep
        cases hstep
  rcases hstart with hline | ⟨s', blank, comment, hcomment, hs', hkind⟩
  · obtain rfl := Option.some.inj (hline.symm.trans hstep)
    exact hsteps
  · obtain rfl := Option.some.inj (hcomment.symm.trans hstep)
    obtain ⟨new, hgrows⟩ := Steps.grows hsteps hissues
    exact absurd hkind (hfirst comment (by simp [hgrows.tokens, hs']))

/-- Nothing is left behind the last step in a text that does not end with a blank. -/
theorem Steps.rest_eq_nil {s last : Lexer} (h : Steps s last) (hend : last.step = none) (hissues : last.issues = [])
    (hlast : ∀ c ∈ s.rest.getLast?, isGap c = false) : last.rest = [] := by
  obtain ⟨_, hgrows⟩ := Steps.grows h hissues
  obtain ⟨done, hdone, -⟩ := hgrows.rest
  by_contra hne
  obtain ⟨d, hd⟩ := Option.ne_none_iff_exists'.mp (mt List.getLast?_eq_none_iff.mp hne)
  have hgap := hlast d (by
    rw [hdone, Option.mem_def, List.getLast?_append, hd, Option.some_or])
  rw [isGap_of_step_eq_none hend d (List.mem_of_getLast? hd)] at hgap
  cases hgap

/-- The walk over a text that is an expression, on its own. -/
theorem exists_walk_of_isExpression {text : String} {e : Expr} (h : IsExpression text)
    (hparse : Expr.parse? text = some e) :
    ∃ last, Steps { rest := text.toList, atLineStart := false } last ∧ last.rest = [] ∧
      last.issues = [] ∧ last.depth = 0 ∧ (∀ t ∈ last.tokens.reverse, t ∈ (tokenize text).1) ∧
      Expr.Parses (.read e) last.tokens.reverse := by
  obtain ⟨hissues, ts, t, after, htokens, hparses, ht⟩ := Expr.exists_of_parse? hparse
  obtain ⟨-, hend, hclean, marks, hmarks, haside⟩ := tokenize_walked hissues
  have hmem : ∀ u ∈ (walked text.toList).tokens.reverse, u ∈ (tokenize text).1 := fun u hu => by
    rw [hmarks]
    exact List.mem_append_left _ hu
  have hdepth : (walked text.toList).depth = 0 := by
    rw [tokenize_eq, List.reverse_eq_nil_iff] at hissues
    exact (finish_eq hissues).2.2
  rw [hmarks] at htokens
  -- a comment in front is not a part of the expression
  have hfirst : ∀ u ∈ (walked text.toList).tokens.reverse.head?, u.kind ≠ .comment := by
    intro u hu
    have hhead : (ts ++ t :: after).head? = some u := by
      rw [← htokens, List.head?_append, Option.mem_def.mp hu, Option.some_or]
    cases ts with
    | nil =>
      obtain rfl := Option.some.inj hhead
      exact ht.2
    | cons v ts =>
      obtain rfl := Option.some.inj hhead
      intro hkind
      have hcontent := hparses.isContent v List.mem_cons_self
      rw [hkind] at hcontent
      cases hcontent
  have hsteps : Steps { rest := text.toList, atLineStart := false } (walked text.toList) := by
    obtain ⟨c, cs, hcs⟩ := List.exists_cons_of_ne_nil h.ne_nil
    obtain ⟨hgap, hmark⟩ := h.first c (by rw [hcs]; rfl)
    have hline := h.oneLine
    rw [hcs] at hline hend hclean hfirst ⊢
    exact Steps.of_start (Steps.run _ _) hend hclean hgap hmark hline hfirst
  obtain ⟨-, new, hnew, hkinds⟩ := Steps.content_or_comment hsteps hclean rfl h.oneLine
  have hts : (walked text.toList).tokens.reverse = ts :=
    eq_of_append_eq htokens hparses.isContent ht
      (fun u hu => hkinds u (by simpa [hnew] using hu)) fun u hu => (haside u hu).1
  exact ⟨walked text.toList, hsteps, Steps.rest_eq_nil hsteps hend hclean h.last, hclean, hdepth,
    hmem, hts ▸ hparses⟩

end Lexer

/-! ### How an expression begins -/

/-- No expression begins with an `=`. -/
theorem IsExpression.head?_ne_equals {text : String} (h : IsExpression text) :
    text.toList.head? ≠ some '=' := by
  intro hhead
  obtain ⟨cs, hcs⟩ := List.head?_eq_some_iff.mp hhead
  obtain ⟨e, hparse⟩ := Option.isSome_iff_exists.mp h.read
  obtain ⟨last, hsteps, -, hclean, -, -, hparses⟩ := Lexer.exists_walk_of_isExpression h hparse
  obtain ⟨t, ts, htokens, hstarts, -⟩ := hparses.begins
  rw [hcs] at hsteps
  rcases Relation.ReflTransGen.cases_head hsteps with heq | ⟨s, hstep, hmore⟩
  · rw [← heq] at htokens
    cases htokens
  · -- the first token is an operator
    have hkinds : ∀ op ∈ operators, op.1.head?.all (· == '=') = true → op.2.startsExpr = false := by
      decide
    obtain ⟨new, hgrows⟩ := Lexer.Steps.grows hmore hclean
    have htoken := hstep
    rw [Lexer.step, if_neg (by simp), Lexer.token_cons rfl (by decide), if_neg (by decide),
      if_neg (by decide), if_neg (by decide), if_neg (by decide), if_neg (by simp),
      if_neg (by decide)] at htoken
    obtain rfl := Option.some.inj htoken
    obtain ⟨op, kind, behind, depth, hbegins, -, heq⟩ :=
      Lexer.punctuation_eq (Lexer.Steps.issues hmore hclean)
    have hop : op.head?.all (· == '=') = true := by
      rw [Option.all_eq_true]
      intro c hc
      obtain ⟨op', rfl⟩ := List.head?_eq_some_iff.mp hc
      exact beq_iff_eq.mpr (List.cons.inj hbegins.cut).1.symm
    rw [hgrows.tokens, heq] at htokens
    simp only [Lexer.emit, Lexer.skip, List.reverse_append, List.reverse_cons, List.reverse_nil,
      List.nil_append, List.cons_append] at htokens
    rw [← (List.cons.inj htokens).1, hkinds _ (List.mem_of_find?_eq_some hbegins.found) hop] at hstarts
    cases hstarts

namespace Lexer

/-- From `s` to `s'` the tokens `ts` are read.  Behind them stand `cs`, and `depth` brackets are
    open. -/
structure Walks (s : Lexer) (ts : List Token) (cs : List Char) (depth : Nat) (s' : Lexer) : Prop where
  steps : Steps s s'
  rest : s'.rest = cs
  depth : s'.depth = depth
  indents : s'.indents = s.indents
  inLine : s'.atLineStart = false
  issues : s'.issues = []
  tokens : s'.tokens = ts.reverse ++ s.tokens

namespace Walks

variable {s s' s'' : Lexer} {ts us : List Token} {cs cs' : List Char} {depth depth' : Nat}

/-- One stretch behind another. -/
theorem trans (h : s.Walks ts cs depth s') (h' : s'.Walks us cs' depth' s'') :
    s.Walks (ts ++ us) cs' depth' s'' := by
  refine ⟨h.steps.trans h'.steps, h'.rest, h'.depth, h'.indents.trans h.indents, h'.inLine,
    h'.issues, ?_⟩
  rw [h'.tokens, h.tokens, List.reverse_append, List.append_assoc]

/-- Blanks in front of a stretch are passed over with its first token. -/
theorem of_skip {blanks : List Char} {c : Char} (hrest : s.rest = blanks ++ c :: cs)
    (hinLine : s.atLineStart = false) (hgap : ∀ c ∈ blanks, isGap c = true) (hc : isGap c = false)
    (h : (s.skip blanks (c :: cs)).Walks ts cs' depth s') (hne : cs' ≠ c :: cs) :
    s.Walks ts cs' depth s' := by
  refine ⟨?_, h.rest, h.depth, h.indents, h.inLine, h.issues, h.tokens⟩
  rcases Relation.ReflTransGen.cases_head h.steps with heq | ⟨s₁, hstep, hmore⟩
  · exact absurd (by rw [← h.rest, ← heq]; rfl) hne
  · refine .head (?_ : s.step = some s₁) hmore
    rw [Lexeme.step_of_line hinLine, ← token_skip hrest hgap (by simpa using hc)]
    rwa [Lexeme.step_of_line (show (s.skip blanks (c :: cs)).atLineStart = false from hinLine)]
      at hstep

/-- As many bytes are passed over as the text has. -/
theorem offset_eq (h : s.Walks ts cs depth s') {text : List Char} (hrest : s.rest = text ++ cs) :
    s'.offset = s.offset + Text.byteLength text := by
  obtain ⟨_, hgrows⟩ := Steps.grows h.steps h.issues
  obtain ⟨done, hdone, hoffset⟩ := hgrows.rest
  rw [hrest, h.rest] at hdone
  rw [hoffset, List.append_cancel_right hdone]

end Walks

/-- **The walk over a text that is an expression, wherever it stands**, if it is severed from what is
    behind it: the tokens are those of the text, as far behind as it stands. -/
theorem exists_walks_of_parse? {text : String} {e : Expr} (h : IsExpression text)
    (hparse : Expr.parse? text = some e) :
    ∃ us, Expr.Parses (.read e) us ∧ (∀ u ∈ us, u ∈ (tokenize text).1) ∧
      ∀ {behind : List Char} {s : Lexer}, Severs behind → s.rest = text.toList ++ behind →
        s.atLineStart = false → s.issues = [] →
        ∃ s', s.Walks (us.map (Token.mapSpan (Span.shift s.offset))) behind s.depth s' := by
  obtain ⟨last, hsteps, hend, hclean, hdepth, hmem, hparses⟩ :=
    exists_walk_of_isExpression h hparse
  refine ⟨last.tokens.reverse, hparses, hmem, fun {behind s} hsevers hrest hinLine hissues => ?_⟩
  -- the walk over the text alone is in step with the walk that has read what is in front
  have haround : Around ⟨s.offset, s.depth, s.tokens, behind⟩
      { rest := text.toList, atLineStart := false } s :=
    ⟨hrest, (Nat.zero_add _).symm, (Nat.zero_add _).symm, rfl, rfl, hinLine, rfl, rfl⟩
  have hcomment : ∀ t ∈ last.tokens, t.kind ≠ .comment := by
    intro t ht hkind
    have hcontent := hparses.isContent t (List.mem_reverse.mpr ht)
    rw [hkind] at hcontent
    cases hcontent
  obtain ⟨last', hsteps', hresult, hclean', hindents⟩ :=
    haround.exists_steps hsevers h.oneLine hissues hsteps hclean hcomment hdepth
  refine ⟨last', hsteps', ?_, ?_, hindents, hresult.inLine', hclean', ?_⟩
  · rw [hresult.rest, hend, List.nil_append]
  · rw [hresult.depth, hdepth, Nat.zero_add]
  · rw [hresult.tokens, List.map_reverse, List.reverse_reverse]

/-- The tokens of a text that is an expression are an expression, wherever it stands. -/
theorem exists_walks_of_isExpression {text : String} (h : IsExpression text) {behind : List Char}
    (hsevers : Severs behind) {s : Lexer} (hrest : s.rest = text.toList ++ behind)
    (hinLine : s.atLineStart = false) (hissues : s.issues = []) :
    ∃ ts s' e, s.Walks ts behind s.depth s' ∧ Expr.Parses (.read e) ts := by
  obtain ⟨e, hparse⟩ := Option.isSome_iff_exists.mp h.read
  obtain ⟨us, hparses, -, hwalks⟩ := exists_walks_of_parse? h hparse
  obtain ⟨s', hwalk⟩ := hwalks hsevers hrest hinLine hissues
  exact ⟨_, s', e.shift s.offset, hwalk, hparses.mapSpan (Span.shift_cover s.offset)⟩

end Lexer

end PackageDoc
