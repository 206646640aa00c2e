import Mathlib.Logic.Relation
import PackageDoc.Proofs.Annotation.Lockstep

namespace PackageDoc

/-!
# The tokens of a part of a text

A part of a text that begins and ends with tokens has these tokens on its own too, when it is one
logical line.

* `Lexer.Steps` and `Lexer.Grows` — some steps of the walk, and what they add;
* `Lexer.Cut` — the walk over a part of a text;
* `IsLine` — a text that is one logical line;
* `Lexer.Cut.tokenize_eq` — the tokens of a part that is one.
-/

/-- A part of a statement does not close the line. -/
theorem TokenKind.closesLine_of_isContent {kind : TokenKind} (h : kind.isContent = true) :
    kind.closesLine = false := by
  cases kind <;> first
    | rfl
    | cases h

namespace Lexer

variable {s s' s'' : Lexer} {new : List Token} {t : Token} {source : List Char}

/-! ### What a step adds -/

/-- From one state to a later one characters are passed over and the tokens `new` are read. -/
structure Grows (s s' : Lexer) (new : List Token) : Prop where
  rest : ∃ text, s.rest = text ++ s'.rest ∧ s'.offset = s.offset + Text.byteLength text
  tokens : s'.tokens = new ++ s.tokens
  starts : ∀ t ∈ new, s.offset ≤ t.span.start

namespace Grows

theorem refl (s : Lexer) : Grows s s [] :=
  ⟨⟨[], rfl, rfl⟩, rfl, by simp⟩

theorem trans {new' : List Token} (h : Grows s s' new) (h' : Grows s' s'' new') :
    Grows s s'' (new' ++ new) := by
  obtain ⟨text, hrest, hoffset⟩ := h.rest
  obtain ⟨text', hrest', hoffset'⟩ := h'.rest
  refine ⟨⟨text ++ text', ?_, ?_⟩, ?_, ?_⟩
  · rw [hrest, hrest', List.append_assoc]
  · rw [hoffset', hoffset, Text.byteLength_append, Nat.add_assoc]
  · rw [h'.tokens, h.tokens, List.append_assoc]
  · refine List.forall_mem_append.mpr ⟨fun t ht => ?_, h.starts⟩
    exact le_trans (by omega) (h'.starts t ht)

/-- A lexer that grows does not go back. -/
theorem offset_le (h : Grows s s' new) : s.offset ≤ s'.offset := by
  obtain ⟨text, -, hoffset⟩ := h.rest
  omega

/-- Characters are passed over. -/
theorem pass {text : List Char} (hrest : s.rest = text ++ s'.rest)
    (hoffset : s'.offset = s.offset + Text.byteLength text) (htokens : s'.tokens = s.tokens) :
    Grows s s' [] :=
  ⟨⟨text, hrest, hoffset⟩, htokens, by simp⟩

/-- Characters are passed over, the last of them as a token. -/
theorem cons {text : List Char} (hrest : s.rest = text ++ s'.rest)
    (hoffset : s'.offset = s.offset + Text.byteLength text) (htokens : s'.tokens = t :: s.tokens)
    (hstart : s.offset ≤ t.span.start) : Grows s s' [t] :=
  ⟨⟨text, hrest, hoffset⟩, htokens, by simpa using hstart⟩

theorem emit (kind : TokenKind) {text rest : List Char} (hrest : s.rest = text ++ rest) :
    Grows s (s.emit kind text rest)
      [⟨kind, ⟨s.offset, s.offset + Text.byteLength text⟩, String.ofList text⟩] :=
  cons hrest rfl rfl (le_refl _)

end Grows

/-- Some steps that add nothing that is a part of a statement. -/
def GrowsAside (s s' : Lexer) : Prop :=
  ∃ new, Grows s s' new ∧ ∀ t ∈ new, t.kind.isContent = false

theorem GrowsAside.trans (h : GrowsAside s s') (h' : GrowsAside s' s'') : GrowsAside s s'' := by
  obtain ⟨new, hgrows, haside⟩ := h
  obtain ⟨new', hgrows', haside'⟩ := h'
  exact ⟨new' ++ new, hgrows.trans hgrows', List.forall_mem_append.mpr ⟨haside', haside⟩⟩

/-- Passing characters without a token adds no content. -/
theorem GrowsAside.pass (text : List Char) (hrest : s.rest = text ++ s'.rest)
    (hoffset : s'.offset = s.offset + Text.byteLength text) (htokens : s'.tokens = s.tokens) :
    GrowsAside s s' :=
  ⟨[], .pass hrest hoffset htokens, by simp⟩

/-- Nor does making a token that is none. -/
theorem GrowsAside.emit {kind : TokenKind} (hkind : kind.isContent = false) {text rest : List Char}
    (hrest : s.rest = text ++ rest) : GrowsAside s (s.emit kind text rest) :=
  ⟨_, .emit kind hrest, by simpa using hkind⟩

/-- Nor does marking one. -/
theorem GrowsAside.mark {kind : TokenKind} (hkind : kind.isContent = false) (s : Lexer) :
    GrowsAside s (s.mark kind) :=
  .emit hkind rfl

/-- Nor does opening and closing blocks. -/
theorem MarksBlocks.growsAside (h : MarksBlocks s s') : GrowsAside s s' := by
  induction h with
  | refl => exact .pass [] rfl rfl rfl
  | @mark s' kind hkind _ ih =>
    refine ih.trans (.mark ?_ s')
    rcases hkind with rfl | rfl <;> rfl
  | columns _ _ ih | mismatch _ ih => exact ih.trans (.pass [] rfl rfl rfl)

/-- The start of a line adds no content. -/
theorem growsAside_lineStart (h : s.lineStart = some s') : GrowsAside s s' := by
  obtain ⟨blanks, c, cs, hcut, -, -, hstep⟩ := exists_lineStep h
  have hskip : GrowsAside s (s.skip blanks (c :: cs)) := .pass _ hcut rfl rfl
  have hblank : ∀ s : Lexer, GrowsAside s s.blankLine := fun s =>
    .emit rfl (spanLineBreak_append s.rest).symm
  refine hskip.trans ?_
  cases hstep with
  | blank => exact hblank _
  | comment => exact (GrowsAside.emit rfl (spanLine_append _).symm).trans (hblank _)
  | joined =>
    exact .pass (c :: (spanLineBreak cs).1) (congrArg (c :: ·) (spanLineBreak_append cs).symm) rfl rfl
  | first =>
    have hinside : GrowsAside (s.skip blanks (c :: cs))
        { s.skip blanks (c :: cs) with atLineStart := false } := .pass [] rfl rfl rfl
    exact hinside.trans (marksBlocks_indentTo _ _).growsAside

/-- Reading something with its gap adds one token at most. -/
theorem Reads.grows {gap text : List Char} (h : Reads s s' gap text) :
    ∃ new, Grows s s' new ∧ new.length ≤ 1 := by
  have hrest : s.rest = (gap ++ text) ++ s'.rest := by rw [h.rest, List.append_assoc]
  have hoffset : s'.offset = s.offset + Text.byteLength (gap ++ text) := by
    rw [h.offset, Text.byteLength_append, Nat.add_assoc]
  cases h.effect with
  | content _ _ htokens | comment _ _ htokens | newline _ _ htokens =>
    exact ⟨_, .cons hrest hoffset htokens (Nat.le_add_right _ _), le_refl _⟩
  | nothing _ htokens => exact ⟨[], .pass hrest hoffset htokens, Nat.zero_le _⟩

/-- A step adds nothing that is a part of a statement, or at most one token, inside a line. -/
theorem grows_step (h : s.step = some s') (hissues : s'.issues = []) :
    GrowsAside s s' ∨ (s.token = some s' ∧ ∃ new, Grows s s' new ∧ new.length ≤ 1) := by
  unfold step at h
  split at h
  · exact .inl (growsAside_lineStart h)
  · obtain ⟨-, gap, text, hreads⟩ := reads_token h hissues
    exact .inr ⟨h, hreads.grows⟩

/-- Every step that reports nothing grows by what it adds. -/
theorem exists_grows (h : s.step = some s') (hissues : s'.issues = []) : ∃ new, Grows s s' new := by
  rcases grows_step h hissues with ⟨new, hgrows, -⟩ | ⟨-, new, hgrows, -⟩ <;> exact ⟨new, hgrows⟩

/-! ### Some steps -/

/-- Some steps of the walk. -/
abbrev Steps : Lexer → Lexer → Prop :=
  Relation.ReflTransGen fun s s' => s.step = some s'

namespace Steps

/-- A run takes steps. -/
theorem run (n : Nat) (s : Lexer) : Steps s (run n s) := by
  induction n generalizing s with
  | zero => exact .refl
  | succ n ih =>
    rw [Lexer.run]
    split
    · exact .refl
    · exact .head ‹_› (ih _)

/-- Of two stages of one run, one comes first. -/
theorem total (h : Steps s s') (h' : Steps s s'') : Steps s' s'' ∨ Steps s'' s' :=
  Relation.ReflTransGen.total_of_right_unique
    (fun _ _ _ hstep hstep' => Option.some.inj (hstep.symm.trans hstep')) h h'

/-- Behind the last stage there is no other. -/
theorem eq_of_last (h : Steps s s') (hlast : s.step = none) : s' = s := by
  rcases Relation.ReflTransGen.cases_head h with rfl | ⟨s₁, hstep, -⟩
  · rfl
  · rw [hlast] at hstep
    cases hstep

/-- Where there is no further step, every other way there has led. -/
theorem to_last (h : Steps s s') (hlast : s'.step = none) (h' : Steps s s'') : Steps s'' s' := by
  rcases h.total h' with h | h
  · rw [h.eq_of_last hlast]
  · exact h

/-- A stage reports no more than the later ones. -/
theorem issues (h : Steps s s') (hissues : s'.issues = []) : s.issues = [] := by
  induction h with
  | refl => exact hissues
  | tail _ hstep ih => exact ih (issues_of_step hstep hissues)

/-- Tokens that are laid out in a source stay so along a run without issues. -/
theorem laid (h : Steps s s') (hs : s.Laid source) (hissues : s'.issues = []) : s'.Laid source := by
  induction h with
  | refl => exact hs
  | tail _ hstep ih => exact (laid_step (ih (issues_of_step hstep hissues)) hstep hissues).1

/-- A whole run without issues grows by what it adds. -/
theorem grows (h : Steps s s') (hissues : s'.issues = []) : ∃ new, Grows s s' new := by
  induction h with
  | refl => exact ⟨[], .refl s⟩
  | tail _ hstep ih =>
    obtain ⟨new, hgrows⟩ := ih (issues_of_step hstep hissues)
    obtain ⟨new', hgrows'⟩ := exists_grows hstep hissues
    exact ⟨new' ++ new, hgrows.trans hgrows'⟩

/-- The step from a place comes before any place on the walk with more tokens. -/
theorem of_tokens_lt {a b d : Lexer} (ha : Steps s a) (hab : a.step = some b) (hd : Steps s d)
    (hissues : a.issues = []) (hlt : a.tokens.length < d.tokens.length) : Steps b d := by
  rcases ha.total hd with had | hda
  · rcases Relation.ReflTransGen.cases_head had with rfl | ⟨b', hab', hbd⟩
    · exact absurd hlt (lt_irrefl _)
    · rwa [Option.some.inj (hab.symm.trans hab')]
  · obtain ⟨new, hgrows⟩ := hda.grows hissues
    rw [hgrows.tokens, List.length_append] at hlt
    omega

/-- A part of a statement was read by a step inside a line. -/
theorem exists_token {later earlier : List Token} (h : Steps s s') (hissues : s'.issues = [])
    (htokens : s'.tokens = later ++ t :: earlier) (ht : t.kind.isContent = true)
    (hs : s.tokens.length ≤ earlier.length) :
    ∃ a b, Steps s a ∧ a.step = some b ∧ Steps b s' ∧ a.token = some b ∧ a.tokens = earlier ∧
      b.tokens = t :: earlier := by
  induction h generalizing later with
  | refl =>
    have hlength := congrArg List.length htokens
    rw [List.length_append, List.length_cons] at hlength
    omega
  | @tail b c hsteps hstep ih =>
    have hissues' := issues_of_step hstep hissues
    -- either the token was there before the last step, or that step read it
    have hbefore : ∀ {mid}, b.tokens = mid ++ t :: earlier → ∃ a b, Steps s a ∧ a.step = some b ∧
        Steps b c ∧ a.token = some b ∧ a.tokens = earlier ∧ b.tokens = t :: earlier := by
      intro mid hmid
      obtain ⟨a, a', hsa, hstep', hsteps', hrest⟩ := ih hissues' hmid
      exact ⟨a, a', hsa, hstep', hsteps'.tail hstep, hrest⟩
    have hsplit : ∀ {new}, Grows b c new → (∃ mid, b.tokens = mid ++ t :: earlier) ∨
        ∃ more, new = later ++ t :: more ∧ earlier = more ++ b.tokens := by
      intro new hgrows
      rw [hgrows.tokens] at htokens
      obtain ⟨mid, hlater, hb⟩ | ⟨mid, hnew, hb⟩ := List.append_eq_append_iff.mp htokens
      · exact .inl ⟨mid, hb⟩
      · cases mid with
        | nil => exact .inl ⟨[], hb.symm⟩
        | cons u more =>
          obtain ⟨rfl, hmore⟩ := List.cons.inj hb
          exact .inr ⟨more, hnew, hmore⟩
    rcases grows_step hstep hissues with ⟨new, hgrows, haside⟩ | ⟨htoken, new, hgrows, hone⟩
    · obtain ⟨mid, hmid⟩ | ⟨more, rfl, -⟩ := hsplit hgrows
      · exact hbefore hmid
      · have hcontent := haside t (by simp)
        rw [ht] at hcontent
        cases hcontent
    · obtain ⟨mid, hmid⟩ | ⟨more, rfl, hearlier⟩ := hsplit hgrows
      · exact hbefore hmid
      · rw [List.length_append, List.length_cons] at hone
        obtain rfl := List.length_eq_zero_iff.mp (show more.length = 0 by omega)
        obtain rfl := List.length_eq_zero_iff.mp (show later.length = 0 by omega)
        exact ⟨b, c, hsteps, hstep, .refl, htoken, hearlier.symm, htokens⟩

end Steps

/-! ### The walk over a part of a text -/

/-- What is read of a part of a statement. -/
theorem Reads.span_eq {gap text : List Char} (h : Reads s s' gap text)
    (htokens : s'.tokens = t :: s.tokens) (ht : t.kind.isContent = true) :
    t.span = ⟨s.offset + Text.byteLength gap, s'.offset⟩ := by
  cases h.effect with
  | content _ _ heq =>
    rw [htokens] at heq
    rw [(List.cons.inj heq).1]
  | comment _ _ heq | newline _ _ heq =>
    rw [htokens] at heq
    rw [(List.cons.inj heq).1] at ht
    cases ht
  | nothing _ heq =>
    rw [htokens] at heq
    exact absurd heq (List.cons_ne_self _ _)

/-- The first character of a part of a statement. -/
theorem startsToken_of_token {c : Char} {cs : List Char} (hrest : s.rest = c :: cs)
    (hgap : isGap c = false) (h : s.token = some s') (htokens : s'.tokens = t :: s.tokens)
    (ht : t.kind.isContent = true) : Lexeme.startsToken c = true := by
  rw [token_cons hrest hgap] at h
  have hother : ∀ {kind : TokenKind} {text rest : List Char}, kind.isContent = false →
      (s.emit kind text rest).tokens ≠ t :: s.tokens := by
    intro kind text rest hkind heq
    rw [← (List.cons.inj heq).1] at ht
    rw [hkind] at ht
    cases ht
  have hsame : s.tokens ≠ t :: s.tokens := fun heq => List.cons_ne_self _ _ heq.symm
  -- a line break, a comment and a backslash begin no part of a statement
  have hbreak : isLineBreak c = false := by
    by_contra hbreak
    rw [if_pos (by simpa using hbreak)] at h
    split at h
    · obtain rfl := Option.some.inj h
      exact hother rfl htokens
    · obtain rfl := Option.some.inj h
      exact hsame htokens
  rw [if_neg (by simp [hbreak])] at h
  have hhash : c ≠ '#' := by
    intro hhash
    rw [if_pos hhash] at h
    split at h
    · obtain rfl := Option.some.inj h
      exact hother rfl htokens
    · obtain rfl := Option.some.inj h
      exact hsame htokens
  rw [if_neg hhash] at h
  have hslash : c ≠ '\\' := by
    intro hslash
    rw [if_pos hslash] at h
    obtain rfl := Option.some.inj h
    refine hsame (Eq.trans ?_ htokens)
    dsimp only [skip]
    split <;> rfl
  simp [Lexeme.startsToken, hgap, hbreak, hhash, hslash]

/-- The walk over the part `slice` of a text, the characters of the tokens `core`: from its first
    character on, where the tokens `before` are read, up to those behind it. -/
structure Cut (source slice behind : List Char) (before core : List Token) (s s' : Lexer) : Prop where
  text : ∃ done, source = done ++ (slice ++ behind) ∧ Text.byteLength done = s.offset
  rest : s.rest = slice ++ behind
  rest' : s'.rest = behind
  offset : s'.offset = s.offset + Text.byteLength slice
  steps : Steps s s'
  issues : s'.issues = []
  tokens : s.tokens = before.reverse
  tokens' : s'.tokens = core.reverse ++ before.reverse
  inLine : s.atLineStart = false
  head : ∃ c cs, slice = c :: cs ∧ Lexeme.startsToken c = true

/-- A part of a statement begins no line. -/
theorem Laid.inLine_of_token (hs : s.Laid source) (hstep : s.step = some s')
    (htokens : s'.tokens = t :: s.tokens) (ht : t.kind.isContent = true) :
    s.atLineStart = false := by
  obtain ⟨-, line, -, hphase⟩ := hs
  cases hphase with
  | first hline => exact hline
  | inside _ hline => exact hline
  | lineStart hline hdepth =>
    rw [step, if_pos (by simp [hline, hdepth])] at hstep
    obtain ⟨new, hgrows, haside⟩ := growsAside_lineStart hstep
    have hnew : new = [t] := by
      have htokens' := hgrows.tokens
      rw [htokens, ← List.singleton_append] at htokens'
      exact (List.append_cancel_right htokens').symm
    have hcontent := haside t (by simp [hnew])
    rw [ht] at hcontent
    cases hcontent

/-- What is added at the end of the text. -/
theorem growsAside_finish {stop : Nat} (h : (s.finish stop).issues = []) :
    GrowsAside { s with rest := [], offset := stop } (s.finish stop) := by
  have hline (s : Lexer) : GrowsAside s s.endLine := by
    rcases endLine_eq s with heq | heq <;> rw [heq]
    · exact .pass [] rfl rfl rfl
    · exact .mark rfl s
  rw [(finish_eq h).1]
  exact ((hline _).trans (marksBlocks_endBlocks _).growsAside).trans (.mark rfl _)

/-- The tokens of a text are those read in the walk over it, and others behind them. -/
theorem tokenize_walked {source : String} (h : (tokenize source).2 = []) :
    (walked source.toList).Laid source.toList ∧ (walked source.toList).step = none ∧
      (walked source.toList).issues = [] ∧
      ∃ marks, (tokenize source).1 = (walked source.toList).tokens.reverse ++ marks ∧
        ∀ t ∈ marks, t.kind.isContent = false ∧ Text.byteLength source.toList ≤ t.span.start := by
  rw [tokenize_eq, List.reverse_eq_nil_iff] at h
  have hissues := (finish_eq h).2.1
  obtain ⟨hlaid, hlast⟩ := laid_walked hissues
  obtain ⟨new, hgrows, haside⟩ := growsAside_finish h
  refine ⟨hlaid, hlast, hissues, new.reverse, ?_, fun t ht => ?_⟩
  · rw [tokenize_eq, ← List.reverse_append]
    exact congrArg List.reverse hgrows.tokens
  · rw [List.mem_reverse] at ht
    exact ⟨haside t ht, hgrows.starts t ht⟩

/-- No token of a text stands in front of where the walk over it begins. -/
theorem start_offset_le {source : String} (h : (tokenize source).2 = []) {t : Token}
    (ht : t ∈ (tokenize source).1) : (start source.toList).offset ≤ t.span.start := by
  obtain ⟨hlaid, -, hissues, marks, hmarks, haside⟩ := tokenize_walked h
  obtain ⟨new, hgrows⟩ := (Steps.run _ _).grows hissues
  have hnew : (walked source.toList).tokens = new := by
    rw [← List.append_nil new, ← tokens_start source.toList]
    exact hgrows.tokens
  rw [hmarks, List.mem_append, List.mem_reverse, hnew] at ht
  rcases ht with ht | ht
  · exact hgrows.starts t ht
  · have hle := hgrows.offset_le
    obtain ⟨done, hdone, hlength⟩ := hlaid.text
    have hstop := (haside t ht).2
    rw [hdone, Text.byteLength_append] at hstop
    change (start source.toList).offset ≤ (walked source.toList).offset at hle
    omega

/-- A part of a statement among the tokens of a text was read in the walk over it. -/
theorem exists_token_of_split {source : String} {before after : List Token}
    (h : (tokenize source).2 = []) (htokens : (tokenize source).1 = before ++ t :: after)
    (ht : t.kind.isContent = true) :
    ∃ a b, Steps (start source.toList) a ∧ a.step = some b ∧ Steps b (walked source.toList) ∧
      a.token = some b ∧ a.tokens = before.reverse ∧ b.tokens = t :: before.reverse := by
  obtain ⟨-, -, hissues, marks, hmarks, haside⟩ := tokenize_walked h
  have hnot : t ∉ marks := fun hmem => by
    have hcontent := (haside t hmem).1
    rw [ht] at hcontent
    cases hcontent
  -- the tokens behind the walk only end lines, blocks and the text
  have hlater : ∃ later, (walked source.toList).tokens.reverse = before ++ t :: later := by
    rw [htokens] at hmarks
    obtain ⟨_ | ⟨u, mid⟩, hwalked, hmid⟩ | ⟨mid, -, hmid⟩ := List.append_eq_append_iff.mp hmarks
    · rw [List.nil_append] at hmid
      exact absurd (by simp [← hmid]) hnot
    · obtain ⟨rfl, -⟩ := List.cons.inj hmid
      exact ⟨mid, hwalked⟩
    · exact absurd (by simp [hmid]) hnot
  obtain ⟨later, hlater⟩ := hlater
  have hreverse : (walked source.toList).tokens = later.reverse ++ t :: before.reverse := by
    rw [← List.reverse_reverse (walked source.toList).tokens, hlater]
    simp
  exact (Steps.run _ _).exists_token hissues hreverse ht (by simp [tokens_start])

/-- The place `s` behind the blanks at the place `a`, from where a step to `b` reads the token. -/
structure BehindBlanks (a s b : Lexer) (t : Token) : Prop where
  blanks : ∃ gap, a.rest = gap ++ s.rest ∧ s.offset = a.offset + Text.byteLength gap
  tokens : s.tokens = a.tokens
  inLine : s.atLineStart = false
  step : s.step = some b
  start : t.span.start = s.offset
  lt : s.offset < b.offset
  head : ∃ c cs, s.rest = c :: cs ∧ Lexeme.startsToken c = true

/-- A token of content is read behind the blanks in front of it. -/
theorem exists_behindBlanks {a b : Lexer} (htoken : a.token = some b) (hissues : b.issues = [])
    (hline : a.atLineStart = false) (htokens : b.tokens = t :: a.tokens)
    (ht : t.kind.isContent = true) : ∃ s, BehindBlanks a s b t := by
  obtain ⟨-, gap, text, hreads⟩ := reads_token htoken hissues
  obtain ⟨c, cs, rfl⟩ := List.exists_cons_of_ne_nil hreads.ne_nil
  have hskip : (a.skip gap (c :: cs ++ b.rest)).token = some b :=
    (token_skip hreads.rest hreads.blanks hreads.head).trans htoken
  have hpos := Text.byteLength_pos hreads.ne_nil
  have hoffset := hreads.offset
  refine ⟨a.skip gap (c :: cs ++ b.rest), ⟨gap, hreads.rest, rfl⟩, rfl, hline, ?_,
    congrArg Span.start (hreads.span_eq htokens ht), ?_, c, cs ++ b.rest, rfl, ?_⟩
  · rw [step, if_neg (by simp [skip, hline]), hskip]
  · simp only [skip]
    omega
  · exact startsToken_of_token rfl (hreads.head c rfl) hskip htokens ht

/-- The walk over the characters of some tokens. -/
theorem exists_cut {source : String} {before core after : List Token} {first last : Token}
    (h : (tokenize source).2 = []) (htokens : (tokenize source).1 = before ++ core ++ after)
    (hcore : ∀ t ∈ core, t.kind.isContent = true) (hfirst : first ∈ core.head?)
    (hlast : last ∈ core.getLast?) :
    ∃ slice behind s s', Cut source.toList slice behind before core s s' ∧
      first.span.start = s.offset ∧ last.span.stop = s'.offset := by
  obtain ⟨hlaid, -, hissues, -⟩ := tokenize_walked h
  obtain ⟨more, rfl⟩ : ∃ more, core = first :: more := by
    cases core with
    | nil => cases hfirst
    | cons t more => exact ⟨more, by rw [Option.some.inj hfirst]⟩
  obtain ⟨init, hinit⟩ := List.getLast?_eq_some_iff.mp hlast
  have hcontent := hcore first List.mem_cons_self
  have hcontent' := hcore last (List.mem_of_getLast? hlast)
  -- `a` to `b` is the step that reads the first token, `c` to `d` the one that reads the last
  have hat : (tokenize source).1 = before ++ first :: (more ++ after) := by simp [htokens]
  have hat' : (tokenize source).1 = (before ++ init) ++ last :: after := by simp [htokens, hinit]
  obtain ⟨a, b, ha, hab, hb, htoken, hatokens, hbtokens⟩ := exists_token_of_split h hat hcontent
  obtain ⟨c, d, hc, hcd, hd, htoken', hctokens, hdtokens⟩ := exists_token_of_split h hat' hcontent'
  have hbissues := hb.issues hissues
  have hdissues := hd.issues hissues
  have haissues := issues_of_step hab hbissues
  have hlaid_a := ha.laid (laid_start _).1 haissues
  have hcounts : a.tokens.length < d.tokens.length := by
    rw [hatokens, hdtokens, List.length_cons, List.length_reverse, List.length_reverse,
      List.length_append]
    omega
  have hbd : Steps b d := ha.of_tokens_lt hab (hc.tail hcd) haissues hcounts
  rw [← hatokens] at hbtokens
  rw [← hctokens] at hdtokens
  -- the walk over the part begins behind the blanks in front of the first token
  obtain ⟨s, hs⟩ := exists_behindBlanks htoken hbissues
    (hlaid_a.inLine_of_token hab hbtokens hcontent) hbtokens hcontent
  have hsteps : Steps s d := .head hs.step hbd
  obtain ⟨new, hgrows⟩ := hsteps.grows hdissues
  obtain ⟨slice, hslice, hoffset⟩ := hgrows.rest
  have hstop : last.span.stop = d.offset := by
    obtain ⟨-, gap, text, hreads⟩ := reads_token htoken' hdissues
    rw [hreads.span_eq hdtokens hcontent']
  refine ⟨slice, d.rest, s, d, ⟨?_, hslice, rfl, hoffset, hsteps, hdissues, hs.tokens.trans hatokens,
    ?_, hs.inLine, ?_⟩, hs.start, hstop⟩
  · obtain ⟨done, hdone, hlength⟩ := hlaid_a.text
    obtain ⟨gap, hrest, hgap⟩ := hs.blanks
    refine ⟨done ++ gap, ?_, ?_⟩
    · rw [hdone, hrest, hslice, List.append_assoc]
    · rw [Text.byteLength_append, hlength, hgap]
  · rw [hdtokens, hctokens, hinit]
    simp
  · -- the part is not empty, so its first character is that of the first token
    obtain ⟨x, xs, hrest, hx⟩ := hs.head
    obtain ⟨new', hgrows'⟩ := hbd.grows hdissues
    have hle := hgrows'.offset_le
    have hlt := hs.lt
    cases slice with
    | nil =>
      rw [Text.byteLength] at hoffset
      omega
    | cons y ys =>
      rw [hrest] at hslice
      obtain ⟨rfl, -⟩ := List.cons.inj hslice
      exact ⟨x, ys, rfl, hx⟩

end Lexer

/-! ### The text of a part -/

/-- The characters of a span that starts behind the offset are read from there. -/
theorem Span.chars_of_start_le {start offset : Nat} (h : start ≤ offset) (cs ds : List Char) :
    (⟨start, offset + Text.byteLength cs⟩ : Span).chars offset (cs ++ ds) = cs := by
  induction cs generalizing offset with
  | nil => cases ds <;> simp [Span.chars, Text.byteLength]
  | cons c cs ih =>
    have hsize := c.utf8Size_pos
    have hrest : (⟨start, offset + c.utf8Size + Text.byteLength cs⟩ : Span).chars
        (offset + c.utf8Size) (cs ++ ds) = cs := ih (by omega)
    rw [Nat.add_assoc] at hrest
    rw [List.cons_append, Span.chars, Text.byteLength, hrest]
    simp only [h, if_true]
    rw [if_neg (by omega)]

/-- The characters between two places in a text. -/
theorem Span.chars_append (offset : Nat) (done cs ds : List Char) :
    (⟨offset + Text.byteLength done, offset + Text.byteLength done + Text.byteLength cs⟩ : Span).chars
      offset (done ++ (cs ++ ds)) = cs := by
  induction done generalizing offset with
  | nil => exact Span.chars_of_start_le (le_refl _) cs ds
  | cons c done ih =>
    have hsize := c.utf8Size_pos
    have hrest := ih (offset + c.utf8Size)
    rw [Nat.add_assoc offset] at hrest
    rw [List.cons_append, Span.chars, Text.byteLength, hrest]
    simp only
    split
    · cases cs with
      | nil => rfl
      | cons d cs =>
        have hd := d.utf8Size_pos
        rw [Text.byteLength] at *
        omega
    · rw [if_neg (by omega)]

/-- The text between the two ends of a cut is what is cut out. -/
theorem Lexer.Cut.text_eq {source slice behind : List Char} {before core : List Token} {s s' : Lexer}
    (h : Lexer.Cut source slice behind before core s s') :
    (⟨s.offset, s'.offset⟩ : Span).text source = String.ofList slice := by
  obtain ⟨done, rfl, hdone⟩ := h.text
  have hchars := Span.chars_append 0 done slice behind
  rw [Nat.zero_add, hdone] at hchars
  rw [Span.text, h.offset, hchars]

/-! ### Parts that are one line -/

/-- The text is one logical line: nothing is wrong with its tokens, and neither a comment nor the end
    of a line stands in it. -/
def IsLine (text : String) : Prop :=
  (tokenize text).2 = [] ∧ ∀ t ∈ (tokenize text).1, t.kind = .newline ∨ t.kind = .comment →
    Text.byteLength text.toList ≤ t.span.start

instance (text : String) : Decidable (IsLine text) :=
  inferInstanceAs (Decidable (_ ∧ _))

namespace Lexer

variable {s s' : Lexer} {slice : List Char}

/-- All along the walk over a line nothing is wrong, and the line does not end. -/
theorem Steps.inOneLine (h : IsLine (String.ofList slice)) (hs : Steps (start slice) s) :
    s.InOneLine := by
  obtain ⟨hissues, hline⟩ := h
  obtain ⟨hlaid, hlast, hclean, marks, hmarks, -⟩ := tokenize_walked hissues
  rw [hmarks] at hline
  rw [String.toList_ofList] at hline hmarks hlaid hlast hclean
  have hto : Steps s (walked slice) := (Steps.run _ _).to_last hlast hs
  have hissues' := hto.issues hclean
  refine ⟨hissues', fun t ht hkind => ?_⟩
  obtain ⟨new, hgrows⟩ := hto.grows hclean
  obtain ⟨done, hdone, hlength⟩ := (hs.laid (laid_start slice).1 hissues').text
  have hle : Text.byteLength slice ≤ t.span.start := by
    refine hline t (List.mem_append_left _ (List.mem_reverse.mpr ?_)) hkind
    rw [hgrows.tokens]
    exact List.mem_append_right _ ht
  refine le_trans ?_ hle
  rw [hdone, Text.byteLength_append]
  omega

/-- In a text that begins with a token, no line is left open in front of it. -/
theorem start_step {c : Char} (cs : List Char) (hc : Lexeme.startsToken c = true)
    (hmark : c.toNat ≠ 0xfeff) :
    (start (c :: cs)).step = some { rest := c :: cs, atLineStart := false } := by
  simp only [Lexeme.startsToken, Bool.and_eq_true, Bool.not_eq_true', bne_iff_ne] at hc
  obtain ⟨⟨⟨hgap, hbreak⟩, hhash⟩, hslash⟩ := hc
  have hstart : start (c :: cs) = { rest := c :: cs } := if_neg hmark
  have hindent : spanIndent 0 (c :: cs) = (0, [], c :: cs) := by
    rcases spanIndent_cons 0 c cs with ⟨hblank, -⟩ | ⟨-, heq⟩
    · rw [hgap] at hblank
      cases hblank
    · exact heq
  rw [hstart]
  simp [step, lineStart, hindent, skip, hbreak, hhash, hslash, indentTo, Text.byteLength]

/-- Walking over a part of a text, the lexer is among its surroundings. -/
theorem Around.steps {w : Surroundings} (h : Around w s s') {last' : Lexer} (hsteps : Steps s' last')
    (hissues : last'.issues = []) (hrest : last'.rest = w.behind)
    (hline : ∀ a, Steps s a → a.InOneLine) : ∃ last, Steps s last ∧ Around w last last' := by
  induction hsteps using Relation.ReflTransGen.head_induction_on generalizing s with
  | refl => exact ⟨s, .refl, h⟩
  | @head a b hstep hsteps ih =>
    rw [step, if_neg (by simp [h.inLine'])] at hstep
    have hb := Steps.issues hsteps hissues
    obtain ⟨new, hgrows⟩ := Steps.grows hsteps hissues
    obtain ⟨text, hbrest, -⟩ := hgrows.rest
    rw [hrest] at hbrest
    obtain ⟨next, hnext, haround⟩ := h.token hstep hb hbrest
    have hsnext : s.step = some next := by rw [step, if_neg (by simp [h.inLine]), hnext]
    obtain ⟨last, hlast, hresult⟩ := ih (haround (hline next (.single hsnext)))
      fun a ha => hline a (.head hsnext ha)
    exact ⟨last, .head hsnext hlast, hresult⟩

/-- **The tokens of a part of a text that is one line.** -/
theorem Cut.tokenize_eq {source behind : List Char} {before core : List Token} {t : Token}
    (h : Cut source slice behind before core s s') (hline : IsLine (String.ofList slice))
    (hmark : ∀ c ∈ slice.head?, c.toNat ≠ 0xfeff) (ht : t ∈ core.getLast?)
    (hcontent : t.kind.isContent = true) :
    ∃ ts stop, core = ts.map (Token.mapSpan (Span.shift s.offset)) ∧ Balanced ts ∧
      (tokenize (String.ofList slice)).1 =
        ts ++ [⟨.newline, ⟨stop, stop⟩, ""⟩, ⟨.eof, ⟨stop, stop⟩, ""⟩] := by
  obtain ⟨c, cs, rfl, hc⟩ := h.head
  have hstart := start_step cs hc (hmark c rfl)
  have haround : Around ⟨s.offset, s.depth, before.reverse, behind⟩
      { rest := c :: cs, atLineStart := false } s :=
    ⟨h.rest, (Nat.zero_add _).symm, (Nat.zero_add _).symm, h.tokens, rfl, h.inLine, rfl, rfl⟩
  obtain ⟨last, hsteps, hlast⟩ := haround.steps h.steps h.issues h.rest' fun a ha =>
    Steps.inOneLine hline (.head hstart ha)
  have hrest : last.rest = [] := by
    have hbehind := hlast.rest
    rw [h.rest'] at hbehind
    exact List.append_left_eq_self.mp hbehind.symm
  have hend : last.step = none := by
    rw [step, if_neg (by simp [hlast.inLine])]
    simp [token, skip, hrest]
  have hwalked : last = walked (c :: cs) := by
    obtain ⟨-, hlast', -⟩ := tokenize_walked hline.1
    rw [String.toList_ofList] at hlast'
    exact ((Steps.run _ _).to_last hlast' (.head hstart hsteps)).eq_of_last hend |>.symm
  have hcore : core = last.tokens.reverse.map (Token.mapSpan (Span.shift s.offset)) := by
    have htokens := hlast.tokens
    rw [h.tokens'] at htokens
    rw [List.map_reverse, ← List.append_cancel_right htokens, List.reverse_reverse]
  -- what is added at the end of the text
  have hclean := hline.1
  rw [PackageDoc.tokenize_eq, String.toList_ofList, ← hwalked, List.reverse_eq_nil_iff] at hclean
  obtain ⟨hfinish, -, hdepth⟩ := finish_eq hclean
  refine ⟨last.tokens.reverse, Text.byteLength (c :: cs), hcore, ?_, ?_⟩
  · refine .of_zero ?_
    rw [hlast.brackets, hdepth]
  · obtain ⟨u, others, hu, hopen⟩ : ∃ u others, last.tokens = u :: others ∧
        u.kind.closesLine = false := by
      obtain ⟨u, hu, rfl⟩ : ∃ u ∈ last.tokens.head?, u.mapSpan (Span.shift s.offset) = t := by
        rw [hcore, List.getLast?_map, List.getLast?_reverse] at ht
        simpa using ht
      obtain ⟨others, hothers⟩ := List.head?_eq_some_iff.mp hu
      exact ⟨u, others, hothers, TokenKind.closesLine_of_isContent hcontent⟩
    rw [PackageDoc.tokenize_eq, String.toList_ofList, ← hwalked, hfinish]
    simp [endLine, hu, hopen, endBlocks, hlast.indents, mark, emit, skip, Text.byteLength]

end Lexer
end PackageDoc
