import PackageDoc.Proofs.Tokens.Tiling
import PackageDoc.Source.Span

namespace PackageDoc

/-!
# The numbers of lines

The lexer ends a line at `\n`, at `\r\n` and at `\r` alone.  The number of a line counts `\n`, so it is
that of the lexer as long as no `\r` stands alone.

* `lineEnds` — where the lines of a text end for the lexer;
* `countP_lineEnds` — line terminators are line feeds, and carriage returns that stand alone;
* `lineOf_eq_iff` and `lineOf_eq_lineOf_iff` — when the number of a line is that of the lexer, and
  when two places have one number;
* `Lexer.EndsLines` and `Lexer.endsLines_step` — the end of a logical line is a line terminator;
* `numbersLines` — the numbers of the lines on which the tokens of a text begin.
-/

open Text

variable {p q : Char → List Char → Bool} {c : Char} {cs : List Char} {start e n m : Nat}

/-! ### Where lines end -/

/-- The bytes at which the line terminators of a text end, where the text begins at byte `start`. -/
def lineEnds : (start : Nat) → List Char → List Nat
  | _, [] => []
  | start, '\r' :: '\n' :: cs => (start + 2) :: lineEnds (start + 2) cs
  | start, c :: cs =>
    if isLineBreak c then (start + 1) :: lineEnds (start + 1) cs
    else lineEnds (start + c.utf8Size) cs

/-- The bytes at which some characters end.  `p` is asked about a character and what stands behind
    it. -/
def charEnds (p : Char → List Char → Bool) : (start : Nat) → List Char → List Nat
  | _, [] => []
  | start, c :: cs =>
    if p c cs then (start + c.utf8Size) :: charEnds p (start + c.utf8Size) cs
    else charEnds p (start + c.utf8Size) cs

/-- A line feed. -/
def isLineFeed (c : Char) (_ : List Char) : Bool :=
  c == '\n'

/-- A carriage return with no line feed behind it. -/
def isLoneReturn (c : Char) (behind : List Char) : Bool :=
  c == '\r' && behind.head? != some '\n'

/-- A line break is of one-byte characters. -/
theorem utf8Size_of_isLineBreak (h : isLineBreak c = true) : c.utf8Size = 1 := by
  simp only [isLineBreak, Bool.or_eq_true, beq_iff_eq] at h
  rcases h with rfl | rfl <;> rfl

/-- The ends of characters are counted from the start of the text. -/
theorem mem_charEnds_iff : e ∈ charEnds p start cs ↔ ∃ before c behind,
    cs = before ++ c :: behind ∧ p c behind = true ∧
      e = start + byteLength before + c.utf8Size := by
  induction cs generalizing start with
  | nil => simp [charEnds]
  | cons c cs ih =>
    have hmem : e ∈ charEnds p start (c :: cs) ↔
        (p c cs = true ∧ e = start + c.utf8Size) ∨ e ∈ charEnds p (start + c.utf8Size) cs := by
      rw [charEnds]
      split <;> simp_all
    rw [hmem, ih]
    constructor
    · rintro (⟨hp, rfl⟩ | ⟨before, d, behind, rfl, hp, rfl⟩)
      · exact ⟨[], c, cs, rfl, hp, rfl⟩
      · exact ⟨c :: before, d, behind, rfl, hp, by simp [byteLength, Nat.add_assoc]⟩
    · rintro ⟨before, d, behind, hcs, hp, rfl⟩
      cases before with
      | nil =>
        obtain ⟨rfl, rfl⟩ := List.cons.inj hcs
        exact .inl ⟨hp, rfl⟩
      | cons b before =>
        obtain ⟨rfl, rfl⟩ := List.cons.inj hcs
        exact .inr ⟨before, d, behind, rfl, hp, by simp [byteLength, Nat.add_assoc]⟩

/-- So they are behind it. -/
theorem lt_of_mem_charEnds (h : e ∈ charEnds p start cs) : start < e := by
  obtain ⟨before, c, behind, -, -, rfl⟩ := mem_charEnds_iff.mp h
  have hpos := c.utf8Size_pos
  omega

/-- A line ends at a line feed, and at a carriage return that none follows. -/
theorem lineEnds_eq (start : Nat) (cs : List Char) :
    lineEnds start cs = charEnds (fun c behind => isLineFeed c behind || isLoneReturn c behind)
      start cs := by
  fun_induction lineEnds start cs with
  | case1 => rfl
  | case2 start cs ih =>
    -- of both characters only the line feed counts
    rw [ih]
    rfl
  | case3 start c cs hnot hbreak ih =>
    have hends : (isLineFeed c cs || isLoneReturn c cs) = true := by
      simp only [isLineBreak, Bool.or_eq_true, beq_iff_eq] at hbreak
      rcases hbreak with rfl | rfl
      · rfl
      · have hhead : cs.head? ≠ some '\n' := fun hhead =>
          hnot cs.tail rfl (List.eq_cons_of_mem_head? hhead)
        simp [isLoneReturn, hhead]
    rw [ih, charEnds, if_pos hends, utf8Size_of_isLineBreak hbreak]
  | case4 start c cs hnot hbreak ih =>
    have hends : ¬(isLineFeed c cs || isLoneReturn c cs) = true := by
      simp_all [isLineBreak, isLineFeed, isLoneReturn]
    rw [ih, charEnds, if_neg hends]

/-! ### Counting ends -/

/-- None is at or in front of it. -/
theorem countP_charEnds_eq_zero (h : n ≤ start) : (charEnds p start cs).countP (· ≤ n) = 0 := by
  refine List.countP_eq_zero.mpr fun e he => ?_
  have hlt := lt_of_mem_charEnds he
  simpa using lt_of_le_of_lt h hlt

/-- The ends of characters of two kinds are counted apart. -/
theorem countP_charEnds_or (hpq : ∀ c behind, p c behind = true → q c behind = false) (start n : Nat)
    (cs : List Char) : (charEnds (fun c behind => p c behind || q c behind) start cs).countP (· ≤ n) =
      (charEnds p start cs).countP (· ≤ n) + (charEnds q start cs).countP (· ≤ n) := by
  induction cs generalizing start with
  | nil => rfl
  | cons c cs ih =>
    simp only [charEnds]
    by_cases hp : p c cs = true
    · simp only [hp, hpq c cs hp, Bool.or_false, if_true, Bool.false_eq_true, if_false,
        List.countP_cons, ih]
      omega
    · by_cases hq : q c cs = true <;> simp [hp, hq, ih, List.countP_cons, Nat.add_assoc]

/-- What the number of a line counts are the ends of line feeds. -/
theorem lineBreaksBefore_eq (start n : Nat) (cs : List Char) :
    lineBreaksBefore n cs = (charEnds isLineFeed start cs).countP (· ≤ start + n) := by
  induction cs generalizing start n with
  | nil => rfl
  | cons c cs ih =>
    rw [lineBreaksBefore, charEnds]
    split
    · rename_i hle
      have hshift : start + n = start + c.utf8Size + (n - c.utf8Size) := by omega
      rw [ih (start + c.utf8Size), hshift]
      by_cases hc : c = '\n'
      · simp [isLineFeed, hc, Nat.add_comm]
      · simp [isLineFeed, hc]
    · -- what is counted ends behind the characters that are left
      rename_i hlt
      have hzero : (charEnds isLineFeed (start + c.utf8Size) cs).countP (· ≤ start + n) = 0 :=
        countP_charEnds_eq_zero (by omega)
      split
      · rw [List.countP_cons_of_neg (by simpa using hlt), hzero]
      · exact hzero.symm

/-- **Line terminators are line feeds, and carriage returns that stand alone.** -/
theorem countP_lineEnds (n : Nat) (cs : List Char) : (lineEnds 0 cs).countP (· ≤ n) =
    lineBreaksBefore n cs + (charEnds isLoneReturn 0 cs).countP (· ≤ n) := by
  have hpq : ∀ c behind, isLineFeed c behind = true → isLoneReturn c behind = false := by
    intro c behind hc
    obtain rfl : c = '\n' := by simpa [isLineFeed] using hc
    rfl
  rw [lineEnds_eq, countP_charEnds_or hpq, lineBreaksBefore_eq 0, Nat.zero_add]

/-- Two counts are the same if there is no end between. -/
theorem countP_le_eq_iff (l : List Nat) (h : n ≤ m) :
    l.countP (· ≤ n) = l.countP (· ≤ m) ↔ ∀ e ∈ l, e ≤ m → e ≤ n := by
  induction l with
  | nil => simp
  | cons e l ih =>
    have hle : l.countP (· ≤ n) ≤ l.countP (· ≤ m) :=
      List.countP_mono_left fun e _ he => decide_eq_true ((of_decide_eq_true he).trans h)
    rw [List.countP_cons, List.countP_cons, List.forall_mem_cons, ← ih]
    simp only [decide_eq_true_eq]
    split_ifs <;> omega

/-- The number of a line is that of the lexer where no carriage return in front stands alone. -/
theorem lineOf_eq_iff (cs : List Char) (n : Nat) :
    lineOf cs n = 1 + (lineEnds 0 cs).countP (· ≤ n) ↔ ∀ before behind,
      cs = before ++ '\r' :: behind → behind.head? ≠ some '\n' → n ≤ byteLength before := by
  have hzero : lineOf cs n = 1 + (lineEnds 0 cs).countP (· ≤ n) ↔
      (charEnds isLoneReturn 0 cs).countP (· ≤ n) = 0 := by
    rw [lineOf, countP_lineEnds]
    omega
  rw [hzero, List.countP_eq_zero]
  constructor
  · intro h before behind hcs halone
    have hend : byteLength before + 1 ∈ charEnds isLoneReturn 0 cs :=
      mem_charEnds_iff.mpr ⟨before, '\r', behind, hcs, by simp [isLoneReturn, halone],
        by rw [Nat.zero_add]; rfl⟩
    have hlt := h _ hend
    simp only [decide_eq_true_eq] at hlt
    omega
  · intro h e he
    obtain ⟨before, c, behind, hcs, hp, rfl⟩ := mem_charEnds_iff.mp he
    obtain ⟨rfl, halone⟩ : c = '\r' ∧ behind.head? ≠ some '\n' := by simpa [isLoneReturn] using hp
    have hle := h before behind hcs halone
    have hpos := Char.utf8Size_pos '\r'
    simp only [decide_eq_true_eq]
    omega

/-- Two places are on one line if there is no line feed between. -/
theorem lineOf_eq_lineOf_iff (cs : List Char) (h : n ≤ m) :
    lineOf cs n = lineOf cs m ↔ ∀ before behind,
      cs = before ++ '\n' :: behind → byteLength before < m → byteLength before < n := by
  have hcount : lineOf cs n = lineOf cs m ↔ ∀ e ∈ charEnds isLineFeed 0 cs, e ≤ m → e ≤ n := by
    rw [← countP_le_eq_iff _ h, lineOf, lineOf, lineBreaksBefore_eq 0, lineBreaksBefore_eq 0,
      Nat.zero_add, Nat.zero_add, Nat.add_left_cancel_iff]
  rw [hcount]
  constructor
  · intro hends before behind hcs hlt
    have hend : byteLength before + 1 ∈ charEnds isLineFeed 0 cs :=
      mem_charEnds_iff.mpr ⟨before, '\n', behind, hcs, rfl, by rw [Nat.zero_add]; rfl⟩
    exact hends _ hend hlt
  · intro hfeeds e he hle
    obtain ⟨before, c, behind, hcs, hp, rfl⟩ := mem_charEnds_iff.mp he
    obtain rfl : c = '\n' := by simpa [isLineFeed] using hp
    rw [Nat.zero_add] at hle ⊢
    exact hfeeds before behind hcs hle

namespace Lexer

variable {s s' s'' : Lexer} {text rest : List Char}

/-! ### The ends of logical lines -/

/-- Each end of a logical line that is added is a line terminator, or was left out at the end of the
    text. -/
def EndsLines (s s' : Lexer) : Prop :=
  ∀ t ∈ s'.tokens, t.kind = .newline →
    t ∈ s.tokens ∨ ∃ cs, t.text = String.ofList (spanLineBreak cs).1

namespace EndsLines

/-- A step without a token ends no line. -/
theorem of_eq (h : s'.tokens = s.tokens) : EndsLines s s' :=
  fun _ ht _ => .inl (h ▸ ht)

/-- One token ends a line only as a line break that is read. -/
theorem of_cons {t : Token} (h : s'.tokens = t :: s.tokens)
    (ht : t.kind = .newline → ∃ cs, t.text = String.ofList (spanLineBreak cs).1) : EndsLines s s' := by
  intro u hu hkind
  rw [h] at hu
  rcases List.mem_cons.mp hu with rfl | hu
  · exact .inr (ht hkind)
  · exact .inl hu

theorem emit {kind : TokenKind} (hkind : kind ≠ .newline) : EndsLines s (s.emit kind text rest) :=
  of_cons rfl fun heq => absurd heq hkind

theorem trans (h : EndsLines s s') (h' : EndsLines s' s'') : EndsLines s s'' := by
  intro t ht hkind
  rcases h' t ht hkind with ht' | htext
  · exact h t ht' hkind
  · exact .inr htext

end EndsLines

/-- Content ends no line. -/
theorem Emits.endsLines (h : Emits s s' text) : EndsLines s s' := by
  obtain ⟨kind, hkind, htokens⟩ := h.tokens
  refine .of_cons htokens fun heq => ?_
  rw [show kind = .newline from heq] at hkind
  cases hkind

/-- Every token ends lines by line breaks alone. -/
theorem endsLines_token (h : s.token = some s') : EndsLines s s' := by
  obtain ⟨gap, c, cs, -, -, -, hstep⟩ := exists_tokenStep h
  have hgap : EndsLines s (s.skip gap (c :: cs)) := .of_eq rfl
  refine hgap.trans ?_
  cases hstep with
  | newline => exact .of_cons rfl fun _ => ⟨c :: cs, rfl⟩
  | bracketedLineEnd | bracketedComment => exact .of_eq rfl
  | comment => exact .emit TokenKind.noConfusion
  | backslash =>
    refine .of_eq ?_
    dsimp only [skip]
    split <;> rfl
  | part hpart =>
    obtain ⟨text, hemits⟩ := hpart.emits rfl
    exact hemits.endsLines

/-- Opening and closing blocks ends none. -/
theorem MarksBlocks.endsLines (h : MarksBlocks s s') : EndsLines s s' := by
  induction h with
  | refl => exact .of_eq rfl
  | mark hkind _ ih =>
    refine ih.trans (.emit ?_)
    rcases hkind with rfl | rfl <;> exact TokenKind.noConfusion
  | columns _ _ ih | mismatch _ ih => exact ih.trans (.of_eq rfl)

/-- Nor does the start of a line. -/
theorem endsLines_lineStart (h : s.lineStart = some s') : EndsLines s s' := by
  obtain ⟨blanks, c, cs, -, -, -, hstep⟩ := exists_lineStep h
  have hskip : EndsLines s (s.skip blanks (c :: cs)) := .of_eq rfl
  have hblank : ∀ s : Lexer, EndsLines s s.blankLine := fun s => .emit TokenKind.noConfusion
  refine hskip.trans ?_
  cases hstep with
  | blank => exact hblank _
  | comment =>
    have hcomment : ∀ s : Lexer, EndsLines s s.comment := fun s => .emit TokenKind.noConfusion
    exact (hcomment _).trans (hblank _)
  | joined => exact .of_eq rfl
  | first =>
    have hinside : EndsLines (s.skip blanks (c :: cs))
        { s.skip blanks (c :: cs) with atLineStart := false } := .of_eq rfl
    exact hinside.trans (marksBlocks_indentTo _ _).endsLines

/-- **Each step of the walk** ends logical lines with line terminators. -/
theorem endsLines_step (h : s.step = some s') : EndsLines s s' := by
  unfold step at h
  split at h
  · exact endsLines_lineStart h
  · exact endsLines_token h

/-- A run ends lines by line breaks alone. -/
theorem endsLines_run (n : Nat) (s : Lexer) : EndsLines s (run n s) :=
  run_induction (P := EndsLines s) (fun _ _ h hstep => h.trans (endsLines_step hstep)) n (.of_eq rfl)

/-- At the end of the text a logical line may be ended with nothing. -/
theorem endsLines_endLine (s : Lexer) : EndsLines s s.endLine := by
  rcases endLine_eq s with heq | heq <;> rw [heq]
  · exact .of_eq rfl
  · exact .of_cons rfl fun _ => ⟨[], rfl⟩

/-- The end of a text ends its lines by line breaks, and the last one by nothing. -/
theorem endsLines_finish (s : Lexer) (stop : Nat) : EndsLines s (s.finish stop) := by
  have hreport : EndsLines s (if 0 < s.depth then
      Lexer.report { s with rest := [], offset := stop } .openBracketAtEnd []
      else { s with rest := [], offset := stop }) := by
    split <;> exact .of_eq rfl
  have hlast : ∀ s : Lexer, EndsLines s (s.mark .eof) := fun s => .emit TokenKind.noConfusion
  exact hreport.trans ((endsLines_endLine _).trans
    ((marksBlocks_endBlocks _).endsLines.trans (hlast _)))

end Lexer

/-- The end of a logical line is a line terminator, or nothing at the end of the text. -/
theorem text_of_newline {source : String} {t : Token} (ht : t ∈ (tokenize source).1)
    (hkind : t.kind = .newline) : ∃ cs, t.text = String.ofList (spanLineBreak cs).1 := by
  rw [tokenize_eq] at ht
  have hall := (Lexer.endsLines_run (2 * source.toList.length + 2) (Lexer.start source.toList)).trans
    (Lexer.endsLines_finish _ (byteLength source.toList))
  obtain hstart | htext := hall t (List.mem_reverse.mp ht) hkind
  · rw [Lexer.tokens_start] at hstart
    cases hstart
  · exact htext

/-- A line terminator has a line feed, unless it is a carriage return alone. -/
theorem lineFeed_mem_spanLineBreak (hne : (spanLineBreak cs).1 ≠ [])
    (hreturn : (spanLineBreak cs).1 ≠ ['\r']) : '\n' ∈ (spanLineBreak cs).1 := by
  rcases Lexer.terminator_or_none cs with hterminator | ⟨hnil, -⟩
  · generalize (spanLineBreak cs).1 = ending at hterminator hreturn
    cases hterminator with
    | lineFeed | both => simp
    | carriageReturn => exact absurd rfl hreturn
  · exact absurd hnil hne

/-- In the end of a logical line stands a line feed, unless it is a carriage return alone. -/
theorem exists_lineFeed {source : String} {t : Token} (ht : t ∈ (tokenize source).1)
    (hkind : t.kind = .newline) (hne : t.text ≠ "") (hreturn : t.text ≠ "\r") :
    ∃ before behind, source.toList = before ++ '\n' :: behind ∧
      t.span.start ≤ byteLength before ∧ byteLength before < t.span.stop := by
  obtain ⟨lead, rest, hsource, -, htiles⟩ := exists_tiles_tokenize source
  obtain ⟨before, inside, behind, rfl, hstart, hstop, htext⟩ := htiles.cut ht
  obtain ⟨cs, hcs⟩ := text_of_newline ht hkind
  obtain rfl : inside = (spanLineBreak cs).1 := String.ofList_injective (htext.symm.trans hcs)
  have hfeed : '\n' ∈ (spanLineBreak cs).1 := by
    refine lineFeed_mem_spanLineBreak (fun hnil => hne ?_) fun hsingle => hreturn ?_
    · rw [hcs, hnil]
    · rw [hcs, hsingle]
  obtain ⟨front, back, hinside⟩ := List.append_of_mem hfeed
  rw [hinside] at hsource hstop
  refine ⟨lead ++ before ++ front, back ++ behind, by simpa using hsource, ?_, ?_⟩
  · rw [byteLength_append, byteLength_append]
    omega
  · have hpos := byteLength_pos (List.cons_ne_nil '\n' back)
    rw [byteLength_append] at hstop
    rw [byteLength_append, byteLength_append]
    omega

/-! ### The lines of tokens -/

/-- What the numbers of lines are, against the lines of the lexer. -/
structure NumbersLines (source : String) : Prop where
  /-- The number of a line is one more than the line terminators in front, exactly where none of these
      is a carriage return alone. -/
  number : ∀ offset, lineOf source.toList offset =
      1 + (lineEnds 0 source.toList).countP (· ≤ offset) ↔ ∀ before behind,
    source.toList = before ++ '\r' :: behind → behind.head? ≠ some '\n' → offset ≤ byteLength before
  /-- Two tokens around the end of a logical line have one number exactly when that end is a carriage
      return alone and no line feed stands between them. -/
  newline : ∀ t newline u, [t, newline, u].Sublist (tokenize source).1 →
    newline.kind = .newline → newline.text ≠ "" →
    (lineOf source.toList t.span.start = lineOf source.toList u.span.start ↔
      newline.text = "\r" ∧ ∀ before behind, source.toList = before ++ '\n' :: behind →
        byteLength before < u.span.start → byteLength before < t.span.start)

/-- **The number of a line is that of the lexer** where no carriage return stands alone in front. -/
theorem numbersLines (source : String) : NumbersLines source := by
  refine ⟨fun offset => lineOf_eq_iff _ _, fun t newline u hsub hkind hne => ?_⟩
  obtain ⟨_, _, -, -, htiles⟩ := exists_tiles_tokenize source
  obtain ⟨⟨hbefore, -⟩, hbehind⟩ : (t.span.stop ≤ newline.span.start ∧ _) ∧
      newline.span.stop ≤ u.span.start := by
    simpa using htiles.apart.sublist hsub
  have hforward := (htiles.bounds (hsub.subset (show t ∈ _ by simp))).2.1
  have hmem : newline ∈ (tokenize source).1 := hsub.subset (by simp)
  have hforward' := (htiles.bounds hmem).2.1
  rw [lineOf_eq_lineOf_iff _ (by omega), iff_and_self]
  intro hnone
  by_contra hreturn
  -- any other end has a line feed in it, which stands between the tokens
  obtain ⟨before, behind, hsource, hfrom, hto⟩ := exists_lineFeed hmem hkind hne hreturn
  have hlt := hnone before behind hsource (by omega)
  omega

/-- Two lines that a carriage return parts have one number. -/
theorem lineOf_returnLines : ∃ t newline u, [t, newline, u].Sublist (tokenize "a\rb\n").1 ∧
    newline.kind = .newline ∧ newline.text ≠ "" ∧
    lineOf "a\rb\n".toList t.span.start = lineOf "a\rb\n".toList u.span.start ∧
    lineOf "a\rb\n".toList u.span.start ≠
      1 + (lineEnds 0 "a\rb\n".toList).countP (· ≤ u.span.start) :=
  ⟨⟨.name, ⟨0, 1⟩, "a"⟩, ⟨.newline, ⟨1, 2⟩, "\r"⟩, ⟨.name, ⟨2, 3⟩, "b"⟩,
    by decide +kernel, rfl, by decide, by decide, by decide⟩

end PackageDoc
