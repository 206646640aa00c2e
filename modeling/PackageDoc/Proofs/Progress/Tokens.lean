import PackageDoc.Proofs.Layout.Tokens

namespace PackageDoc

/-!
# The end of the tokens

On text of any kind the walk of the lexer comes to an end, and only what is added behind it ends the
tokens.

* `Lexer.Moves` and `Lexer.moves_step` — each step leaves less to be read, and adds no end of the text;
* `Lexer.step_walked` — a walk over a text stops where there is no further step;
* `tokenize_ends` — one token ends the text, and it is the last.
-/

namespace Lexer

variable {s s' : Lexer} {text rest : List Char} {kind : TokenKind}

/-! ### Steps -/

/-- Nothing that is added ends the text. -/
def AddsNoEnd (s s' : Lexer) : Prop :=
  ∀ t ∈ s'.tokens, t.kind = .eof → t ∈ s.tokens

/-- A token of another kind does not end the text. -/
theorem AddsNoEnd.of_cons {t : Token} (ht : t.kind ≠ .eof) (h : s'.tokens = t :: s.tokens) :
    AddsNoEnd s s' := by
  intro u hu heof
  rw [h] at hu
  rcases List.mem_cons.mp hu with rfl | hu
  · exact absurd heof ht
  · exact hu

/-- Without a new token the text is not ended. -/
theorem AddsNoEnd.of_eq (h : s'.tokens = s.tokens) : AddsNoEnd s s' :=
  fun _ ht _ => h ▸ ht

theorem AddsNoEnd.trans {s'' : Lexer} (h : AddsNoEnd s s') (h' : AddsNoEnd s' s'') : AddsNoEnd s s'' :=
  fun t ht heof => h t (h' t ht heof) heof

/-- What every step does, also one that reports an issue. -/
structure Moves (s s' : Lexer) : Prop where
  less : s'.measure < s.measure
  tokens : AddsNoEnd s s'

/-- A step that leaves fewer characters moves. -/
theorem Moves.of_shorter (h : s'.rest.length < s.rest.length) (htokens : AddsNoEnd s s') : Moves s s' := by
  refine ⟨?_, htokens⟩
  have hline := Bool.toNat_le s'.atLineStart
  simp only [measure]
  omega

/-- So does one that emits a token. -/
theorem Emits.moves {gap : List Char} (hrest : s.rest = gap ++ rest)
    (h : Emits (s.skip gap rest) s' text) : Moves s s' := by
  refine .of_shorter ?_ ?_
  · have hcut : rest = text ++ s'.rest := h.rest
    have hpos := List.length_pos_of_ne_nil h.ne_nil
    rw [hrest, hcut, List.length_append, List.length_append]
    omega
  · obtain ⟨kind, hkind, htokens⟩ := h.tokens
    refine .of_cons (t := ⟨kind, _, _⟩) ?_ htokens
    rintro rfl
    cases hkind

/-- Cutting a line break off leaves fewer characters. -/
theorem length_spanLineBreak {c : Char} (cs : List Char) (h : isLineBreak c = true) :
    (spanLineBreak (c :: cs)).2.length < (c :: cs).length := by
  obtain ⟨more, hmore⟩ := spanLineBreak_of_isLineBreak cs h
  have hcut := congrArg List.length (spanLineBreak_append (c :: cs))
  rw [hmore, List.length_append, List.length_cons] at hcut
  omega

/-- Cutting a comment off leaves fewer. -/
theorem length_spanLine_hash (cs : List Char) :
    (spanLine ('#' :: cs)).2.length < ('#' :: cs).length := by
  obtain ⟨more, hmore⟩ := spanLine_hash cs
  have hcut := congrArg List.length (spanLine_append ('#' :: cs))
  rw [hmore, List.length_append, List.length_cons] at hcut
  omega

/-- Every token moves. -/
theorem moves_token (h : s.token = some s') : Moves s s' := by
  obtain ⟨gap, c, cs, hrest, -, -, hstep⟩ := exists_tokenStep h
  have hle : (c :: cs).length ≤ s.rest.length := by
    rw [hrest, List.length_append]
    omega
  cases hstep with
  | newline hbreak =>
    exact .of_shorter (lt_of_lt_of_le (length_spanLineBreak cs hbreak) hle) (.of_cons (by simp) rfl)
  | bracketedLineEnd hbreak =>
    exact .of_shorter (lt_of_lt_of_le (length_spanLineBreak cs hbreak) hle) (.of_eq rfl)
  | comment hhash =>
    subst hhash
    exact .of_shorter (lt_of_lt_of_le (length_spanLine_hash cs) hle) (.of_cons (by simp) rfl)
  | bracketedComment hhash =>
    subst hhash
    exact .of_shorter (lt_of_lt_of_le (length_spanLine_hash cs) hle) (.of_eq rfl)
  | backslash =>
    -- wherever it stands
    have hless : (spanLineBreak cs).2.length < (c :: cs).length :=
      Nat.lt_succ_of_le (length_spanLineBreak_le cs)
    refine .of_shorter (lt_of_lt_of_le hless hle) (.of_eq ?_)
    dsimp only [skip]
    split <;> rfl
  | part hpart =>
    obtain ⟨text, hemits⟩ := hpart.emits rfl
    exact hemits.moves hrest

/-- Opening and closing blocks does not end the text. -/
theorem MarksBlocks.addsNoEnd (h : MarksBlocks s s') : AddsNoEnd s s' := by
  induction h with
  | refl => exact .of_eq rfl
  | mark hkind _ ih =>
    refine ih.trans (.of_cons ?_ rfl)
    rcases hkind with rfl | rfl <;> exact TokenKind.noConfusion
  | columns _ _ ih | mismatch _ ih => exact ih.trans (.of_eq rfl)

/-- Marks are made where the walk is. -/
theorem MarksBlocks.place (h : MarksBlocks s s') :
    s'.rest = s.rest ∧ s'.atLineStart = s.atLineStart := by
  induction h with
  | refl => exact ⟨rfl, rfl⟩
  | mark _ _ ih | columns _ _ ih | mismatch _ ih => exact ih

/-- The start of a line moves. -/
theorem moves_lineStart (hline : s.atLineStart = true) (h : s.lineStart = some s') : Moves s s' := by
  obtain ⟨blanks, c, cs, hcut, -, -, hstep⟩ := exists_lineStep h
  have hle : (c :: cs).length ≤ s.rest.length := by
    rw [hcut, List.length_append]
    omega
  cases hstep with
  | blank hbreak =>
    exact .of_shorter (lt_of_lt_of_le (length_spanLineBreak cs hbreak) hle) (.of_cons (by simp) rfl)
  | comment hhash =>
    subst hhash
    have hless := (length_spanLineBreak_le _).trans_lt (length_spanLine_hash cs)
    have hcomment : AddsNoEnd s (s.skip blanks ('#' :: cs)).comment := .of_cons (by simp) rfl
    exact .of_shorter (lt_of_lt_of_le hless hle) (hcomment.trans (.of_cons (by simp) rfl))
  | joined =>
    have hless : (spanLineBreak cs).2.length < (c :: cs).length :=
      Nat.lt_succ_of_le (length_spanLineBreak_le cs)
    exact .of_shorter (lt_of_lt_of_le hless hle) (.of_eq rfl)
  | first =>
    -- nothing is read but the blanks, and the line has begun
    have hmarks := marksBlocks_indentTo { s.skip blanks (c :: cs) with atLineStart := false }
      (spanIndent 0 blanks).1
    obtain ⟨hrest, hline'⟩ := hmarks.place
    refine ⟨?_, .trans (.of_eq rfl) hmarks.addsNoEnd⟩
    rw [measure, hrest, hline', measure, hline]
    exact Nat.lt_succ_of_le (Nat.mul_le_mul_left 2 hle)

/-- **Each step of the walk** leaves less to be read, also on text that is not well formed. -/
theorem moves_step (h : s.step = some s') : Moves s s' := by
  unfold step at h
  split at h
  · rename_i hstart
    exact moves_lineStart (Bool.and_eq_true_iff.mp hstart).1 h
  · exact moves_token h

/-! ### The walk -/

/-- A run comes to its end and adds none to the text. -/
theorem moves_run {n : Nat} (hn : s.measure < n) : (run n s).step = none ∧ AddsNoEnd s (run n s) := by
  induction n generalizing s with
  | zero => omega
  | succ n ih =>
    rw [run]
    split
    · exact ⟨‹_›, .of_eq rfl⟩
    · rename_i s' hstep
      obtain ⟨hless, htokens⟩ := moves_step hstep
      obtain ⟨hend, hmore⟩ := ih (s := s') (by omega)
      exact ⟨hend, htokens.trans hmore⟩

/-- The walk over a text goes on as long as there is a step. -/
theorem step_walked (cs : List Char) : (walked cs).step = none :=
  (moves_run (laid_start cs).2).1

/-- No token of the walk over a text ends it. -/
theorem ne_eof_of_mem_walked {cs : List Char} : ∀ t ∈ (walked cs).tokens, t.kind ≠ .eof := by
  intro t ht heof
  have hstart := (moves_run (laid_start cs).2).2 t ht heof
  rw [tokens_start] at hstart
  cases hstart

/-- Nor does the end of the last line. -/
theorem addsNoEnd_endLine (s : Lexer) : AddsNoEnd s s.endLine := by
  rcases endLine_eq s with heq | heq <;> rw [heq]
  · exact .of_eq rfl
  · exact .of_cons (by simp) rfl

/-- The end of the text is marked behind everything else. -/
theorem finish_eq_mark (s : Lexer) (stop : Nat) :
    ∃ s', AddsNoEnd s s' ∧ s.finish stop = s'.mark .eof := by
  have hreport : AddsNoEnd s (if 0 < s.depth then
      Lexer.report { s with rest := [], offset := stop } .openBracketAtEnd []
      else { s with rest := [], offset := stop }) := by
    split <;> exact .of_eq rfl
  exact ⟨_, (hreport.trans (addsNoEnd_endLine _)).trans (marksBlocks_endBlocks _).addsNoEnd, rfl⟩

end Lexer

/-- **The tokens of a text end with the end of the text**, and there is no other. -/
theorem tokenize_ends (source : String) :
    ∃ ts t, (tokenize source).1 = ts ++ [t] ∧ t.kind = .eof ∧ ∀ u ∈ ts, u.kind ≠ .eof := by
  obtain ⟨s, hadds, hfinish⟩ := Lexer.finish_eq_mark (Lexer.walked source.toList)
    (Text.byteLength source.toList)
  refine ⟨s.tokens.reverse, ⟨.eof, ⟨s.offset, s.offset⟩, ""⟩, ?_, rfl, fun u hu heof => ?_⟩
  · rw [tokenize_eq, hfinish]
    exact List.reverse_cons
  · exact Lexer.ne_eof_of_mem_walked u (hadds u (List.mem_reverse.mp hu) heof) heof

end PackageDoc
