import PackageDoc.Proofs.Progress.Loops

namespace PackageDoc

/-!
# A line is passed, whatever stands in it

Many parts of a statement may have no token, and what cannot be read is left where it was met.  Yet a
line with a token of a statement is passed, and no line makes the reading of the text fail.

* `StmtReader.Leaves` — a reader that ends behind the first token;
* `StmtReader.simpleLine_leaves` and `StmtReader.compound_leaves` — a line of simple statements and a
  compound statement, read or recovered from;
* `StmtReader.statementLine_leaves` — a line of statements;
* `StmtReader.Succeeds` — a reader that does not fail, as the readers of lines do not.
-/

namespace StmtReader

open Cursor

variable {α β : Type} {c : Cursor} {s s' : StmtState} {P : α → Prop}

/-! ### Behind the first token -/

/-- Among the tokens that are left at `c`, the reader ends only behind the first of them. -/
def Leaves (c : Cursor) (m : StmtReader α) (s : StmtState) : Prop :=
  s.cursor.Amid c.rest → ∀ a s', m.run s = .ok a s' → s'.cursor.Amid c.advance.rest

namespace Leaves

/-- The second of two readers leaves the token behind. -/
theorem seq {m : StmtReader α} {f : α → StmtReader β} (hm : Gathers c.rest P m s)
    (hf : ∀ a s, Leaves c (f a) s) : Leaves c (m >>= f) s := by
  intro hs b s'' hrun
  obtain ⟨a, s', hfirst, hrest⟩ := run_bind_ok hrun
  have hgoes := hm hs
  rw [hfirst] at hgoes
  exact hf a s' hgoes.1 b s'' hrest

/-- The first does, and the second goes on from there. -/
theorem bind {Q : β → Prop} {m : StmtReader α} {f : α → StmtReader β} (hm : Leaves c m s)
    (hf : ∀ a s, Gathers c.advance.rest Q (f a) s) : Leaves c (m >>= f) s := by
  intro hs b s'' hrun
  obtain ⟨a, s', hfirst, hrest⟩ := run_bind_ok hrun
  have hgoes := hf a s' (hm hs a s' hfirst)
  rw [hrest] at hgoes
  exact hgoes.1

theorem ite {p : Prop} [Decidable p] {m m' : StmtReader α} (hm : p → Leaves c m s)
    (hm' : ¬p → Leaves c m' s) : Leaves c (if p then m else m') s := by
  split
  · exact hm ‹_›
  · exact hm' ‹_›

theorem peek_bind {f : Token → StmtReader β} (h : Leaves c (f s.cursor.peek) s) :
    Leaves c (peek >>= f) s := h

theorem cursor_bind {f : Cursor → StmtReader β} (h : Leaves c (f s.cursor) s) :
    Leaves c (cursor >>= f) s := h

theorem at_bind {kind : TokenKind} {f : Bool → StmtReader β} (h : Leaves c (f (s.cursor.at? kind)) s) :
    Leaves c (at? kind >>= f) s := h

theorem rounds_bind {f : Nat → StmtReader β} (h : Leaves c (f (s.cursor.rest.length + 1)) s) :
    Leaves c (rounds >>= f) s := h

/-- Reporting something does not move it. -/
theorem report_bind {f : Unit → StmtReader β} {issue : SyntaxIssue}
    (h : Leaves c (f ()) { s with issues := issue :: s.issues }) :
    Leaves c (report issue >>= f) s := h

/-- A token that is not there is not read. -/
theorem eat_bind_of_ne {kind : TokenKind} {f : Bool → StmtReader β} (hkind : s.cursor.kind ≠ kind)
    (h : Leaves c (f false) s) : Leaves c (eat kind >>= f) s := by
  intro hs b s' hrun
  have hat : ¬s.cursor.at? kind = true := fun hat => hkind (eq_of_beq hat)
  rw [run_eat_bind, if_neg hat] at hrun
  exact h hs b s' hrun

/-- Passing the first token leaves it behind. -/
theorem advance_bind {Q : β → Prop} {f : Token → StmtReader β} (hkind : s.cursor.kind ≠ .eof)
    (h : Gathers s.cursor.advance.rest Q (f s.cursor.peek) { s with cursor := s.cursor.advance }) :
    Leaves s.cursor (advance >>= f) s := by
  intro hs b s' hrun
  have hgoes := h (amid_self (hs.beforeEnd.advance hkind).1)
  rw [show (f s.cursor.peek).run { s with cursor := s.cursor.advance } = .ok b s' from hrun] at hgoes
  exact hgoes.1

/-- A reader that passes the next token of its line leaves it behind. -/
theorem of_passes {m : StmtReader α} (h : Passes m s) : Leaves s.cursor m s := by
  intro hs a s' hrun
  obtain ⟨-, hkind, hwithin⟩ := h a s' hrun
  have hne : s.cursor.kind ≠ .eof := fun heof => by rw [heof] at hkind; cases hkind
  exact (amid_self (hs.beforeEnd.advance hne).1).within hwithin

/-- Elsewhere among the tokens the first is behind already, so that it is enough to pass the next
    token of a line, and to go on from anywhere else. -/
theorem of_inner {m : StmtReader α} (hc : c.kind.isLineEnd = false)
    (hgoes : ∀ s, Gathers c.advance.rest P m s)
    (hm : ∀ s, s.cursor.kind.isLineEnd = false → Leaves s.cursor m s) (s : StmtState) : Leaves c m s := by
  intro hs a s' hrun
  obtain ⟨prev, rest⟩ := c
  obtain ⟨⟨prev', rest'⟩, issues⟩ := s
  cases rest with
  | nil =>
    obtain rfl : rest' = [] := List.suffix_nil.mp hs.suffix
    obtain ⟨t, ht, -⟩ := hs.beforeEnd
    cases ht
  | cons t ts =>
    rcases List.suffix_cons_iff.mp hs.suffix with rfl | hsuffix
    · exact hm _ hc (amid_self hs.beforeEnd) a s' hrun
    · have hend := hgoes _ ⟨hsuffix, hs.beforeEnd⟩
      rw [hrun] at hend
      exact hend.1

/-- Reading a token of another kind than the end ends behind the first. -/
theorem eat_bind_of_eq {kind : TokenKind} {Q : β → Prop} {f : Bool → StmtReader β}
    (hkind : s.cursor.kind = kind) (hne : kind ≠ .eof)
    (h : Gathers s.cursor.advance.rest Q (f true) { s with cursor := s.cursor.advance }) :
    Leaves s.cursor (eat kind >>= f) s := by
  intro hs b s' hrun
  have hat : s.cursor.at? kind = true := beq_iff_eq.mpr hkind
  rw [run_eat_bind, if_pos hat] at hrun
  have hgoes := h (amid_self (hs.beforeEnd.advance (hkind ▸ hne)).1)
  rw [hrun] at hgoes
  exact hgoes.1

end Leaves

/-! ### A line of simple statements -/

/-- Skipping a line ends behind its first token, if that does not end the line. -/
theorem skipLine_leaves (hc : c.kind.isLineEnd = false) (s : StmtState) : Leaves c skipLine s := by
  refine .of_inner hc (fun _ => .skipLine) (fun s hinner => ?_) s
  intro hs a s' hrun
  rw [run_skipLine hs.beforeEnd] at hrun
  refine Leaves.peek_bind (.ite (fun hend => ?_) fun _ => .advance_bind ?_ .skipLine) hs a s' hrun
  · rw [show s.cursor.peek.kind.isLineEnd = false from hinner] at hend
    cases hend
  · exact ne_eof_of_inner (by simp [hinner])

/-- What is left of a line behind its statements is passed. -/
def lineEnd (stmts : List (Placed Stmt)) : StmtReader (List (Placed Stmt)) := do
  unless ← eat .newline do
    unless ← at? .eof do
      report ⟨(← peek).span, .invalidSyntax⟩
      skipLine
  return stmts

/-- The end of a line is read amid the tokens. -/
theorem goesOn_lineEnd {tokens : List Token} (stmts : List (Placed Stmt)) (s : StmtState) :
    GoesOn tokens (lineEnd stmts) s := by
  refine .bind (.eat (by simp)) fun found s _ => .ite (fun _ => .pure trivial) fun _ => .at_bind ?_
  refine .ite (fun _ => .pure trivial) fun _ => .peek_bind (.report_bind ?_)
  exact .bind .skipLine fun _ s _ => .pure trivial

/-- It ends behind the first token of the line. -/
theorem lineEnd_leaves (hc : c.kind.isLineEnd = false) (stmts : List (Placed Stmt)) (s : StmtState) :
    Leaves c (lineEnd stmts) s := by
  refine .of_inner hc (fun _ => goesOn_lineEnd _ _) (fun s hinner => ?_) s
  refine .eat_bind_of_ne (ne_newline_of_inner hinner) (.at_bind (.ite (fun hat => ?_) fun _ => ?_))
  · rw [show s.cursor.kind = .eof from eq_of_beq hat] at hinner
    cases hinner
  · refine .peek_bind (.report_bind ?_)
    exact .bind (skipLine_leaves hinner _) fun _ s => .pure (P := fun _ => True) trivial

/-- **A line of simple statements** is passed if it has a token, whatever its statements are. -/
theorem simpleLine_leaves (hc : c.kind.isLineEnd = false) (s : StmtState) : Leaves c simpleLine s := by
  refine .rounds_bind (.seq (.smallStatements _) fun stmts s => .at_bind (.ite (fun hat => ?_) fun _ => ?_))
  · have hkind : s.cursor.kind = .comment := eq_of_beq hat
    refine .seq (P := fun _ => True) (fun hs => ⟨hs.advance (by simp [hkind]), trivial⟩) ?_
    exact fun comment s => lineEnd_leaves hc _ s
  · exact lineEnd_leaves hc _ s

/-! ### A compound statement -/

/-- What is past a header has passed its first token. -/
theorem PastHeader.passes {c' : Cursor} (h : PastHeader c c') : c.Passes c' :=
  ⟨h.first, (Within.advance h.second).trans h.within⟩

/-- A function header ends behind its first token. -/
theorem functionHeader_leaves (decorators : List Expr) (isAsync : Bool) (s : StmtState) :
    Leaves s.cursor (functionHeader decorators isAsync) s := .of_passes fun header s' hrun => by
  obtain ⟨hissues, hpast, -⟩ := functionHeader_ok hrun
  exact ⟨hissues, hpast.passes⟩

/-- So does a class header. -/
theorem classHeader_leaves (decorators : List Expr) (s : StmtState) :
    Leaves s.cursor (classHeader decorators) s := .of_passes fun header s' hrun => by
  obtain ⟨hissues, hpast, -⟩ := classHeader_ok hrun
  exact ⟨hissues, hpast.passes⟩

/-- So does a header without an expression. -/
theorem skipHeader_leaves (s : StmtState) : Leaves s.cursor skipHeader s :=
  .of_passes fun _ s' hrun => by
    obtain ⟨hissues, hinner, hwithin, -⟩ := skipHeader_ok hrun
    exact ⟨hissues, hinner, hwithin⟩

/-- So does a function. -/
theorem function_leaves (n : Nat) (decorators : List Expr) (isAsync : Bool) (s : StmtState) :
    Leaves s.cursor (function (n + 1) decorators isAsync) s :=
  .bind (Q := fun _ => True) (functionHeader_leaves decorators isAsync s) fun _ s =>
    .bind ((readersGather n).block s) fun _ _ _ => .pure trivial

/-- So does a class. -/
theorem classDef_leaves (n : Nat) (decorators : List Expr) (s : StmtState) :
    Leaves s.cursor (classDef (n + 1) decorators) s :=
  .bind (Q := fun _ => True) (classHeader_leaves decorators s) fun _ s =>
    .bind ((readersGather n).block s) fun _ _ _ => .pure trivial

/-- So do clauses. -/
theorem clauses_leaves (n : Nat) (s : StmtState) : Leaves s.cursor (clauses (n + 1)) s := by
  refine .bind (Q := fun _ => True) (skipHeader_leaves s) fun _ s => ?_
  refine .bind ((readersGather n).block s) fun body s _ => .peek_bind ?_
  split
  iterate 4
    · exact .bind ((readersGather n).clauses s) fun others s _ => .pure trivial
  · exact .pure trivial

/-- So does an `if` or `elif`. -/
theorem conditional_leaves (n : Nat) (s : StmtState) (hkind : s.cursor.kind ≠ .eof) :
    Leaves s.cursor (conditional (n + 1)) s := by
  have ih : ReadersGather s.cursor.advance.rest n := readersGather n
  refine .advance_bind (Q := fun _ => True) hkind ?_
  refine .bind (.exprUntil _) fun test s _ => .bind (.expect (by simp)) fun _ s _ => ?_
  refine .bind (ih.block s) fun body s _ => .at_bind (.ite (fun hat => ?_) fun _ => ?_)
  · have hkind : s.cursor.kind = .keyword .Elif := eq_of_beq hat
    exact .bind (.placed (ih.conditional _ (by simp [hkind]))) fun other s _ => .pure trivial
  · refine .bind (.eat (by simp)) fun found s _ => .ite (fun _ => ?_) fun _ => .pure trivial
    exact .bind (.expect (by simp)) fun _ s _ => .bind (ih.block s) fun orelse s _ => .pure trivial

/-- So do decorators. -/
theorem decorators_leaves (n : Nat) (s : StmtState) (hkind : s.cursor.kind = .atSign) :
    Leaves s.cursor (decorators (n + 1)) s := by
  have hmore {tokens : List Token} (first : Expr) (s : StmtState) : GoesOn tokens (do
      skipWhile fun k => k == .comment || k == .blankLine
      let others ← decorators n
      return first :: others) s :=
    .bind (.skipWhile fun kind hkind => by rintro rfl; cases hkind) fun _ s _ =>
      .bind (.decorators n) fun others s _ => .pure trivial
  refine .eat_bind_of_eq (Q := fun _ => True) hkind (by simp) (.ite (fun _ => ?_) fun h => absurd rfl h)
  refine .bind (.exprUntil _) fun first s _ => .bind (.eat (by simp)) fun found s _ => ?_
  exact .ite (fun _ => hmore first s) fun _ =>
    .bind (P := fun _ => True) (.fail _) fun _ s _ => hmore first s

/-- So does a decorated statement. -/
theorem decorated_leaves (n : Nat) (s : StmtState) (hkind : s.cursor.kind = .atSign) :
    Leaves s.cursor (decorated (n + 1)) s := by
  have ih : ReadersGather s.cursor.advance.rest n := readersGather n
  refine .rounds_bind (.bind (Q := fun _ => True) (decorators_leaves _ s hkind) fun ds s => ?_)
  refine .cursor_bind ?_
  split
  · exact (ih.function _ _ s).goesOn
  · exact (ih.classDef _ s).goesOn
  · rename_i hkind
    refine .ite (fun _ => .advance_bind (by simp [hkind]) ?_) fun _ => .fail _
    exact (ih.function _ _ _).goesOn
  · exact .fail _

/-- **A compound statement** that is read is passed; two levels are enough for its header. -/
theorem compound_leaves (n : Nat) (s : StmtState) (hinner : s.cursor.kind.isLineEnd = false) :
    Leaves s.cursor (compound (n + 2)) s := by
  have hkind : s.cursor.kind ≠ .eof := ne_eof_of_inner (by simp [hinner])
  have ih : ReadersGather s.cursor.advance.rest (n + 1) := readersGather (n + 1)
  have hclauses : Leaves s.cursor (do return Stmt.block (← clauses (n + 1))) s :=
    .bind (Q := fun _ => True) (clauses_leaves n s) fun bodies s => .pure trivial
  refine .cursor_bind ?_
  split
  · exact decorated_leaves n s ‹_›
  · exact function_leaves n _ _ s
  · exact classDef_leaves n _ s
  · exact conditional_leaves n s hkind
  -- `async`, in front of a function or of another compound statement
  · refine .advance_bind (Q := fun _ => True) hkind (.ite (fun _ => ?_) fun _ => ?_)
    · exact (ih.function _ _ _).goesOn
    · exact .bind (ih.clauses _) fun bodies s _ => .pure trivial
  · exact hclauses

/-! ### A line of statements -/

/-- What cannot be read is passed over from the place where that was met. -/
theorem orReport_leaves {P : Stmt → Prop} {read : StmtReader Stmt} {recover : StmtReader Unit}
    (hread : Leaves c read s) (hgoes : Gathers c.rest P read s)
    (hrecover : ∀ s, Leaves c recover s) : Leaves c (orReport recover read) s := by
  intro hs stmt s' hrun
  have hfirst := hgoes hs
  change EStateM.tryCatch read _ s = .ok stmt s' at hrun
  unfold EStateM.tryCatch at hrun
  unfold EStateM.run at hfirst
  split at hrun
  · rename_i issue s₁ hfail
    rw [hfail] at hfirst
    refine Leaves.report_bind (.bind (Q := fun _ => True) (hrecover _) fun _ s => ?_) hfirst stmt s' hrun
    exact .pure trivial
  · exact hread hs stmt s' hrun

/-- **A line of statements** is passed if it has a token, also one that cannot be read. -/
theorem statementLine_leaves (n : Nat) (s : StmtState) (hinner : s.cursor.kind.isLineEnd = false) :
    Leaves s.cursor (statementLine (n + 3)) s := by
  refine .cursor_bind (.ite (fun _ => ?_) fun _ => simpleLine_leaves hinner s)
  refine .bind (Q := fun _ => True) (.peek_bind ?_) fun p s => .pure trivial
  refine .bind (Q := fun _ => True) ?_ fun stmt s => .cursor_bind (.pure trivial)
  exact orReport_leaves (compound_leaves n s hinner) ((readersGather (n + 2)).compound s)
    (skipLine_leaves hinner)

/-! ### Readers that do not fail -/

/-- The reader does not fail. -/
def Succeeds (m : StmtReader α) (s : StmtState) : Prop :=
  ∃ a s', m.run s = .ok a s'

namespace Succeeds

/-- A reader that reads nothing does not fail. -/
theorem pure (a : α) : Succeeds (pure a) s :=
  ⟨a, s, rfl⟩

/-- Nor do two that do not, in sequence. -/
theorem bind {m : StmtReader α} {f : α → StmtReader β} (hm : Succeeds m s)
    (hf : ∀ a s, Succeeds (f a) s) : Succeeds (m >>= f) s := by
  obtain ⟨a, s', hrun⟩ := hm
  obtain ⟨b, s'', hrest⟩ := hf a s'
  exact ⟨b, s'', (run_bind_of_ok hrun f).trans hrest⟩

/-- Nor does one that takes either of two such ways. -/
theorem ite {p : Prop} [Decidable p] {m m' : StmtReader α} (hm : Succeeds m s) (hm' : Succeeds m' s) :
    Succeeds (if p then m else m') s := by
  split
  · exact hm
  · exact hm'

/-- Nor does reading a token of one kind, if it is there. -/
theorem eat (kind : TokenKind) : Succeeds (eat kind) s := by
  change Succeeds (if s.cursor.at? kind = true then do let _ ← advance; return true
    else Pure.pure false) s
  split
  · exact ⟨_, _, rfl⟩
  · exact ⟨_, _, rfl⟩

/-- Nor does skipping a line. -/
theorem skipLine : Succeeds skipLine s :=
  bind ⟨_, _, rfl⟩ fun _ _ => bind (eat _) fun _ _ => pure _

theorem peek_bind {f : Token → StmtReader β} (h : Succeeds (f s.cursor.peek) s) :
    Succeeds (peek >>= f) s := h

/-- A statement with recovery does not fail, if the recovery does not. -/
theorem orReport {read : StmtReader Stmt} {recover : StmtReader Unit} (h : ∀ s, Succeeds recover s) :
    Succeeds (orReport recover read) s := by
  change ∃ a s', EStateM.tryCatch read _ s = .ok a s'
  unfold EStateM.tryCatch
  cases hread : read s with
  | ok stmt s' => exact ⟨stmt, s', rfl⟩
  | error issue s' =>
    have hreport : Succeeds (report issue) s' := ⟨_, _, rfl⟩
    exact hreport.bind fun _ s => bind (h s) fun _ _ => pure Stmt.other

/-- Placing a statement does not fail. -/
theorem placed {read : StmtReader Stmt} (h : Succeeds read s) : Succeeds (placed read) s :=
  peek_bind (bind h fun _ _ => ⟨_, _, rfl⟩)

/-- Nor do the small statements of a line. -/
theorem smallStatements (n : Nat) : Succeeds (smallStatements n) s := by
  induction n generalizing s with
  | zero => exact pure []
  | succ n ih =>
    refine bind (placed (orReport fun _ => ⟨_, _, rfl⟩)) fun first s => bind (eat _) fun found s => ?_
    exact ite (peek_bind (ite (pure _) (bind ih fun _ _ => pure _))) (pure _)

/-- Nor does the end of a line. -/
theorem lineEnd (stmts : List (Placed Stmt)) : Succeeds (lineEnd stmts) s := by
  refine bind (eat _) fun found s => ite (pure _) (bind ⟨_, _, rfl⟩ fun atEnd s => ite (pure _) ?_)
  exact peek_bind (bind ⟨_, _, rfl⟩ fun _ s => bind skipLine fun _ _ => pure _)

/-- Nor does a line of small statements. -/
theorem simpleLine : Succeeds simpleLine s := by
  refine bind ⟨_, _, rfl⟩ fun n s => bind (smallStatements n) fun stmts s => ?_
  refine bind ⟨_, _, rfl⟩ fun atComment s => ite (bind ⟨_, _, rfl⟩ fun comment s => ?_) (lineEnd _)
  exact lineEnd _

/-- Nor does any line. -/
theorem statementLine (n : Nat) : Succeeds (statementLine n) s := by
  cases n with
  | zero => exact pure []
  | succ n =>
    refine bind ⟨_, _, rfl⟩ fun c s => ite ?_ simpleLine
    exact bind (placed (orReport fun _ => skipLine)) fun _ _ => pure _

end Succeeds

end StmtReader

end PackageDoc
