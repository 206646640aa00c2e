import PackageDoc.Proofs.Layout.Lines
import PackageDoc.Proofs.Progress.Texts

namespace PackageDoc

/-!
# Texts of one line

How a text with one logical line is read when it is known how its statement is.

* `StmtReader.run_simpleLine` — a line with one simple statement;
* `Suite.parse_of_statementLine` — a text with one line.
-/

namespace StmtReader

variable {s s' : StmtState} {stmt : Stmt} {read : StmtReader Stmt} {prev last t newline : Token}
variable {ts after : List Token} {issues : List SyntaxIssue}

/-- Nothing is reported about a statement that is read. -/
theorem run_orReport_of_ok (h : read.run s = .ok stmt s') (recover : StmtReader Unit) :
    (orReport recover read).run s = .ok stmt s' := by
  change EStateM.tryCatch read _ s = _
  unfold EStateM.tryCatch
  rw [show read s = .ok stmt s' from h]

/-- A statement is placed where it is read. -/
theorem run_placed (h : read.run s = .ok stmt s') :
    (placed read).run s =
      .ok { stmt := stmt, span := s.cursor.peek.span.cover s'.cursor.prev.span } s' := by
  rw [placed, run_bind_of_ok (show peek.run s = .ok s.cursor.peek s from rfl), run_bind_of_ok h]
  rfl

/-- A line with one simple statement, read to its end. -/
theorem run_simpleLine (h : smallStatement.run s = .ok stmt ⟨⟨last, newline :: after⟩, issues⟩)
    (hnewline : newline.kind = .newline) :
    simpleLine.run s =
      .ok [{ stmt := stmt, span := s.cursor.peek.span.cover last.span }]
        ⟨⟨newline, after⟩, issues⟩ := by
  have hfirst := run_placed (run_orReport_of_ok h skipStatement)
  have hat (kind : TokenKind) (hkind : kind ≠ .newline) :
      (Cursor.mk last (newline :: after)).at? kind = false := by
    rw [Cursor.at?_cons, hnewline]
    exact beq_eq_false_iff_ne.mpr hkind.symm
  have hstatements : (smallStatements (s.cursor.rest.length + 1)).run s =
      .ok [{ stmt := stmt, span := s.cursor.peek.span.cover last.span }]
        ⟨⟨last, newline :: after⟩, issues⟩ := by
    rw [smallStatements, run_bind_of_ok hfirst, run_eat_bind, if_neg (by simp [hat])]
    rfl
  rw [simpleLine, run_bind_of_ok (show rounds.run s = .ok (s.cursor.rest.length + 1) s from rfl),
    run_bind_of_ok hstatements]
  -- no comment stands behind the statement, but the end of the line
  rw [run_bind_of_ok (show (at? .comment).run _ = .ok false _ from
    congrArg (EStateM.Result.ok · _) (hat .comment (by simp)))]
  rw [if_neg Bool.false_ne_true, pure_bind, run_eat_bind,
    if_pos (by rw [Cursor.at?_cons, hnewline]; rfl)]
  rfl

/-- Where a statement begins, its line is read and then what is below it. -/
theorem run_statements_of_content (ht : t.kind.isContent = true) (n : Nat) (pending : List Comment)
    (inBlock : Bool) :
    (statements (n + 1) pending inBlock).run ⟨⟨prev, t :: ts⟩, issues⟩ =
      (do
        let line ← statementLine n
        let others ← statements n [] inBlock
        return withLeading pending line ++ others : StmtReader (List (Placed Stmt))).run
        ⟨⟨prev, t :: ts⟩, issues⟩ := by
  rw [statements, run_bind_of_ok (show peek.run _ = .ok t _ from rfl)]
  split <;> simp_all [TokenKind.isContent]

end StmtReader

open StmtReader in
/-- A text without issues in which one line is read, down to the end of the text. -/
theorem Suite.parse_of_statementLine {source : String} {t last eof : Token} {ts : List Token}
    {line : List (Placed Stmt)} (htokens : tokenize source = (t :: ts, []))
    (ht : t.kind.isContent = true) (heof : eof.kind = .eof)
    (hline : ∀ prev n, (statementLine (n + 6)).run ⟨⟨prev, t :: ts⟩, []⟩ =
      .ok line ⟨⟨last, [eof]⟩, []⟩) :
    Suite.parse source =
      ⟨withLeading [] line, ⟨0, Text.byteLength source.toList⟩, []⟩ := by
  obtain ⟨n, hn⟩ : ∃ n, 8 * ((tokenize source).1.length + 1) = n + 6 + 1 :=
    ⟨8 * (tokenize source).1.length + 1, by omega⟩
  have hend : (statements (n + 6) [] false).run ⟨⟨last, [eof]⟩, []⟩ =
      .ok [] ⟨⟨last, [eof]⟩, []⟩ := by
    rw [statements, run_bind_of_ok (show peek.run _ = .ok eof _ from rfl), heof]
    rfl
  have hstart : Suite.start source =
      ⟨⟨⟨.eof, ⟨Text.byteLength source.toList, Text.byteLength source.toList⟩, ""⟩, t :: ts⟩, []⟩ := by
    rw [Suite.start, htokens]
    rfl
  have hrun : (statements (8 * ((tokenize source).1.length + 1)) [] false).run (Suite.start source) =
      .ok (withLeading [] line ++ []) ⟨⟨last, [eof]⟩, []⟩ := by
    rw [hn, hstart, run_statements_of_content ht, run_bind_of_ok (hline _ n), run_bind_of_ok hend]
    rfl
  rw [Suite.parse_of_run_eq_ok hrun, List.append_nil]
  rfl

end PackageDoc
