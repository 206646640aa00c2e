import PackageDoc.Proofs.Layout.Blocks

namespace PackageDoc

/-!
# Comments document the statement below them

A statement that begins a line has the comments in the lines directly above it as its own, unless a
block ends between them and the statement.  The end of a block is found at the first line that is
indented less, behind the comments in front of that line: they are collected for the block, and
dropped with its end.

* `commentsAbove` — the comments in the lines directly above a place;
* `commentsDropped` — those of them in front of the end of a block;
* `Suite.leading_eq_commentsAbove_iff` — a statement has all of them when none is dropped.
-/

/-- The comments in the lines directly above, with no blank line between, read off the tokens in
    front, last first.  The beginnings and the ends of blocks change nothing. -/
def commentsAbove : List Token → List Comment
  | [] => []
  | t :: before =>
    match t.kind with
    | .comment => commentsAbove before ++ [Comment.ofToken t]
    | .blankLine => if before.head?.any fun u => u.kind == .comment then commentsAbove before else []
    | .indent | .dedent => commentsAbove before
    | _ => []

/-- Those of them in front of the end of a block. -/
def commentsDropped : List Token → List Comment
  | [] => []
  | t :: before =>
    match t.kind with
    | .comment | .indent => commentsDropped before
    | .blankLine =>
      if before.head?.any fun u => u.kind == .comment then commentsDropped before else []
    | .dedent => commentsAbove before
    | _ => []

/-- The comments directly above are those dropped and those kept. -/
theorem commentsAbove_eq_append (before : List Token) :
    commentsAbove before = commentsDropped before ++ commentRun before := by
  induction before with
  | nil => rfl
  | cons t before ih =>
    rw [commentsAbove, commentsDropped, commentRun]
    cases t.kind with
    | comment => rw [ih, List.append_assoc]
    | blankLine =>
      dsimp only
      split
      · exact ih
      · rfl
    | indent => exact ih
    | dedent => exact (List.append_nil _).symm
    | _ => rfl

/-- **Comments document the statement below them.**  In a text that is read without issues, a
    statement that begins a line has exactly the comments in the lines directly above it, in their
    order, when none of them is in front of the end of a block. -/
theorem Suite.leading_eq_commentsAbove_iff (source : String) (h : (Suite.parse source).issues = [])
    (p : Placed Stmt) (hp : p ∈ statementsIn (Suite.parse source).body)
    (hstart : p.span.start ∈ lineStarts false (tokenize source).1)
    (hempty : p.stmt.isEmpty = false) :
    p.leading = commentsAbove (tokensBefore (tokenize source).1 p.span.start) ↔
      commentsDropped (tokensBefore (tokenize source).1 p.span.start) = [] := by
  have hled := (Suite.parse_goodBody h).2 p hp hstart hempty
  rw [hled, commentsAbove_eq_append]
  exact List.self_eq_append_left

/-- A comment that is dropped with the end of the block above it. -/
def commentBelowBlock : String :=
  "# above\ndef f():\n    # inside\n    pass\n# below\nx = 1\n"

/-- Of comments above and below a block, those above are kept. -/
theorem Suite.leading_eq_commentsAbove_iff_below :
    (Suite.parse commentBelowBlock).issues = [] ∧
      ∃ p ∈ statementsIn (Suite.parse commentBelowBlock).body,
        p.span.start ∈ lineStarts false (tokenize commentBelowBlock).1 ∧ p.stmt.isEmpty = false ∧
        (p.leading = commentsAbove (tokensBefore (tokenize commentBelowBlock).1 p.span.start) ↔
          commentsDropped (tokensBefore (tokenize commentBelowBlock).1 p.span.start) = []) := by
  have hissues : (Suite.parse commentBelowBlock).issues = [] := by decide +kernel
  -- the statement inside the block
  refine ⟨hissues, _, List.get_mem (statementsIn (Suite.parse commentBelowBlock).body)
    ⟨1, by decide +kernel⟩, by decide +kernel, by decide +kernel, ?_⟩
  exact Suite.leading_eq_commentsAbove_iff commentBelowBlock hissues _ (List.get_mem _ _)
    (by decide +kernel) (by decide +kernel)

/-- The statement behind the block has no comments although one is directly above. -/
theorem Suite.leading_ne_commentsAbove_below :
    (Suite.parse commentBelowBlock).issues = [] ∧
      ∃ p ∈ statementsIn (Suite.parse commentBelowBlock).body,
        p.span.start ∈ lineStarts false (tokenize commentBelowBlock).1 ∧ p.stmt.isEmpty = false ∧
        p.leading = [] ∧
        (commentsAbove (tokensBefore (tokenize commentBelowBlock).1 p.span.start)).map
          Comment.text = ["below"] := by
  refine ⟨by decide +kernel, _, List.get_mem (statementsIn (Suite.parse commentBelowBlock).body)
    ⟨2, by decide +kernel⟩, ?_⟩
  decide +kernel

end PackageDoc
