import PackageDoc.Proofs.Layout.Places

namespace PackageDoc

/-!
# Comments above statements

Which comments stand directly above a line, and what the readers of statements have collected of
them at a place.

* `statementsIn` — the statements of a body at any depth;
* `commentRun` — the comments in the lines directly above a place;
* `Pends` — what is collected at a place are the comments directly above it;
* `Led` — a statement that begins a line has the comments directly above as its own, as far back as
  to the end of a block;
* `Pends.led` — so has the statement that is read next.
-/

/-! ### Statements at any depth -/

mutual

/-- A statement and all inside it. -/
def Placed.withInner : Placed Stmt → List (Placed Stmt)
  | ⟨stmt, span, leading, trailing⟩ => ⟨stmt, span, leading, trailing⟩ :: stmt.inner

/-- The statements in the bodies of a statement, at any depth. -/
def Stmt.inner : Stmt → List (Placed Stmt)
  | .functionDef _ body | .classDef _ body => statementsIn body
  | .cond _ body orelse => statementsIn body ++ statementsIn orelse
  | .block bodies => statementsInEach bodies
  | _ => []

/-- The statements of a body, at any depth. -/
def statementsIn : List (Placed Stmt) → List (Placed Stmt)
  | [] => []
  | p :: ps => p.withInner ++ statementsIn ps

/-- The statements of several bodies, at any depth. -/
def statementsInEach : List (List (Placed Stmt)) → List (Placed Stmt)
  | [] => []
  | body :: bodies => statementsIn body ++ statementsInEach bodies

end

/-- The statements in two bodies are those in both joined. -/
theorem statementsIn_append (body body' : List (Placed Stmt)) :
    statementsIn (body ++ body') = statementsIn body ++ statementsIn body' := by
  induction body with
  | nil => rfl
  | cons p ps ih => rw [List.cons_append, statementsIn, statementsIn, ih, List.append_assoc]

/-- A statement with those inside it is the statement and what is inside. -/
theorem Placed.withInner_eq (p : Placed Stmt) : p.withInner = p :: p.stmt.inner := by
  obtain ⟨stmt, span, leading, trailing⟩ := p
  rw [Placed.withInner]

/-- A simple statement has nothing inside. -/
theorem Stmt.inner_of_isSimple {stmt : Stmt} (h : stmt.isSimple = true) : stmt.inner = [] := by
  cases stmt <;> first | rfl | cases h

/-! ### Comments directly above -/

/-- The comments in the lines directly above, read off the tokens in front, last first.  A comment
    has its line for itself when the end of a line without a statement follows.  The beginning of a
    block changes nothing. -/
def commentRun : List Token → List Comment
  | [] => []
  | t :: before =>
    match t.kind with
    | .comment => commentRun before ++ [Comment.ofToken t]
    | .blankLine => if before.head?.any fun u => u.kind == .comment then commentRun before else []
    | .indent => commentRun before
    | _ => []

/-- The tokens in front of the part of a statement that begins at an offset, last first. -/
def tokensBefore (tokens : List Token) (offset : Nat) : List Token :=
  (tokens.takeWhile fun t => !(t.kind.isContent && t.span.start == offset)).reverse

/-- A statement that begins a line has the comments directly above as its own, as far back as to the
    end of a block. -/
def Led (tokens : List Token) (p : Placed Stmt) : Prop :=
  p.span.start ∈ lineStarts false tokens → p.stmt.isEmpty = false →
    p.leading = commentRun (tokensBefore tokens p.span.start)

/-- At a place, the comments collected are those directly above it. -/
def Pends (tokens : List Token) (pending : List Comment) (c : Cursor) : Prop :=
  ∃ before, tokens = before.reverse ++ c.rest ∧ pending = commentRun before ∧
    (c.prev.kind == .comment) = before.head?.any fun u => u.kind == .comment

variable {column : Nat → Nat} {tokens : List Token} {c : Cursor} {columns : List Nat}
variable {pending : List Comment} {p : Placed Stmt}

namespace Pends

variable {prev t : Token} {ts : List Token}

/-- At the beginning nothing is collected. -/
theorem start (stop : Nat) : Pends tokens [] (Cursor.start tokens stop) :=
  ⟨[], rfl, rfl, rfl⟩

/-- One token further, which is put in front of those passed. -/
theorem step (h : Pends tokens pending ⟨prev, t :: ts⟩) :
    ∃ before, pending = commentRun before ∧
      (prev.kind == .comment) = (before.head?.any fun u => u.kind == .comment) ∧
      Pends tokens (commentRun (t :: before)) ⟨t, ts⟩ := by
  obtain ⟨before, htokens, hpending, hprev⟩ := h
  refine ⟨before, hpending, hprev, t :: before, ?_, rfl, rfl⟩
  rw [htokens, List.reverse_cons, List.append_assoc, List.singleton_append]

/-- A comment that is passed is added to those that are pending. -/
theorem comment (h : Pends tokens pending ⟨prev, t :: ts⟩) (ht : t.kind = .comment) :
    Pends tokens (pending ++ [Comment.ofToken t]) ⟨t, ts⟩ := by
  obtain ⟨before, rfl, -, hnext⟩ := h.step
  rwa [commentRun, ht] at hnext

/-- A blank line drops them, unless it ends a comment. -/
theorem blankLine (h : Pends tokens pending ⟨prev, t :: ts⟩) (ht : t.kind = .blankLine) :
    Pends tokens (if prev.kind == .comment then pending else []) ⟨t, ts⟩ := by
  obtain ⟨before, rfl, hprev, hnext⟩ := h.step
  rw [commentRun, ht] at hnext
  rwa [hprev]

/-- Indentation leaves them pending. -/
theorem indent (h : Pends tokens pending ⟨prev, t :: ts⟩) (ht : t.kind = .indent) :
    Pends tokens pending ⟨t, ts⟩ := by
  obtain ⟨before, rfl, -, hnext⟩ := h.step
  rwa [commentRun, ht] at hnext

/-- Passing a comment from its place adds it. -/
theorem advance_comment {l : Layout} (h : Pends tokens pending c) (hp : Place column tokens l c)
    (hkind : c.kind = .comment) : Pends tokens (pending ++ [Comment.ofToken c.peek]) c.advance := by
  obtain ⟨prev, t, ts, rfl⟩ := hp.exists_cons
  exact h.comment hkind

/-- Passing a blank line from its place drops those that it parts from what follows. -/
theorem advance_blankLine {l : Layout} (h : Pends tokens pending c) (hp : Place column tokens l c)
    (hkind : c.kind = .blankLine) :
    Pends tokens (if c.prev.kind == .comment then pending else []) c.advance := by
  obtain ⟨prev, t, ts, rfl⟩ := hp.exists_cons
  exact h.blankLine hkind

/-- Comment lines collected over the next lines without a statement. -/
theorem pendingComments (h : Pends tokens pending ⟨prev, ts⟩) :
    Pends tokens (StmtReader.pendingComments pending prev ts).1
      (StmtReader.pendingComments pending prev ts).2 := by
  induction ts generalizing pending prev with
  | nil => exact h
  | cons t ts ih =>
    rw [StmtReader.pendingComments]
    split
    · rename_i ht
      exact ih (h.comment ht)
    · split
      · rename_i ht
        have hnext := h.blankLine ht
        simp only [beq_iff_eq] at hnext
        exact ih hnext
      · exact h

/-- Behind the end of a line or of a block nothing is collected. -/
theorem of_place {l : Layout} {n : Nat} (hp : Place column tokens l c)
    (hlength : c.rest.length < n) (hn : n ≤ tokens.length)
    (hkind : c.prev.kind = .newline ∨ c.prev.kind = .dedent) : Pends tokens [] c := by
  obtain ⟨⟨pre, htokens, -, hprev⟩, -⟩ := hp
  obtain ⟨rfl, -⟩ | ⟨before, rfl⟩ := hprev
  · rw [htokens, List.nil_append] at hn
    omega
  · refine ⟨c.prev :: before.reverse, ?_, ?_, rfl⟩
    · rw [htokens, List.reverse_cons, List.reverse_reverse]
    · rw [commentRun]
      rcases hkind with hkind | hkind <;> rw [hkind]

/-- The tokens in front of a line. -/
theorem tokensBefore_eq (h : WellLaid column tokens)
    (hp : Place column tokens ⟨none, columns⟩ c) (hkind : c.kind.isContent = true)
    (hpends : Pends tokens pending c) :
    pending = commentRun (tokensBefore tokens c.peek.span.start) := by
  obtain ⟨before, htokens, rfl, -⟩ := hpends
  obtain ⟨prev, t, ts, rfl⟩ := hp.exists_cons
  have hordered := h.ordered
  rw [htokens] at hordered
  -- no part of a statement in front begins where the next token does
  have hfront : ∀ u ∈ before.reverse, (!(u.kind.isContent && u.span.start == t.span.start)) = true := by
    intro u hu
    cases hcontent : u.kind.isContent with
    | false => rfl
    | true =>
      have hsolid := hordered.solid u (List.mem_append_left _ hu) (.inl hcontent)
      have hstop := hordered.stop_le_start hu List.mem_cons_self
      have hne : u.span.start ≠ t.span.start := by omega
      simpa using hne
  have hnext : (!(t.kind.isContent && t.span.start == t.span.start)) = false := by
    rw [show t.kind.isContent = true from hkind, beq_self_eq_true]
    rfl
  congr 1
  change before = tokensBefore tokens t.span.start
  rw [tokensBefore, htokens, List.takeWhile_append_of_pos hfront, List.takeWhile_cons, hnext]
  simp

/-- **The statement that is read next has the comments collected as its own.** -/
theorem led (h : WellLaid column tokens) (hp : Place column tokens ⟨none, columns⟩ c)
    (hkind : c.kind.isContent = true) (hpends : Pends tokens pending c)
    (hleading : p.leading = pending)
    (hstart : p.span.start ∈ lineStarts false tokens → p.stmt.isEmpty = false →
      p.span.start = c.peek.span.start) : Led tokens p := by
  intro hmem hempty
  rw [hleading, hstart hmem hempty]
  exact hpends.tokensBefore_eq h hp hkind

end Pends

/-- In a line that begins at a place, every statement but the first has its comments, as have those
    inside the first. -/
def LineLed (tokens : List Token) (c : Cursor) : List (Placed Stmt) → Prop
  | [] => True
  | p :: ps =>
    (p.span.start ∈ lineStarts false tokens → p.stmt.isEmpty = false →
      p.span.start = c.peek.span.start) ∧
    (∀ q ∈ p.stmt.inner, Led tokens q) ∧ ∀ q ∈ statementsIn ps, Led tokens q

/-- A line with its pending comments is led by them, down to the innermost statement. -/
theorem LineLed.withLeading (h : WellLaid column tokens)
    (hp : Place column tokens ⟨none, columns⟩ c) (hkind : c.kind.isContent = true)
    (hpends : Pends tokens pending c) {line : List (Placed Stmt)} (hline : LineLed tokens c line) :
    ∀ q ∈ statementsIn (StmtReader.withLeading pending line), Led tokens q := by
  match line with
  | [] => simp [StmtReader.withLeading, statementsIn]
  | p :: ps =>
    obtain ⟨hstart, hinner, hothers⟩ := hline
    rw [StmtReader.withLeading, statementsIn, Placed.withInner_eq]
    refine List.forall_mem_append.mpr ⟨List.forall_mem_cons.mpr ⟨?_, hinner⟩, hothers⟩
    exact hpends.led h hp hkind rfl hstart

namespace StmtReader

/-- A simple statement that begins no line, or is empty. -/
theorem led_of_not_mem (h : p.stmt.isEmpty = false → p.span.start ∉ lineStarts false tokens) :
    Led tokens p :=
  fun hmem hempty => absurd hmem (h hempty)

/-- Simple statements are led wherever they are read. -/
theorem led_of_simple {body : List (Placed Stmt)} (hsimple : ∀ p ∈ body, p.stmt.isSimple = true)
    (h : ∀ p ∈ body, Led tokens p) : ∀ q ∈ statementsIn body, Led tokens q := by
  induction body with
  | nil => simp [statementsIn]
  | cons p ps ih =>
    obtain ⟨hp, hps⟩ := List.forall_mem_cons.mp hsimple
    obtain ⟨hled, hleds⟩ := List.forall_mem_cons.mp h
    rw [statementsIn, Placed.withInner_eq, Stmt.inner_of_isSimple hp]
    exact List.forall_mem_append.mpr ⟨by simpa using hled, ih hps hleds⟩

/-- A line of simple statements. -/
theorem LineFrom.lineLed (h : WellLaid column tokens)
    (hp : Place column tokens ⟨none, columns⟩ c) (hkind : c.kind.isContent = true)
    {line : List (Placed Stmt)} (hline : LineFrom c line) : LineLed tokens c line := by
  match line with
  | [] => trivial
  | p :: ps =>
    obtain ⟨hread, hothers⟩ := hline
    refine ⟨fun _ => hread.start_eq h (.inr ⟨hp, hkind⟩), ?_, ?_⟩
    · rw [Stmt.inner_of_isSimple hread.isSimple]
      simp
    · obtain ⟨-, hopen, -⟩ := hp.advance_content h hkind
      refine led_of_simple (fun q hq => ?_) fun q hq => led_of_not_mem fun hempty => ?_
      · obtain ⟨c₁, -, hread⟩ := hothers q hq
        exact hread.isSimple
      · exact (hothers q hq).not_mem h hopen hempty

/-- Simple statements behind a header. -/
theorem led_behindHeader (h : WellLaid column tokens) (hc : BehindHeader column tokens columns c)
    {body : List (Placed Stmt)} (hbody : ∀ p ∈ body, InLineFrom c p) :
    ∀ q ∈ statementsIn body, Led tokens q := by
  obtain ⟨first, hp, -⟩ := hc
  refine led_of_simple (fun q hq => ?_) fun q hq => led_of_not_mem fun hempty => ?_
  · obtain ⟨c₁, -, hread⟩ := hbody q hq
    exact hread.isSimple
  · exact (hbody q hq).not_mem h hp hempty

end StmtReader

end PackageDoc
