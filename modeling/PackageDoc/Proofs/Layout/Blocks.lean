import PackageDoc.Proofs.Layout.Comments
import PackageDoc.Proofs.Layout.Tokens

namespace PackageDoc

/-!
# Block structure is indentation structure

* `BodyAt` — the statements of a body that begin a logical line start at one column, and the bodies
  inside them are indented more than the lines of their headers;
* `Suite.parse_indented` — so do those of a text that is read without issues, at column 0.

A statement begins a line when its span starts where a logical line does.  An empty statement, which
a semicolon on its own leaves, has no token: its span reaches back to the token in front.
-/

/-! ### Bodies at a column -/

section Bodies

variable (column : Nat → Nat) (tokens : List Token)

/-- Is this the statement that an `elif` stands for, on a line of its own? -/
def IsElif : List (Placed Stmt) → Prop
  | [p] => (∃ test body orelse, p.stmt = .cond test body orelse) ∧
      p.span.start ∈ lineStarts false tokens ∧
      ∃ t ∈ tokens, t.kind = .keyword .Elif ∧ t.span.start = p.span.start
  | _ => False

mutual

/-- The statements of a body that begin a line start at column `c`, and the bodies inside all its
    statements are indented. -/
def BodyAt (c : Nat) : List (Placed Stmt) → Prop
  | [] => True
  | p :: ps => (p.span.start ∈ lineStarts false tokens → column p.span.start = c) ∧
      PlacedIndented p ∧ BodyAt c ps

/-- The bodies inside a statement are indented. -/
def PlacedIndented : Placed Stmt → Prop
  | ⟨stmt, span, _, _⟩ => StmtIndented span.start stmt

/-- The bodies inside a statement that begins at `start` are at columns beyond that of the line with
    its header.  The statement of an `elif` is at the same column. -/
def StmtIndented (start : Nat) : Stmt → Prop
  | .functionDef header body =>
    ∃ c, lineColumn column tokens header.name.span.start < c ∧ BodyAt c body
  | .classDef header body =>
    ∃ c, lineColumn column tokens header.name.span.start < c ∧ BodyAt c body
  | .cond _ body orelse =>
    (∃ c, lineColumn column tokens start < c ∧ BodyAt c body) ∧
      ((IsElif tokens orelse ∧ BodyAt (lineColumn column tokens start) orelse) ∨
        ∃ c, lineColumn column tokens start < c ∧ BodyAt c orelse)
  | .block bodies => BodiesBeyond (lineColumn column tokens start) bodies
  | _ => True

/-- Each of the bodies is at a column beyond `c₀`. -/
def BodiesBeyond (c₀ : Nat) : List (List (Placed Stmt)) → Prop
  | [] => True
  | body :: bodies => (∃ c, c₀ < c ∧ BodyAt c body) ∧ BodiesBeyond c₀ bodies

end

end Bodies

variable {column : Nat → Nat} {tokens : List Token} {columns : List Nat} {c₀ : Nat}
variable {body body' : List (Placed Stmt)} {p : Placed Stmt} {c c' : Cursor}

/-- A body stands at a column when each statement that begins a line does, and is indented
    itself. -/
theorem bodyAt_iff : BodyAt column tokens c₀ body ↔ ∀ p ∈ body,
    (p.span.start ∈ lineStarts false tokens → column p.span.start = c₀) ∧
      PlacedIndented column tokens p := by
  induction body with
  | nil => simp [BodyAt]
  | cons p ps ih => rw [BodyAt, ih, List.forall_mem_cons, and_assoc]

theorem BodyAt.append (h : BodyAt column tokens c₀ body) (h' : BodyAt column tokens c₀ body') :
    BodyAt column tokens c₀ (body ++ body') := by
  rw [bodyAt_iff] at h h' ⊢
  exact List.forall_mem_append.mpr ⟨h, h'⟩

/-- Comments above a body do not move it. -/
theorem BodyAt.withLeading (h : BodyAt column tokens c₀ body) (pending : List Comment) :
    BodyAt column tokens c₀ (StmtReader.withLeading pending body) := by
  cases body with
  | nil => exact h
  | cons p ps =>
    obtain ⟨stmt, span, leading, trailing⟩ := p
    exact h

/-- A simple statement has no bodies to indent. -/
theorem placedIndented_of_isSimple (h : p.stmt.isSimple = true) : PlacedIndented column tokens p := by
  obtain ⟨stmt, span, leading, trailing⟩ := p
  cases stmt <;> first | exact trivial | cases h

/-! ### Statements in lines -/

/-- A line of simple statements, none of which begins a line elsewhere than the line does. -/
theorem bodyAt_simpleLine (h : WellLaid column tokens) (hc : InLine column tokens columns c)
    (hps : ∀ p ∈ body, StmtReader.InLineFrom c p) :
    BodyAt column tokens (columns.headD 0) body := by
  refine bodyAt_iff.mpr fun p hp => ?_
  obtain ⟨c₁, hc₁, hread⟩ := hps p hp
  obtain ⟨c₂, hc₂, hstart, -⟩ := hread.span
  have hc₁ := hc.within h hc₁
  exact ⟨hc₁.column_eq h hread.inner (hc₁.startsAt h hc₂ hstart),
    placedIndented_of_isSimple hread.isSimple⟩

/-- Behind the colon of a header no statement begins a line. -/
theorem BehindHeader.bodyAt (h : WellLaid column tokens) (hc : BehindHeader column tokens columns c)
    (hps : ∀ p ∈ body, StmtReader.InLineFrom c p) (c₀ : Nat) : BodyAt column tokens c₀ body := by
  refine bodyAt_iff.mpr fun p hp => ?_
  obtain ⟨c₁, hc₁, hread⟩ := hps p hp
  obtain ⟨c₂, hc₂, hstart, -⟩ := hread.span
  have hbehind := hc.within h hc₁
  have hstarts := hbehind.inLine.startsAt h hc₂ hstart
  exact ⟨fun hmem => absurd hmem (hbehind.not_mem h hread.inner hstarts),
    placedIndented_of_isSimple hread.isSimple⟩

/-! ### What the readers leave behind -/

namespace StmtReader

variable {n : Nat} {s s' : StmtState}

/-- From a place that satisfies `pre` the reader comes without an issue only to a result and a place
    that satisfy `post`, and without an issue before. -/
def Leads {α : Type} (m : StmtReader α) (pre : Cursor → Prop) (post : Cursor → α → Cursor → Prop) :
    Prop :=
  ∀ s a s', m.run s = .ok a s' → s'.issues = [] →
    s.issues = [] ∧ (pre s.cursor → post s.cursor a s'.cursor)

theorem Leads.pure {α : Type} {a : α} {pre : Cursor → Prop} {post : Cursor → α → Cursor → Prop}
    (hpre : ∀ c, ¬ pre c) : Leads (pure a) pre post := by
  intro s b s' hrun hclean
  obtain ⟨rfl, rfl⟩ := run_pure_ok hrun
  exact ⟨hclean, fun h => absurd h (hpre _)⟩

/-- Behind a place, with a line or a block just ended. -/
structure Lands (column : Nat → Nat) (tokens : List Token) (columns : List Nat) (c c' : Cursor) :
    Prop where
  place : Place column tokens ⟨none, columns⟩ c'
  behind : c'.rest.length < c.rest.length
  ended : c'.prev.kind = .newline ∨ c'.prev.kind = .dedent

namespace Lands

/-- What lands behind a later cursor lands behind an earlier one. -/
theorem of_behind {c₁ : Cursor} (h : Lands column tokens columns c₁ c')
    (hlength : c₁.rest.length ≤ c.rest.length) : Lands column tokens columns c c' :=
  ⟨h.place, lt_of_lt_of_le h.behind hlength, h.ended⟩

/-- Nothing is collected there. -/
theorem pends (h : Lands column tokens columns c c') (hc : c.rest.length ≤ tokens.length) :
    Pends tokens [] c' :=
  .of_place h.place h.behind hc h.ended

end Lands

/-- A body at a column, whose statements have their comments. -/
def GoodBody (column : Nat → Nat) (tokens : List Token) (c₀ : Nat) (body : List (Placed Stmt)) :
    Prop :=
  BodyAt column tokens c₀ body ∧ ∀ q ∈ statementsIn body, Led tokens q

/-- A statement that begins at `start`, with bodies that are indented and have their comments. -/
def GoodStmt (column : Nat → Nat) (tokens : List Token) (start : Nat) (stmt : Stmt) : Prop :=
  StmtIndented column tokens start stmt ∧ ∀ q ∈ stmt.inner, Led tokens q

theorem GoodBody.append (h : GoodBody column tokens c₀ body) (h' : GoodBody column tokens c₀ body') :
    GoodBody column tokens c₀ (body ++ body') := by
  refine ⟨h.1.append h'.1, ?_⟩
  rw [statementsIn_append]
  exact List.forall_mem_append.mpr ⟨h.2, h'.2⟩

/-- What the readers of statements and blocks do within `n` levels.  The tokens left bound the
    levels that a reader needs. -/
structure ReadersLead (column : Nat → Nat) (tokens : List Token) (n : Nat) : Prop where
  statements : ∀ pending inBlock columns, Leads (statements n pending inBlock)
    (fun c => Place column tokens ⟨none, columns⟩ c ∧ Pends tokens pending c ∧
      (inBlock = true ↔ 1 < columns.length) ∧ 8 * c.rest.length ≤ n)
    fun c body c' => GoodBody column tokens (columns.headD 0) body ∧
      (inBlock = true → Lands column tokens columns.tail c c')
  statementLine : ∀ columns, Leads (statementLine n)
    (fun c => Place column tokens ⟨none, columns⟩ c ∧ c.kind.isContent = true ∧
      8 * c.rest.length ≤ n + 1)
    fun c line c' => BodyAt column tokens (columns.headD 0) line ∧ LineLed tokens c line ∧
      Lands column tokens columns c c'
  compound : ∀ columns, Leads (compound n)
    (fun c => Place column tokens ⟨none, columns⟩ c ∧ c.kind.isContent = true ∧ c.kind ≠ .colon ∧
      8 * c.rest.length ≤ n + 2)
    fun c stmt c' => GoodStmt column tokens c.peek.span.start stmt ∧
      Lands column tokens columns c c'
  block : ∀ columns, Leads (block n)
    (fun c => BehindHeader column tokens columns c ∧ 8 * c.rest.length + 2 ≤ n)
    fun c body c' => (∃ c₀, columns.headD 0 < c₀ ∧ GoodBody column tokens c₀ body) ∧
      Lands column tokens columns c c'
  decorated : ∀ columns, Leads (decorated n)
    (fun c => Place column tokens ⟨none, columns⟩ c ∧ 8 * c.rest.length ≤ n + 3)
    fun c stmt c' => GoodStmt column tokens c.peek.span.start stmt ∧
      Lands column tokens columns c c'
  function : ∀ decorators isAsync columns, Leads (function n decorators isAsync)
    (fun c => InLine column tokens columns c ∧ 8 * c.rest.length ≤ n + 4)
    fun c stmt c' => (∀ start, GoodStmt column tokens start stmt) ∧
      Lands column tokens columns c c'
  classDef : ∀ decorators columns, Leads (classDef n decorators)
    (fun c => InLine column tokens columns c ∧ 8 * c.rest.length ≤ n + 4)
    fun c stmt c' => (∀ start, GoodStmt column tokens start stmt) ∧
      Lands column tokens columns c c'
  conditional : ∀ columns, Leads (conditional n)
    (fun c => Place column tokens ⟨none, columns⟩ c ∧ c.kind.isContent = true ∧
      8 * c.rest.length ≤ n + 3)
    fun c stmt c' => (∃ test body orelse, stmt = .cond test body orelse) ∧
      GoodStmt column tokens c.peek.span.start stmt ∧ Lands column tokens columns c c'
  clauses : ∀ columns, Leads (clauses n)
    (fun c => InLine column tokens columns c ∧
      (c.kind = .colon → ∃ first, Place column tokens ⟨some first, columns⟩ c) ∧
      8 * c.rest.length ≤ n + 3)
    fun c bodies c' => BodiesBeyond column tokens (columns.headD 0) bodies ∧
      (∀ q ∈ statementsInEach bodies, Led tokens q) ∧ Lands column tokens columns c c'

/-- Behind lines without a statement no line is open. -/
theorem skipTokens_place (h : WellLaid column tokens) {prev : Token} {ts : List Token}
    {f : TokenKind → Bool} (hf : ∀ kind, f kind = true → kind = .comment ∨ kind = .blankLine)
    (hp : Place column tokens ⟨none, columns⟩ ⟨prev, ts⟩) :
    Place column tokens ⟨none, columns⟩ (Cursor.skipTokens f prev ts) ∧
      (Cursor.skipTokens f prev ts).rest.length ≤ ts.length := by
  induction ts generalizing prev with
  | nil => exact ⟨hp, le_refl _⟩
  | cons t ts ih =>
    rw [Cursor.skipTokens]
    split
    · rename_i ht
      obtain ⟨hp', hlength⟩ := hp.advance_blank h (hf t.kind ht)
      obtain ⟨hskip, hle⟩ := ih hp'
      exact ⟨hskip, Nat.le_succ_of_le hle⟩
    · exact ⟨hp, le_refl _⟩

/-- Behind the comments of a line the parser is at its first token. -/
theorem pendingComments_place (h : WellLaid column tokens) {prev : Token} {ts : List Token}
    {pending : List Comment} (hp : Place column tokens ⟨none, columns⟩ ⟨prev, ts⟩) :
    Place column tokens ⟨none, columns⟩ (pendingComments pending prev ts).2 ∧
      (pendingComments pending prev ts).2.rest.length ≤ ts.length := by
  induction ts generalizing pending prev with
  | nil => exact ⟨hp, le_refl _⟩
  | cons t ts ih =>
    rw [pendingComments]
    split
    · rename_i ht
      obtain ⟨hp', hle⟩ := ih (hp.advance_blank h (.inl ht)).1
      exact ⟨hp', Nat.le_succ_of_le hle⟩
    · split
      · rename_i ht
        obtain ⟨hp', hle⟩ := ih (hp.advance_blank h (.inr ht)).1
        exact ⟨hp', Nat.le_succ_of_le hle⟩
      · exact ⟨hp, le_refl _⟩

/-- At the first line of a block, where the comments above it are collected. -/
theorem block_place (h : WellLaid column tokens) {first : Nat} {r : List Comment × Cursor}
    (hp : Place column tokens ⟨some first, columns⟩ c) (hkind : c.kind = .newline)
    (hr : pendingComments [] c.advance.prev c.advance.rest = r) (hindent : r.2.kind = .indent) :
    ∃ c₀, columns.headD 0 < c₀ ∧ Place column tokens ⟨none, c₀ :: columns⟩ r.2.advance ∧
      Pends tokens r.1 r.2.advance ∧ r.2.advance.rest.length < c.rest.length := by
  obtain ⟨hp₁, hlength₁⟩ := hp.advance_newline h hkind
  -- the line has just ended, so no comment above the block has been collected yet
  have hended : c.advance.prev.kind = .newline := by
    obtain ⟨prev, t, ts, rfl⟩ := hp.exists_cons
    exact hkind
  have hpends : Pends tokens [] c.advance := .of_place hp₁ hlength₁ hp.length_le (.inl hended)
  generalize c.advance = c₁ at hp₁ hlength₁ hpends hr
  obtain ⟨prev₁, ts₁⟩ := c₁
  obtain rfl : pendingComments [] prev₁ ts₁ = r := hr
  replace hpends := hpends.pendingComments
  obtain ⟨hp₂, hlength₂⟩ : Place column tokens ⟨none, columns⟩ (pendingComments [] prev₁ ts₁).2 ∧
      _ := pendingComments_place h hp₁
  dsimp only at hlength₁ hindent
  obtain ⟨c₀, hlt, hp₃, hlength₃⟩ := hp₂.advance_indent h hindent
  refine ⟨c₀, hlt, hp₃, ?_, by omega⟩
  obtain ⟨prev, t, ts, heq⟩ := hp₂.exists_cons
  rw [heq] at hpends hindent ⊢
  exact hpends.indent hindent

/-- Behind decorators and the lines below them no line is open. -/
theorem decorators_place (h : WellLaid column tokens) (columns : List Nat) {ds : List Expr}
    (hrun : (decorators n).run s = .ok ds s') :
    s'.issues = s.issues ∧ (Place column tokens ⟨none, columns⟩ s.cursor →
      Place column tokens ⟨none, columns⟩ s'.cursor ∧
        s'.cursor.rest.length ≤ s.cursor.rest.length) := by
  induction n generalizing s ds with
  | zero =>
    obtain ⟨rfl, rfl⟩ := run_pure_ok hrun
    exact ⟨rfl, fun hp => ⟨hp, le_refl _⟩⟩
  | succ n ih =>
    obtain ⟨found, s₁, hat, hmore⟩ := run_bind_ok hrun
    obtain ⟨rfl, hkind, rfl⟩ | ⟨rfl, -, rfl⟩ := eat_ok hat
    -- a decorator is a line of its own, and the lines of comments below it are passed over
    · obtain ⟨first, s₂, hfirst, hmore⟩ := run_bind_ok hmore
      obtain ⟨hissues, hwithin⟩ := Stays.exprUntil _ _ _ _ hfirst
      obtain ⟨found, s₃, hnewline, hend⟩ := run_bind_ok hmore
      obtain ⟨rfl, hkind₂, rfl⟩ | ⟨rfl, -, rfl⟩ := eat_ok hnewline
      · obtain ⟨_, s₄, hskip, hend⟩ := run_bind_ok hend
        cases hskip
        obtain ⟨others, s₅, hothers, hret⟩ := run_bind_ok hend
        obtain ⟨rfl, rfl⟩ := run_pure_ok hret
        obtain ⟨hissues', hplace⟩ := ih hothers
        refine ⟨hissues'.trans hissues, fun hp => ?_⟩
        obtain ⟨-, hp₁, hlength₁⟩ := hp.advance_content h (by rw [hkind]; rfl)
        obtain ⟨hp₃, hlength₃⟩ := (hp₁.within h hwithin).advance_newline h hkind₂
        obtain ⟨hp₄, hlength₄⟩ := skipTokens_place h (f := fun k => k == .comment || k == .blankLine)
          (fun kind hkind => by simpa using hkind) hp₃
        obtain ⟨hp₅, hlength₅⟩ := hplace hp₄
        refine ⟨hp₅, ?_⟩
        calc s'.cursor.rest.length
          _ ≤ s₂.cursor.advance.rest.length := le_trans hlength₅ hlength₄
          _ ≤ s₂.cursor.rest.length := hlength₃.le
          _ ≤ s.cursor.advance.rest.length := hwithin.length_le
          _ ≤ s.cursor.rest.length := hlength₁.le
      · obtain ⟨_, s₄, hfail, -⟩ := run_bind_ok hend
        cases hfail
    · obtain ⟨rfl, rfl⟩ := run_pure_ok hmore
      exact ⟨rfl, fun hp => ⟨hp, le_refl _⟩⟩

namespace ReadersLead

/-- No place has so few tokens left that there is no level to read on. -/
theorem zero : ReadersLead column tokens 0 where
  statements _ _ _ := .pure fun _ ⟨hp, _, _, hn⟩ => by have hpos := hp.length_pos; omega
  statementLine _ := .pure fun _ ⟨hp, _, hn⟩ => by have hpos := hp.length_pos; omega
  compound _ := .pure fun _ ⟨hp, _, _, hn⟩ => by have hpos := hp.length_pos; omega
  block _ := .pure fun _ ⟨_, hn⟩ => by omega
  decorated _ := .pure fun _ ⟨hp, hn⟩ => by have hpos := hp.length_pos; omega
  function _ _ _ := .pure fun _ ⟨hc, hn⟩ => by have hpos := hc.length_pos; omega
  classDef _ _ := .pure fun _ ⟨hc, hn⟩ => by have hpos := hc.length_pos; omega
  conditional _ := .pure fun _ ⟨hp, _, hn⟩ => by have hpos := hp.length_pos; omega
  clauses _ := .pure fun _ ⟨hc, _, hn⟩ => by have hpos := hc.length_pos; omega

/-- Behind a token without a statement the reading goes on. -/
theorem statements_further (ih : ReadersLead column tokens n) (columns : List Nat)
    {pending : List Comment} {inBlock : Bool} (hrun : (StmtReader.statements n pending inBlock).run
      { s with cursor := s.cursor.advance } = .ok body s') (hclean : s'.issues = []) :
    s.issues = [] ∧
      (Place column tokens ⟨none, columns⟩ s.cursor.advance ∧
        s.cursor.advance.rest.length < s.cursor.rest.length →
      Pends tokens pending s.cursor.advance → (inBlock = true ↔ 1 < columns.length) →
      8 * s.cursor.rest.length ≤ n + 1 →
      GoodBody column tokens (columns.headD 0) body ∧
        (inBlock = true → Lands column tokens columns.tail s.cursor s'.cursor)) := by
  obtain ⟨hs, hpost⟩ := ih.statements pending inBlock columns _ _ _ hrun hclean
  refine ⟨hs, ?_⟩
  rintro ⟨hp, hlength⟩ hpends hblock hn
  dsimp only at hpost
  obtain ⟨hbody, hend⟩ := hpost ⟨hp, hpends, hblock, by omega⟩
  exact ⟨hbody, fun hin => (hend hin).of_behind hlength.le⟩

/-- A line takes the comments collected above it, and none are left for the statements behind. -/
theorem statements_line (h : WellLaid column tokens) (ih : ReadersLead column tokens n)
    {pending : List Comment} {inBlock : Bool} {s₁ : StmtState} {line others : List (Placed Stmt)}
    (hline : (StmtReader.statementLine n).run s = .ok line s₁)
    (hothers : (StmtReader.statements n [] inBlock).run s₁ = .ok others s')
    (hclean : s'.issues = []) :
    s.issues = [] ∧ (Place column tokens ⟨none, columns⟩ s.cursor →
      s.cursor.kind.isContent = true → Pends tokens pending s.cursor →
      (inBlock = true ↔ 1 < columns.length) → 8 * s.cursor.rest.length ≤ n + 1 →
      GoodBody column tokens (columns.headD 0) (StmtReader.withLeading pending line ++ others) ∧
        (inBlock = true → Lands column tokens columns.tail s.cursor s'.cursor)) := by
  -- from the back: nothing is reported behind the line, so nothing is reported in it
  obtain ⟨hs₁, hpost₁⟩ := ih.statements _ _ columns _ _ _ hothers hclean
  obtain ⟨hs, hpost⟩ := ih.statementLine columns _ _ _ hline hs₁
  refine ⟨hs, fun hp hcontent hpends hblock hn => ?_⟩
  obtain ⟨hbody, hled, hlands⟩ := hpost ⟨hp, hcontent, hn⟩
  have hbehind := hlands.behind
  obtain ⟨hbody₁, hend⟩ := hpost₁ ⟨hlands.place, hlands.pends hp.length_le, hblock, by omega⟩
  have hfirst : GoodBody column tokens (columns.headD 0) (StmtReader.withLeading pending line) :=
    ⟨hbody.withLeading pending, hled.withLeading h hp hcontent hpends⟩
  exact ⟨hfirst.append hbody₁, fun hin => (hend hin).of_behind hbehind.le⟩

/-- Reading statements leads to a body at the column of its block. -/
theorem succ_statements (h : WellLaid column tokens) (ih : ReadersLead column tokens n)
    (pending : List Comment) (inBlock : Bool) (columns : List Nat) :
    Leads (StmtReader.statements (n + 1) pending inBlock)
      (fun c => Place column tokens ⟨none, columns⟩ c ∧ Pends tokens pending c ∧
        (inBlock = true ↔ 1 < columns.length) ∧ 8 * c.rest.length ≤ n + 1)
      fun c body c' => GoodBody column tokens (columns.headD 0) body ∧
        (inBlock = true → Lands column tokens columns.tail c c') := by
  intro s body s' hrun hclean
  rw [StmtReader.statements] at hrun
  obtain ⟨t, s₁, hpeek, hrun⟩ := run_bind_ok hrun
  cases hpeek
  have hnone : GoodBody column tokens (columns.headD 0) [] := ⟨trivial, by simp [statementsIn]⟩
  split at hrun
  · -- the end of the text is not in a block: all blocks are closed in front of it
    rename_i hkind
    obtain ⟨rfl, rfl⟩ := run_pure_ok hrun
    refine ⟨hclean, ?_⟩
    rintro ⟨hp, -, hblock, -⟩
    refine ⟨hnone, fun hin => ?_⟩
    have hone := hp.length_of_eof h hkind
    have hmore := hblock.mp hin
    omega
  · -- the end of a block; at top level there is none
    rename_i hkind
    obtain ⟨_, s₁, hadvance, hrun⟩ := run_bind_ok hrun
    cases hadvance
    split at hrun
    · obtain ⟨rfl, rfl⟩ := run_pure_ok hrun
      refine ⟨hclean, ?_⟩
      rintro ⟨hp, -, -⟩
      refine ⟨hnone, fun _ => ?_⟩
      obtain ⟨-, hp', hlength⟩ := hp.advance_dedent h hkind
      obtain ⟨prev, t, ts, heq⟩ := hp.exists_cons
      rw [heq] at hkind hp' hlength ⊢
      exact ⟨hp', hlength, .inr hkind⟩
    · rename_i hout
      obtain ⟨hs, -⟩ := ih.statements_further columns hrun hclean
      refine ⟨hs, ?_⟩
      rintro ⟨hp, -, hblock, -⟩
      exact absurd (hblock.mpr (hp.advance_dedent h hkind).1) hout
  · -- a comment is collected
    rename_i hkind
    obtain ⟨_, s₁, hadvance, hrun⟩ := run_bind_ok hrun
    cases hadvance
    obtain ⟨hs, hpost⟩ := ih.statements_further columns hrun hclean
    refine ⟨hs, ?_⟩
    rintro ⟨hp, hpends, hblock, hn⟩
    exact hpost (hp.advance_blank h (.inl hkind)) (hpends.advance_comment hp hkind) hblock hn
  · -- the end of a line without a statement; unless it ends a comment, it is an empty line
    rename_i hkind
    obtain ⟨c, s₁, hcursor, hrun⟩ := run_bind_ok hrun
    cases hcursor
    obtain ⟨_, s₁, hadvance, hrun⟩ := run_bind_ok hrun
    cases hadvance
    obtain ⟨hs, hpost⟩ := ih.statements_further columns hrun hclean
    refine ⟨hs, ?_⟩
    rintro ⟨hp, hpends, hblock, hn⟩
    exact hpost (hp.advance_blank h (.inr hkind)) (hpends.advance_blankLine hp hkind) hblock hn
  · -- where no line is open, none ends
    rename_i hkind
    obtain ⟨_, s₁, hadvance, hrun⟩ := run_bind_ok hrun
    cases hadvance
    obtain ⟨hs, -⟩ := ih.statements_further columns hrun hclean
    refine ⟨hs, ?_⟩
    rintro ⟨hp, -⟩
    exact absurd hkind (hp.ne_newline h)
  · -- an indentation without a header is reported
    obtain ⟨_, s₁, hreport, hrun⟩ := run_bind_ok hrun
    cases hreport
    obtain ⟨_, s₁, hadvance, hrun⟩ := run_bind_ok hrun
    cases hadvance
    obtain ⟨nested, s₂, hnested, hrun⟩ := run_bind_ok hrun
    obtain ⟨others, s₃, hothers, hrun⟩ := run_bind_ok hrun
    obtain ⟨rfl, rfl⟩ := run_pure_ok hrun
    obtain ⟨hs₂, -⟩ := ih.statements _ _ [0] _ _ _ hothers hclean
    obtain ⟨hs₁, -⟩ := ih.statements _ _ [0] _ _ _ hnested hs₂
    cases hs₁
  · -- a statement
    rename_i heof hdedent hcomment hblank hnewline hindent
    obtain ⟨line, s₁, hline, hrun⟩ := run_bind_ok hrun
    obtain ⟨others, s₂, hothers, hrun⟩ := run_bind_ok hrun
    obtain ⟨rfl, rfl⟩ := run_pure_ok hrun
    obtain ⟨hs, hpost⟩ := ih.statements_line h hline hothers hclean
    refine ⟨hs, ?_⟩
    rintro ⟨hp, hpends, hblock, hn⟩
    have hcontent : s.cursor.kind.isContent = true := by
      cases hkind : s.cursor.kind <;> first | rfl | contradiction
    exact hpost hp hcontent hpends hblock hn

/-- Reading a line leads to its statements, the first with the line's comments. -/
theorem succ_statementLine (h : WellLaid column tokens) (ih : ReadersLead column tokens n)
    (columns : List Nat) :
    Leads (StmtReader.statementLine (n + 1))
      (fun c => Place column tokens ⟨none, columns⟩ c ∧ c.kind.isContent = true ∧
        8 * c.rest.length ≤ n + 1 + 1)
      fun c line c' => BodyAt column tokens (columns.headD 0) line ∧ LineLed tokens c line ∧
        Lands column tokens columns c c' := by
  intro s line s' hrun hclean
  rw [StmtReader.statementLine] at hrun
  obtain ⟨c, s₁, hcursor, hrun⟩ := run_bind_ok hrun
  cases hcursor
  split at hrun
  · -- a compound statement, whose span starts at its first token
    rename_i hstarts
    obtain ⟨p, s₁, hplaced, hrun⟩ := run_bind_ok hrun
    obtain ⟨rfl, rfl⟩ := run_pure_ok hrun
    obtain ⟨stmt, hread, rfl⟩ := placed_ok hplaced
    have hstmt := orReport_ok issues_skipLine hread hclean
    obtain ⟨hs, hpost⟩ := ih.compound columns _ _ _ hstmt hclean
    refine ⟨hs, fun ⟨hp, hcontent, hn⟩ => ?_⟩
    have hcolon : s.cursor.kind ≠ .colon := by
      intro hkind
      simp [Cursor.at?, hkind, TokenKind.startsCompound] at hstarts
    obtain ⟨⟨hindented, hled⟩, hlands⟩ := hpost ⟨hp, hcontent, hcolon, hn⟩
    have hstart : (s.cursor.peek.span.cover s'.cursor.prev.span).start = s.cursor.peek.span.start :=
      min_eq_left (hp.start_le_prev h hlands.place hlands.behind)
    obtain ⟨hcolumn, -⟩ := hp.advance_content h hcontent
    refine ⟨⟨fun _ => ?_, ?_, trivial⟩, ⟨fun _ _ => hstart, hled, by simp [statementsIn]⟩, hlands⟩
    · rw [hstart]
      exact hcolumn
    · rw [PlacedIndented, hstart]
      exact hindented
  · -- simple statements up to the end of the line
    obtain ⟨hs, -⟩ := simpleLine_ok hrun hclean
    refine ⟨hs, fun ⟨hp, hcontent, hn⟩ => ?_⟩
    have hin : InLine column tokens columns s.cursor := .inr ⟨hp, hcontent⟩
    obtain ⟨hp', hlength, hended, hline⟩ := simpleLine_place h hrun hclean hin (hp.ne_newline h)
    exact ⟨bodyAt_simpleLine h hin hline.inLineFrom, hline.lineLed h hp hcontent,
      hp', hlength, .inl hended⟩

/-- Bodies whose clauses are read from the first token of the statement or from one behind it. -/
theorem goodStmt_block (h : WellLaid column tokens) (ih : ReadersLead column tokens n)
    {c : Cursor} {bodies : List (List (Placed Stmt))}
    (hrun : (StmtReader.clauses n).run s = .ok bodies s') (hclean : s'.issues = []) :
    s.issues = [] ∧ (Place column tokens ⟨none, columns⟩ c → c.kind.isContent = true →
      InLine column tokens columns s.cursor →
      (s.cursor.kind = .colon → ∃ first, Place column tokens ⟨some first, columns⟩ s.cursor) →
      s.cursor.rest.length ≤ c.rest.length → 8 * c.rest.length ≤ n + 1 + 2 →
      GoodStmt column tokens c.peek.span.start (.block bodies) ∧
        Lands column tokens columns c s'.cursor) := by
  obtain ⟨hs, hpost⟩ := ih.clauses columns _ _ _ hrun hclean
  refine ⟨hs, fun hp hcontent hin hcolon hlength hn => ?_⟩
  obtain ⟨hbodies, hled, hlands⟩ := hpost ⟨hin, hcolon, by omega⟩
  refine ⟨⟨?_, hled⟩, hlands.of_behind hlength⟩
  rw [StmtIndented, (hp.lineColumn_eq h hcontent).2]
  exact hbodies

/-- Reading a compound statement leads to one whose bodies are indented. -/
theorem succ_compound (h : WellLaid column tokens) (ih : ReadersLead column tokens n)
    (columns : List Nat) :
    Leads (StmtReader.compound (n + 1))
      (fun c => Place column tokens ⟨none, columns⟩ c ∧ c.kind.isContent = true ∧
        c.kind ≠ .colon ∧ 8 * c.rest.length ≤ n + 1 + 2)
      fun c stmt c' => GoodStmt column tokens c.peek.span.start stmt ∧
        Lands column tokens columns c c' := by
  intro s stmt s' hrun hclean
  rw [StmtReader.compound] at hrun
  obtain ⟨c, s₁, hcursor, hrun⟩ := run_bind_ok hrun
  cases hcursor
  split at hrun
  · -- decorators
    obtain ⟨hs, hpost⟩ := ih.decorated columns _ _ _ hrun hclean
    exact ⟨hs, fun ⟨hp, _, _, hn⟩ => hpost ⟨hp, hn⟩⟩
  · -- a function
    obtain ⟨hs, hpost⟩ := ih.function _ _ columns _ _ _ hrun hclean
    refine ⟨hs, fun ⟨hp, hcontent, _, hn⟩ => ?_⟩
    obtain ⟨hgood, hlands⟩ := hpost ⟨.inr ⟨hp, hcontent⟩, by omega⟩
    exact ⟨hgood _, hlands⟩
  · -- a class
    obtain ⟨hs, hpost⟩ := ih.classDef _ columns _ _ _ hrun hclean
    refine ⟨hs, fun ⟨hp, hcontent, _, hn⟩ => ?_⟩
    obtain ⟨hgood, hlands⟩ := hpost ⟨.inr ⟨hp, hcontent⟩, by omega⟩
    exact ⟨hgood _, hlands⟩
  · -- a conditional
    obtain ⟨hs, hpost⟩ := ih.conditional columns _ _ _ hrun hclean
    refine ⟨hs, fun ⟨hp, hcontent, _, hn⟩ => ?_⟩
    obtain ⟨-, hgood, hlands⟩ := hpost ⟨hp, hcontent, by omega⟩
    exact ⟨hgood, hlands⟩
  · -- what begins with `async`: a function, or clauses that are read behind the word
    obtain ⟨_, s₁, hadvance, hrun⟩ := run_bind_ok hrun
    cases hadvance
    split at hrun
    · obtain ⟨hs, hpost⟩ := ih.function _ _ columns _ _ _ hrun hclean
      refine ⟨hs, fun ⟨hp, hcontent, _, hn⟩ => ?_⟩
      obtain ⟨-, hp₁, hlength⟩ := hp.advance_content h hcontent
      dsimp only at hpost
      obtain ⟨hgood, hlands⟩ := hpost ⟨.inl ⟨_, hp₁⟩, by omega⟩
      exact ⟨hgood _, hlands.of_behind hlength.le⟩
    · obtain ⟨bodies, s₁, hclauses, hrun⟩ := run_bind_ok hrun
      obtain ⟨rfl, rfl⟩ := run_pure_ok hrun
      obtain ⟨hs, hpost⟩ := ih.goodStmt_block h hclauses hclean
      refine ⟨hs, fun ⟨hp, hcontent, _, hn⟩ => ?_⟩
      obtain ⟨-, hp₁, hlength⟩ := hp.advance_content h hcontent
      exact hpost hp hcontent (.inl ⟨_, hp₁⟩) (fun _ => ⟨_, hp₁⟩) hlength.le hn
  · -- any other statement with clauses
    obtain ⟨bodies, s₁, hclauses, hrun⟩ := run_bind_ok hrun
    obtain ⟨rfl, rfl⟩ := run_pure_ok hrun
    obtain ⟨hs, hpost⟩ := ih.goodStmt_block h hclauses hclean
    exact ⟨hs, fun ⟨hp, hcontent, hcolon, hn⟩ => hpost hp hcontent (.inr ⟨hp, hcontent⟩)
      (fun hkind => absurd hkind hcolon) (le_refl _) hn⟩

/-- Reading a body leads to one at a column beyond that of its header. -/
theorem succ_block (h : WellLaid column tokens) (ih : ReadersLead column tokens n)
    (columns : List Nat) :
    Leads (StmtReader.block (n + 1))
      (fun c => BehindHeader column tokens columns c ∧ 8 * c.rest.length + 2 ≤ n + 1)
      fun c body c' => (∃ c₀, columns.headD 0 < c₀ ∧ GoodBody column tokens c₀ body) ∧
        Lands column tokens columns c c' := by
  intro s body s' hrun hclean
  rw [StmtReader.block] at hrun
  obtain ⟨found, s₁, hcomment, hrun⟩ := run_bind_ok hrun
  obtain ⟨hissues, hwithin⟩ := Stays.eat rfl s found s₁ hcomment
  obtain ⟨found, s₂, hnewline, hmore⟩ := run_bind_ok hrun
  obtain ⟨rfl, hkind, rfl⟩ | ⟨rfl, hkind, rfl⟩ := eat_ok hnewline
  · -- lines of their own, which the lexer has indented more
    obtain ⟨c, s₃, hcursor, hmore⟩ := run_bind_ok hmore
    cases hcursor
    obtain ⟨_, s₃, hmove, hmore⟩ := run_bind_ok hmore
    cases hmove
    obtain ⟨found, s₃, hindent, hend⟩ := run_bind_ok hmore
    obtain ⟨rfl, hkind', rfl⟩ | ⟨rfl, -, rfl⟩ := eat_ok hindent
    · have hbody := fun columns' => ih.statements _ true columns' _ _ _ hend hclean
      refine ⟨hissues ▸ (hbody [0]).1, fun ⟨hc, hn⟩ => ?_⟩
      obtain ⟨first, hp, -⟩ := hc.within h hwithin
      have hle := hwithin.length_le
      obtain ⟨c₀, hlt, hp', hpends, hlength⟩ := block_place h hp hkind rfl hkind'
      obtain ⟨-, hpost⟩ := hbody (c₀ :: columns)
      have hcolumns : 1 < (c₀ :: columns).length := by
        simpa using List.length_pos_of_ne_nil hp.stands.columns_ne_nil
      dsimp only at hpost
      obtain ⟨hgood, hlands⟩ := hpost ⟨hp', hpends, by simpa using hcolumns, by omega⟩
      exact ⟨⟨c₀, hlt, hgood⟩, (hlands rfl).of_behind (by omega)⟩
    · cases hend
  · -- statements in the line of the header: none begins a line, so any column will do
    obtain ⟨hs₂, -⟩ := simpleLine_ok hmore hclean
    refine ⟨hissues ▸ hs₂, fun ⟨hc, hn⟩ => ?_⟩
    have hc' := hc.within h hwithin
    obtain ⟨hp', hlength, hended, hline⟩ := simpleLine_place h hmore hclean hc'.inLine hkind
    have hbody := hline.inLineFrom
    refine ⟨⟨columns.headD 0 + 1, Nat.lt_succ_self _, hc'.bodyAt h hbody _,
      led_behindHeader h hc' hbody⟩, hp', ?_, .inl hended⟩
    exact lt_of_lt_of_le hlength hwithin.length_le

/-- Reading a decorated statement leads to an indented one. -/
theorem succ_decorated (h : WellLaid column tokens) (ih : ReadersLead column tokens n)
    (columns : List Nat) :
    Leads (StmtReader.decorated (n + 1))
      (fun c => Place column tokens ⟨none, columns⟩ c ∧ 8 * c.rest.length ≤ n + 1 + 3)
      fun c stmt c' => GoodStmt column tokens c.peek.span.start stmt ∧
        Lands column tokens columns c c' := by
  intro s stmt s' hrun hclean
  rw [StmtReader.decorated] at hrun
  obtain ⟨m, s₁, hrounds, hrun⟩ := run_bind_ok hrun
  cases hrounds
  obtain ⟨ds, s₁, hds, hrun⟩ := run_bind_ok hrun
  obtain ⟨hissues, hplace⟩ := decorators_place h columns hds
  obtain ⟨c, s₂, hcursor, hrun⟩ := run_bind_ok hrun
  cases hcursor
  split at hrun
  -- behind the decorators stands a function
  · rename_i hkind
    obtain ⟨hs, hpost⟩ := ih.function _ _ columns _ _ _ hrun hclean
    refine ⟨hissues ▸ hs, fun ⟨hp, hn⟩ => ?_⟩
    obtain ⟨hp₁, hlength⟩ := hplace hp
    obtain ⟨hgood, hlands⟩ := hpost ⟨.inr ⟨hp₁, by rw [hkind]; rfl⟩, by omega⟩
    exact ⟨hgood _, hlands.of_behind hlength⟩
  -- or a class
  · rename_i hkind
    obtain ⟨hs, hpost⟩ := ih.classDef _ columns _ _ _ hrun hclean
    refine ⟨hissues ▸ hs, fun ⟨hp, hn⟩ => ?_⟩
    obtain ⟨hp₁, hlength⟩ := hplace hp
    obtain ⟨hgood, hlands⟩ := hpost ⟨.inr ⟨hp₁, by rw [hkind]; rfl⟩, by omega⟩
    exact ⟨hgood _, hlands.of_behind hlength⟩
  -- or `async` and a function
  · rename_i hkind
    split at hrun
    · obtain ⟨_, s₂, hadvance, hrun⟩ := run_bind_ok hrun
      cases hadvance
      obtain ⟨hs, hpost⟩ := ih.function _ _ columns _ _ _ hrun hclean
      refine ⟨hissues ▸ hs, fun ⟨hp, hn⟩ => ?_⟩
      obtain ⟨hp₁, hlength⟩ := hplace hp
      obtain ⟨-, hp₂, hlength₂⟩ := hp₁.advance_content h (by rw [hkind]; rfl)
      dsimp only at hpost
      obtain ⟨hgood, hlands⟩ := hpost ⟨.inl ⟨_, hp₂⟩, by omega⟩
      exact ⟨hgood _, hlands.of_behind (by omega)⟩
    · cases hrun
  · cases hrun

/-- The body behind a header that begins at the place. -/
theorem body_pastHeader (h : WellLaid column tokens) (ih : ReadersLead column tokens n)
    {s₁ : StmtState} (hblock : (StmtReader.block n).run s₁ = .ok body s')
    (hissues : s₁.issues = s.issues) (hpast : PastHeader s.cursor s₁.cursor)
    (hclean : s'.issues = []) :
    s.issues = [] ∧ (InLine column tokens columns s.cursor → 8 * s.cursor.rest.length ≤ n + 5 →
      (∃ c₀, columns.headD 0 < c₀ ∧ GoodBody column tokens c₀ body) ∧
        Lands column tokens columns s.cursor s'.cursor) := by
  obtain ⟨hs, hpost⟩ := ih.block columns _ _ _ hblock hclean
  refine ⟨hissues ▸ hs, fun hc hn => ?_⟩
  obtain ⟨hbehind, hlength⟩ := hc.pastHeader h hpast
  obtain ⟨hgood, hlands⟩ := hpost ⟨hbehind, by omega⟩
  exact ⟨hgood, hlands.of_behind (by omega)⟩

/-- Reading a function leads to an indented one. -/
theorem succ_function (h : WellLaid column tokens) (ih : ReadersLead column tokens n)
    (decorators : List Expr) (isAsync : Bool) (columns : List Nat) :
    Leads (StmtReader.function (n + 1) decorators isAsync)
      (fun c => InLine column tokens columns c ∧ 8 * c.rest.length ≤ n + 1 + 4)
      fun c stmt c' => (∀ start, GoodStmt column tokens start stmt) ∧
        Lands column tokens columns c c' := by
  intro s stmt s' hrun hclean
  rw [StmtReader.function] at hrun
  obtain ⟨header, s₁, hheader, hrun⟩ := run_bind_ok hrun
  obtain ⟨hissues, hpast, -, hname⟩ := functionHeader_ok hheader
  obtain ⟨body, s₂, hblock, hrun⟩ := run_bind_ok hrun
  obtain ⟨rfl, rfl⟩ := run_pure_ok hrun
  obtain ⟨hs, hpost⟩ := ih.body_pastHeader h hblock hissues hpast hclean
  refine ⟨hs, fun ⟨hc, hn⟩ => ?_⟩
  obtain ⟨⟨c₀, hlt, hbody, hled⟩, hlands⟩ := hpost hc hn
  refine ⟨fun start => ⟨⟨c₀, ?_, hbody⟩, hled⟩, hlands⟩
  change lineColumn column tokens header.name.span.start < c₀
  rw [hname, hc.lineColumn_eq h hpast]
  exact hlt

/-- So does reading a class. -/
theorem succ_classDef (h : WellLaid column tokens) (ih : ReadersLead column tokens n)
    (decorators : List Expr) (columns : List Nat) :
    Leads (StmtReader.classDef (n + 1) decorators)
      (fun c => InLine column tokens columns c ∧ 8 * c.rest.length ≤ n + 1 + 4)
      fun c stmt c' => (∀ start, GoodStmt column tokens start stmt) ∧
        Lands column tokens columns c c' := by
  intro s stmt s' hrun hclean
  rw [StmtReader.classDef] at hrun
  obtain ⟨header, s₁, hheader, hrun⟩ := run_bind_ok hrun
  obtain ⟨hissues, hpast, -, hname⟩ := classHeader_ok hheader
  obtain ⟨body, s₂, hblock, hrun⟩ := run_bind_ok hrun
  obtain ⟨rfl, rfl⟩ := run_pure_ok hrun
  obtain ⟨hs, hpost⟩ := ih.body_pastHeader h hblock hissues hpast hclean
  refine ⟨hs, fun ⟨hc, hn⟩ => ?_⟩
  obtain ⟨⟨c₀, hlt, hbody, hled⟩, hlands⟩ := hpost hc hn
  refine ⟨fun start => ⟨⟨c₀, ?_, hbody⟩, hled⟩, hlands⟩
  rw [hname, hc.lineColumn_eq h hpast]
  exact hlt

/-- The statement of an `elif` begins a line, which is at the column of the lines around. -/
theorem goodBody_elif (h : WellLaid column tokens) (ih : ReadersLead column tokens n)
    (hkind : s.cursor.kind = .keyword .Elif)
    (hrun : (placed (StmtReader.conditional n)).run s = .ok p s') (hclean : s'.issues = []) :
    s.issues = [] ∧ (Place column tokens ⟨none, columns⟩ s.cursor → Pends tokens [] s.cursor →
      8 * s.cursor.rest.length ≤ n + 3 →
      IsElif tokens [p] ∧ GoodBody column tokens (columns.headD 0) [p] ∧
        Lands column tokens columns s.cursor s'.cursor) := by
  obtain ⟨stmt, hstmt, rfl⟩ := placed_ok hrun
  obtain ⟨hs, hpost⟩ := ih.conditional columns _ _ _ hstmt hclean
  refine ⟨hs, fun hp hpends hn => ?_⟩
  have hcontent : s.cursor.kind.isContent = true := by rw [hkind]; rfl
  obtain ⟨hcond, ⟨hindented, hleds⟩, hlands⟩ := hpost ⟨hp, hcontent, hn⟩
  obtain ⟨hmem, -⟩ := hp.lineColumn_eq h hcontent
  obtain ⟨hcolumn, -⟩ := hp.advance_content h hcontent
  have hstart : (s.cursor.peek.span.cover s'.cursor.prev.span).start = s.cursor.peek.span.start :=
    min_eq_left (hp.start_le_prev h hlands.place hlands.behind)
  refine ⟨⟨hcond, ?_, s.cursor.peek, hp.peek_mem, hkind, hstart.symm⟩,
    ⟨⟨fun _ => ?_, ?_, trivial⟩, ?_⟩, hlands⟩
  · rw [hstart]
    exact hmem
  · rw [hstart]
    exact hcolumn
  · rw [PlacedIndented, hstart]
    exact hindented
  · rw [statementsIn, statementsIn, List.append_nil, Placed.withInner]
    refine List.forall_mem_cons.mpr ⟨?_, hleds⟩
    exact hpends.led h hp hcontent rfl fun _ _ => hstart

/-- Reading an `if` leads to an indented one, whose `elif` is a conditional of its own. -/
theorem succ_conditional (h : WellLaid column tokens) (ih : ReadersLead column tokens n)
    (columns : List Nat) :
    Leads (StmtReader.conditional (n + 1))
      (fun c => Place column tokens ⟨none, columns⟩ c ∧ c.kind.isContent = true ∧
        8 * c.rest.length ≤ n + 1 + 3)
      fun c stmt c' => (∃ test body orelse, stmt = .cond test body orelse) ∧
        GoodStmt column tokens c.peek.span.start stmt ∧ Lands column tokens columns c c' := by
  intro s stmt s' hrun hclean
  rw [StmtReader.conditional] at hrun
  obtain ⟨_, s₁, hadvance, hrun⟩ := run_bind_ok hrun
  cases hadvance
  obtain ⟨test, s₂, htest, hrun⟩ := run_bind_ok hrun
  obtain ⟨hissues, hwithin⟩ := Stays.exprUntil _ _ _ _ htest
  obtain ⟨_, s₃, hcolon, hrun⟩ := run_bind_ok hrun
  obtain ⟨hkind, -, rfl⟩ := expect_ok hcolon
  obtain ⟨hsecond, hwithin⟩ := hwithin.advance_advance (by rw [hkind]; rfl)
  obtain ⟨body, s₄, hblock, hrun⟩ := run_bind_ok hrun
  -- the body of the `if`, whatever follows it
  have hbody : s₄.issues = [] → s.issues = [] ∧ (Place column tokens ⟨none, columns⟩ s.cursor →
      s.cursor.kind.isContent = true → 8 * s.cursor.rest.length ≤ n + 1 + 3 →
      (∃ c₀, columns.headD 0 < c₀ ∧ GoodBody column tokens c₀ body) ∧
        Lands column tokens columns s.cursor s₄.cursor) := by
    intro hs₄
    refine ⟨hissues ▸ (ih.block columns _ _ _ hblock hs₄).1, fun hp hcontent hn => ?_⟩
    have hin : InLine column tokens columns s.cursor := .inr ⟨hp, hcontent⟩
    obtain ⟨-, hpost⟩ := ih.body_pastHeader h (s := s) hblock hissues
      ⟨hin.kind_ne h (hp.ne_newline h), hsecond, hwithin⟩ hs₄
    exact hpost hin (by omega)
  obtain ⟨found, s₅, helif, hrun⟩ := run_bind_ok hrun
  cases helif
  split at hrun
  · -- `elif`
    rename_i hat
    have hkind : s₄.cursor.kind = .keyword .Elif := eq_of_beq hat
    obtain ⟨p, s₅, hplaced, hrun⟩ := run_bind_ok hrun
    obtain ⟨rfl, rfl⟩ := run_pure_ok hrun
    obtain ⟨hs₄, hpost⟩ := ih.goodBody_elif h hkind hplaced hclean
    obtain ⟨hs, hbody⟩ := hbody hs₄
    refine ⟨hs, fun ⟨hp, hcontent, hn⟩ => ⟨⟨_, _, _, rfl⟩, ?_⟩⟩
    obtain ⟨⟨c₀, hlt, hat, hled⟩, hlands⟩ := hbody hp hcontent hn
    have hlength := hlands.behind
    obtain ⟨helif, hother, hlands'⟩ := hpost hlands.place (hlands.pends hp.length_le) (by omega)
    rw [← (hp.lineColumn_eq h hcontent).2] at hlt hother
    exact ⟨⟨⟨⟨c₀, hlt, hat⟩, .inl ⟨helif, hother.1⟩⟩, List.forall_mem_append.mpr ⟨hled, hother.2⟩⟩,
      hlands'.of_behind hlength.le⟩
  · obtain ⟨found, s₅, helse, hend⟩ := run_bind_ok hrun
    obtain ⟨rfl, hkind, rfl⟩ | ⟨rfl, -, rfl⟩ := eat_ok helse
    · -- `else`, a header of its own
      obtain ⟨_, s₅, hcolon, hend⟩ := run_bind_ok hend
      obtain ⟨hkind', -, rfl⟩ := expect_ok hcolon
      obtain ⟨orelse, s₆, hblock', hend⟩ := run_bind_ok hend
      obtain ⟨rfl, rfl⟩ := run_pure_ok hend
      obtain ⟨hs₄, hpost⟩ := ih.body_pastHeader h (s := s₄) hblock' rfl
        ⟨by rw [hkind]; rfl, by rw [hkind']; rfl, .refl _⟩ hclean
      obtain ⟨hs, hbody⟩ := hbody hs₄
      refine ⟨hs, fun ⟨hp, hcontent, hn⟩ => ⟨⟨_, _, _, rfl⟩, ?_⟩⟩
      obtain ⟨⟨c₀, hlt, hat, hled⟩, hlands⟩ := hbody hp hcontent hn
      have hlength := hlands.behind
      obtain ⟨⟨c₁, hlt', hat', hled'⟩, hlands'⟩ :=
        hpost (.inr ⟨hlands.place, by rw [hkind]; rfl⟩) (by omega)
      rw [← (hp.lineColumn_eq h hcontent).2] at hlt hlt'
      exact ⟨⟨⟨⟨c₀, hlt, hat⟩, .inr ⟨c₁, hlt', hat'⟩⟩, List.forall_mem_append.mpr ⟨hled, hled'⟩⟩,
        hlands'.of_behind hlength.le⟩
    · -- neither
      obtain ⟨rfl, rfl⟩ := run_pure_ok hend
      obtain ⟨hs, hbody⟩ := hbody hclean
      refine ⟨hs, fun ⟨hp, hcontent, hn⟩ => ⟨⟨_, _, _, rfl⟩, ?_⟩⟩
      obtain ⟨⟨c₀, hlt, hat, hled⟩, hlands⟩ := hbody hp hcontent hn
      rw [← (hp.lineColumn_eq h hcontent).2] at hlt
      refine ⟨⟨⟨⟨c₀, hlt, hat⟩, .inr ⟨c₀, hlt, trivial⟩⟩, ?_⟩, hlands⟩
      rw [Stmt.inner, statementsIn, List.append_nil]
      exact hled

/-- The body of a clause.  The header may have nothing in front of its colon but what was read as
    the beginning of the statement. -/
theorem clause_body (h : WellLaid column tokens) (ih : ReadersLead column tokens n)
    (columns : List Nat) {s₁ : StmtState} (hheader : skipHeader.run s = .ok () s₁)
    (hblock : (StmtReader.block n).run s₁ = .ok body s') (hclean : s'.issues = []) :
    s.issues = [] ∧ (InLine column tokens columns s.cursor →
      (s.cursor.kind = .colon → ∃ first, Place column tokens ⟨some first, columns⟩ s.cursor) →
      8 * s.cursor.rest.length ≤ n + 1 + 3 →
      (∃ c₀, columns.headD 0 < c₀ ∧ GoodBody column tokens c₀ body) ∧
        Lands column tokens columns s.cursor s'.cursor) := by
  obtain ⟨hissues, hinner, hwithin, hpast⟩ := skipHeader_ok hheader
  obtain ⟨hs, hpost⟩ := ih.block columns _ _ _ hblock hclean
  refine ⟨hissues ▸ hs, fun hc hcolon hn => ?_⟩
  by_cases hkind : s.cursor.kind = .colon
  · obtain ⟨first, hp⟩ := hcolon hkind
    obtain ⟨hbehind, hlength⟩ := hp.behindHeader h hinner hwithin
    obtain ⟨hgood, hlands⟩ := hpost ⟨hbehind, by omega⟩
    exact ⟨hgood, hlands.of_behind hlength.le⟩
  · exact (ih.body_pastHeader h hblock hissues (hpast hkind) hclean).2 hc (by omega)

/-- Reading clauses leads to bodies beyond the column of their headers. -/
theorem succ_clauses (h : WellLaid column tokens) (ih : ReadersLead column tokens n)
    (columns : List Nat) :
    Leads (StmtReader.clauses (n + 1))
      (fun c => InLine column tokens columns c ∧
        (c.kind = .colon → ∃ first, Place column tokens ⟨some first, columns⟩ c) ∧
        8 * c.rest.length ≤ n + 1 + 3)
      fun c bodies c' => BodiesBeyond column tokens (columns.headD 0) bodies ∧
        (∀ q ∈ statementsInEach bodies, Led tokens q) ∧ Lands column tokens columns c c' := by
  intro s bodies s' hrun hclean
  rw [StmtReader.clauses] at hrun
  obtain ⟨_, s₁, hheader, hrun⟩ := run_bind_ok hrun
  obtain ⟨body, s₂, hblock, hrun⟩ := run_bind_ok hrun
  obtain ⟨t, s₃, hpeek, hrun⟩ := run_bind_ok hrun
  cases hpeek
  -- a clause that begins with a keyword, so not with a colon, and those behind it
  have hmore : ∀ {kind : Keyword} {others}, s₂.cursor.kind = .keyword kind →
      (StmtReader.clauses n).run s₂ = .ok others s' → s.issues = [] ∧
      (InLine column tokens columns s.cursor ∧
        (s.cursor.kind = .colon → ∃ first, Place column tokens ⟨some first, columns⟩ s.cursor) ∧
        8 * s.cursor.rest.length ≤ n + 1 + 3 →
      BodiesBeyond column tokens (columns.headD 0) (body :: others) ∧
        (∀ q ∈ statementsInEach (body :: others), Led tokens q) ∧
        Lands column tokens columns s.cursor s'.cursor) := by
    intro kind others hkind hothers
    obtain ⟨hs₂, hpost⟩ := ih.clauses columns _ _ _ hothers hclean
    obtain ⟨hs, hbody⟩ := ih.clause_body h columns hheader hblock hs₂
    refine ⟨hs, fun ⟨hc, hcolon, hn⟩ => ?_⟩
    obtain ⟨⟨c₀, hlt, hat, hled⟩, hlands⟩ := hbody hc hcolon hn
    have hlength := hlands.behind
    have hcontent : s₂.cursor.kind.isContent = true := by rw [hkind]; rfl
    have hnext : s₂.cursor.kind ≠ .colon := by simp [hkind]
    obtain ⟨hothers, hleds, hlands'⟩ := hpost
      ⟨.inr ⟨hlands.place, hcontent⟩, fun hcolon => absurd hcolon hnext, by omega⟩
    exact ⟨⟨⟨c₀, hlt, hat⟩, hothers⟩, List.forall_mem_append.mpr ⟨hled, hleds⟩,
      hlands'.of_behind hlength.le⟩
  split at hrun
  iterate 4
    · rename_i hkind
      obtain ⟨others, s₃, hothers, hrun⟩ := run_bind_ok hrun
      obtain ⟨rfl, rfl⟩ := run_pure_ok hrun
      exact hmore hkind hothers
  · -- the last clause
    obtain ⟨rfl, rfl⟩ := run_pure_ok hrun
    obtain ⟨hs, hbody⟩ := ih.clause_body h columns hheader hblock hclean
    refine ⟨hs, fun ⟨hc, hcolon, hn⟩ => ?_⟩
    obtain ⟨⟨c₀, hlt, hat, hled⟩, hlands⟩ := hbody hc hcolon hn
    refine ⟨⟨⟨c₀, hlt, hat⟩, trivial⟩, ?_, hlands⟩
    rw [statementsInEach, statementsInEach, List.append_nil]
    exact hled

/-- At every level the readers do. -/
theorem of_wellLaid (h : WellLaid column tokens) : ∀ n, ReadersLead column tokens n
  | 0 => zero
  | n + 1 =>
    have ih := of_wellLaid h n
    { statements := succ_statements h ih
      statementLine := succ_statementLine h ih
      compound := succ_compound h ih
      block := succ_block h ih
      decorated := succ_decorated h ih
      function := succ_function h ih
      classDef := succ_classDef h ih
      conditional := succ_conditional h ih
      clauses := succ_clauses h ih }

end ReadersLead
end StmtReader

/-! ### Whole texts -/

/-- A text that is read without issues is read to its end, from tokens without issues. -/
theorem Suite.parse_run {source : String} (h : (Suite.parse source).issues = []) :
    ∃ s, (StmtReader.statements (8 * ((tokenize source).1.length + 1)) [] false).run
        { cursor := Cursor.start (tokenize source).1 (Text.byteLength source.toList),
          issues := (tokenize source).2.reverse } = .ok (Suite.parse source).body s ∧
      s.issues = [] := by
  unfold Suite.parse at h ⊢
  generalize tokenize source = lexed at h ⊢
  dsimp only at h ⊢
  generalize EStateM.run _ _ = result at h ⊢
  cases result with
  | ok body s => exact ⟨s, rfl, List.reverse_eq_nil_iff.mp h⟩
  | error issue s => simp at h

/-- A text that is parsed without issues is read into tokens without any. -/
theorem Suite.tokenize_issues {source : String} (h : (Suite.parse source).issues = []) :
    (tokenize source).2 = [] := by
  obtain ⟨s, hrun, hclean⟩ := Suite.parse_run h
  -- what is reported does not depend on a layout, so none of the tokens is needed here
  have hwell : WellLaid (fun _ => 0) [] := ⟨⟨.nil, by simp, by simp⟩, _, rfl⟩
  obtain ⟨hissues, -⟩ := (StmtReader.ReadersLead.of_wellLaid hwell _).statements [] false [0] _ _ _
    hrun hclean
  exact List.reverse_eq_nil_iff.mp hissues

/-- The statements of a text that is read without issues are where the layout has them, and have
    their comments. -/
theorem Suite.parse_goodBody {source : String} (h : (Suite.parse source).issues = []) :
    StmtReader.GoodBody (Text.column source.toList) (tokenize source).1 0 (Suite.parse source).body := by
  obtain ⟨hwell, hbound⟩ := tokenize_wellLaid source (Suite.tokenize_issues h)
  obtain ⟨s, hrun, hclean⟩ := Suite.parse_run h
  have hplace : Place (Text.column source.toList) (tokenize source).1 ⟨none, [0]⟩
      (Cursor.start (tokenize source).1 (Text.byteLength source.toList)) :=
    ⟨.start fun t ht => le_trans (hwell.ordered.forward t ht) (hbound t ht), tokenize_eof source⟩
  obtain ⟨-, hpost⟩ := (StmtReader.ReadersLead.of_wellLaid hwell _).statements [] false [0] _ _ _
    hrun hclean
  exact (hpost ⟨hplace, .start _, by simp, by simp only [Cursor.start]; omega⟩).1

/-- **Block structure is indentation structure.**  In a text that is read without issues, the
    statements at top level that begin a line start at column 0, those of a block at one column, and
    each block is indented more than the line of its header. -/
theorem Suite.parse_indented (source : String) (h : (Suite.parse source).issues = []) :
    ∀ p ∈ (Suite.parse source).body,
      (p.span.start ∈ lineStarts false (tokenize source).1 →
        Text.column source.toList p.span.start = 0) ∧
      PlacedIndented (Text.column source.toList) (tokenize source).1 p :=
  bodyAt_iff.mp (Suite.parse_goodBody h).1

/-- Clauses at one column, with bodies behind the colon and in lines of their own. -/
def nestedClauses : String :=
  "if a:\n  @b\n  def f(x): # c\n\n      # d\n      pass\n  y = 1; z\nelif e: pass\nelse:\n\ttry:\n\t  g\n\texcept h:\n\t  pass\n"

/-- Clauses nested in clauses are read with their columns. -/
theorem Suite.parse_indented_nestedClauses : (Suite.parse nestedClauses).issues = [] ∧
    ∀ p ∈ (Suite.parse nestedClauses).body,
      (p.span.start ∈ lineStarts false (tokenize nestedClauses).1 →
        Text.column nestedClauses.toList p.span.start = 0) ∧
      PlacedIndented (Text.column nestedClauses.toList) (tokenize nestedClauses).1 p := by
  have hissues : (Suite.parse nestedClauses).issues = [] := by decide +kernel
  exact ⟨hissues, Suite.parse_indented nestedClauses hissues⟩

end PackageDoc
