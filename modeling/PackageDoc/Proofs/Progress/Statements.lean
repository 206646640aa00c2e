import PackageDoc.Proofs.Progress.Lines

namespace PackageDoc

/-!
# The bound on the depth of statements

The readers of statements call each other, each level of calls with a smaller bound.  A call that
passes no token goes to a reader of a lower rank, so that the bound is not reached, whatever the text.

* `StmtReader.statementsRound` and `StmtReader.clausesRound` — the rounds of the loops over the
  statements of a body and over the clauses of a statement;
* `StmtReader.Readers` and `StmtReader.Readers.next` — readers of statements and blocks, and the
  readers one level above them;
* `StmtReader.readersAgree` — above any readers at all, enough levels read what the grammar does;
* `StmtReader.statements_reaches` — with enough levels, reading comes to the end of the text.
-/

namespace StmtReader

open Cursor

variable {α β : Type} {k n : Nat} {s : StmtState} {P : α → Prop}

/-! ### Rounds -/

/-- One line, statement or token of a body.  A statement is read by `line`, a block in which no
    statement is expected by `nested`. -/
def statementsRound (line nested : StmtReader (List (Placed Stmt)))
    (again : List Comment × Bool → StmtReader (List (Placed Stmt))) (i : List Comment × Bool) :
    StmtReader (List (Placed Stmt)) := do
  let (pending, inBlock) := i
  let t ← peek
  match t.kind with
  | .eof => return []
  | .dedent =>
    let _ ← advance
    if inBlock then return [] else again ([], inBlock)
  | .comment =>
    let _ ← advance
    again (pending ++ [Comment.ofToken t], inBlock)
  | .blankLine =>
    let afterComment := (← cursor).prev.kind == .comment
    let _ ← advance
    again (if afterComment then pending else [], inBlock)
  | .newline =>
    let _ ← advance
    again (pending, inBlock)
  | .indent =>
    report ⟨t.span, .unexpectedIndent⟩
    let _ ← advance
    let nested ← nested
    let others ← again (pending, inBlock)
    return nested ++ others
  | _ =>
    let line ← line
    let others ← again ([], inBlock)
    return withLeading pending line ++ others

/-- One clause of a compound statement, whose block is read by `block`. -/
def clausesRound (block : StmtReader (List (Placed Stmt)))
    (again : Unit → StmtReader (List (List (Placed Stmt)))) (_ : Unit) :
    StmtReader (List (List (Placed Stmt))) := do
  skipHeader
  let body ← block
  match (← peek).kind with
  | .keyword .Else | .keyword .Elif | .keyword .Except | .keyword .Finally =>
    let others ← again ()
    return body :: others
  | _ => return [body]

/-! ### Levels -/

/-- A reader for each kind of statement, and for bodies and blocks. -/
structure Readers where
  statements : List Comment → Bool → StmtReader (List (Placed Stmt))
  statementLine : StmtReader (List (Placed Stmt))
  compound : StmtReader Stmt
  block : StmtReader (List (Placed Stmt))
  decorated : StmtReader Stmt
  function : List Expr → Bool → StmtReader Stmt
  classDef : List Expr → StmtReader Stmt
  conditional : StmtReader Stmt
  clauses : StmtReader (List (List (Placed Stmt)))

/-- The readers of the grammar that go `n` levels deep. -/
def readers (n : Nat) : Readers where
  statements := StmtReader.statements n
  statementLine := StmtReader.statementLine n
  compound := StmtReader.compound n
  block := StmtReader.block n
  decorated := StmtReader.decorated n
  function := StmtReader.function n
  classDef := StmtReader.classDef n
  conditional := StmtReader.conditional n
  clauses := StmtReader.clauses n

/-- The readers that read their parts by those of `r`. -/
def Readers.next (r : Readers) : Readers where
  statements pending inBlock :=
    statementsRound r.statementLine (r.statements [] true) (fun j => r.statements j.1 j.2)
      (pending, inBlock)
  statementLine := do
    let c ← cursor
    if c.at? .atSign || c.at? (.keyword .Def) || c.at? (.keyword .Class) ||
        c.at? (.keyword .Async) || c.at? (.keyword .If) || c.kind.startsCompound ||
        (c.at? .name && c.lineEndsWithColon) then
      return [← placed (orReport skipLine r.compound)]
    else
      simpleLine
  compound := do
    let c ← cursor
    match c.kind with
    | .atSign => r.decorated
    | .keyword .Def => r.function [] false
    | .keyword .Class => r.classDef []
    | .keyword .If => r.conditional
    | .keyword .Async =>
      let _ ← advance
      if c.kindAfter == .keyword .Def then r.function [] true
      else return .block (← r.clauses)
    | _ => return .block (← r.clauses)
  block := do
    let _ ← eat .comment
    if ← eat .newline then
      let c ← cursor
      let p := pendingComments [] c.prev c.rest
      moveTo p.2
      if ← eat .indent then r.statements p.1 true else fail .expectedBlock
    else
      simpleLine
  decorated := do
    let decorators ← decorators (← rounds)
    let c ← cursor
    match c.kind with
    | .keyword .Def => r.function decorators false
    | .keyword .Class => r.classDef decorators
    | .keyword .Async =>
      if c.kindAfter == .keyword .Def then
        let _ ← advance
        r.function decorators true
      else
        fail .expectedDefinitionAfterDecorator
    | _ => fail .expectedDefinitionAfterDecorator
  function decorators isAsync := do
    let header ← functionHeader decorators isAsync
    let body ← r.block
    let typeComment := header.typeComment <|> bodyTypeComment? body
    return .functionDef { header with typeComment := typeComment } body
  classDef decorators := do
    let header ← classHeader decorators
    let body ← r.block
    return .classDef header body
  conditional := do
    let _ ← advance
    let test ← exprUntil [.colon]
    let _ ← expect .colon
    let body ← r.block
    if ← at? (.keyword .Elif) then
      let other ← placed r.conditional
      return .cond test body [other]
    else if ← eat (.keyword .Else) then
      let _ ← expect .colon
      let orelse ← r.block
      return .cond test body orelse
    else
      return .cond test body []
  clauses := clausesRound r.block (fun _ => r.clauses) ()

/-- The readers of one more level are made of those below. -/
theorem readers_succ (n : Nat) : readers (n + 1) = (readers n).next := rfl

/-! ### Rounds that advance -/

/-- Only line ends and the end of the text end a line. -/
theorem isLineEnd_eq_false {kind : TokenKind} (hnewline : kind ≠ .newline) (heof : kind ≠ .eof) :
    kind.isLineEnd = false := by
  cases kind <;> first | rfl | contradiction

namespace Agrees

/-- Behind a reader that leaves the next token behind there is one fewer left. -/
theorem bind_leaves {m m' : StmtReader α} {f f' : α → StmtReader β} (hm : Agrees (k + 1) m m' s)
    (hleaves : Leaves s.cursor m s) (hf : ∀ a s, Agrees k (f a) (f' a) s) :
    Agrees (k + 1) (m >>= f) (m' >>= f') s := by
  intro hs hk
  have hsame : m s = m' s := hm hs hk
  have hlength := hs.length_advance
  change EStateM.bind m f s = EStateM.bind m' f' s
  unfold EStateM.bind
  rw [← hsame]
  split
  · rename_i a s' hrun
    have hbehind := hleaves (amid_self hs) a s' hrun
    have hle := hbehind.suffix.length_le
    exact hf a s' hbehind.beforeEnd (by omega)
  · rfl

/-- A statement is placed the same if it is read the same. -/
theorem placed {read read' : StmtReader Stmt} (h : Agrees k read read' s) :
    Agrees k (placed read) (placed read') s :=
  peek_bind (bind_left h _)

/-- So it is with recovery. -/
theorem orReport {read read' : StmtReader Stmt} (recover : StmtReader Unit)
    (h : Agrees k read read' s) : Agrees k (orReport recover read) (orReport recover read') s := by
  intro hs hk
  have hsame : read s = read' s := h hs hk
  change EStateM.tryCatch read _ s = EStateM.tryCatch read' _ s
  unfold EStateM.tryCatch
  rw [hsame]

/-- A round over the lines of a body does the same if its line, its body and the rounds behind
    do. -/
theorem statementsRound {line line' nested nested' : StmtReader (List (Placed Stmt))}
    {again again' : List Comment × Bool → StmtReader (List (Placed Stmt))}
    (hline : Agrees (k + 1) line line' s)
    (hleaves : s.cursor.kind.isLineEnd = false → Leaves s.cursor line s)
    (hnested : ∀ s, Agrees k nested nested' s) (hgoes : ∀ s, GoesOn s.cursor.rest nested s)
    (hagain : ∀ j s, Agrees k (again j) (again' j) s) (i : List Comment × Bool) :
    Agrees (k + 1) (statementsRound line nested again i) (statementsRound line' nested' again' i) s := by
  refine peek_bind ?_
  split
  -- the end of the text, or of a block
  · exact refl _
  · rename_i hkind
    exact advance_bind (by simp [Cursor.kind, hkind]) (ite (fun _ => refl _) fun _ => hagain _ _)
  -- a comment, a line without a statement, the end of a line
  · rename_i hkind
    exact advance_bind (by simp [Cursor.kind, hkind]) (hagain _ _)
  · rename_i hkind
    exact cursor_bind (advance_bind (by simp [Cursor.kind, hkind]) (hagain _ _))
  · rename_i hkind
    exact advance_bind (by simp [Cursor.kind, hkind]) (hagain _ _)
  -- a block that nothing leads
  · rename_i hkind
    refine report_bind (advance_bind (show s.cursor.peek.kind ≠ .eof by simp [hkind]) ?_)
    exact bind (hnested _) (hgoes _) fun body s => bind_left (hagain _ s) _
  -- a line with a statement
  · rename_i heof _ _ _ hnewline _
    have hinner := isLineEnd_eq_false hnewline heof
    refine bind_leaves hline (hleaves hinner) fun body s => ?_
    exact bind_left (hagain _ s) _

/-- So does a round over clauses. -/
theorem clausesRound {block block' : StmtReader (List (Placed Stmt))}
    {again again' : Unit → StmtReader (List (List (Placed Stmt)))}
    (hblock : ∀ s, Agrees k block block' s) (hgoes : ∀ s, GoesOn s.cursor.rest block s)
    (hagain : ∀ j s, Agrees k (again j) (again' j) s) :
    Agrees (k + 1) (clausesRound block again ()) (clausesRound block' again' ()) s := by
  refine bind_leaves (refl _) (skipHeader_leaves s) fun _ s => ?_
  refine bind (hblock s) (hgoes s) fun body s => peek_bind ?_
  split
  iterate 4
    · exact bind_left (hagain () s) _
  · exact refl _

end Agrees

/-- Each round over the statements of a body advances; three levels are enough for a line. -/
theorem advances_statementsRound (n : Nat) : Advances StmtState.cursor BeforeEnd
    (statementsRound (statementLine (n + 3)) (statements (n + 3) [] true)) :=
  advances fun _ _ _ i s hagain =>
    .statementsRound (.refl _) (statementLine_leaves n s) (fun _ => .refl _)
      (fun s => ((readersGather _).statements _ _ s).goesOn) hagain i

/-- Each round over the clauses of a statement advances. -/
theorem advances_clausesRound (n : Nat) :
    Advances StmtState.cursor BeforeEnd (clausesRound (block n)) :=
  advances fun _ _ _ _ _ hagain =>
    .clausesRound (fun _ => .refl _) (fun s => ((readersGather n).block s).goesOn) hagain

/-! ### Enough levels -/

/-- Both readers do the same where `n` levels are enough: eight for each token that is left, and for
    each reader as many as calls can follow its own before the next token is passed. -/
structure ReadersAgree (n : Nat) (r r' : Readers) : Prop where
  statements : ∀ k pending inBlock s, 8 * k + 4 ≤ n →
    Agrees k (r.statements pending inBlock) (r'.statements pending inBlock) s
  statementLine : ∀ k s, 8 * k + 3 ≤ n → Agrees k r.statementLine r'.statementLine s
  compound : ∀ k s, 8 * k + 2 ≤ n → Agrees k r.compound r'.compound s
  block : ∀ k s, 8 * k ≤ n → Agrees k r.block r'.block s
  decorated : ∀ k s, 8 * k + 1 ≤ n → Agrees k r.decorated r'.decorated s
  function : ∀ k decorators isAsync s, 8 * k ≤ n →
    Agrees k (r.function decorators isAsync) (r'.function decorators isAsync) s
  classDef : ∀ k decorators s, 8 * k ≤ n → Agrees k (r.classDef decorators) (r'.classDef decorators) s
  conditional : ∀ k s, s.cursor.kind ≠ .eof → 8 * k ≤ n → Agrees k r.conditional r'.conditional s
  clauses : ∀ k s, 8 * k ≤ n → Agrees k r.clauses r'.clauses s

namespace ReadersAgree

open Agrees

variable {r r' : Readers}

theorem zero : ReadersAgree 0 r r' := by
  constructor <;> intro k
  all_goals
    intros
    obtain rfl : k = 0 := by omega
    exact .zero _ _

/-- It is enough to compare where at least one token is left. -/
theorem of_pos {m m' : StmtReader α} (h : ∀ j, k = j + 1 → Agrees (j + 1) m m' s) :
    Agrees k m m' s := by
  cases k with
  | zero => exact .zero _ _
  | succ j => exact h j rfl

/-- Reading statements is the same with more levels. -/
theorem next_statements (ih : ReadersAgree n (readers n) r') (pending : List Comment) (inBlock : Bool)
    (hk : 8 * k + 4 ≤ n + 1) :
    Agrees k ((readers n).next.statements pending inBlock) (r'.next.statements pending inBlock) s := by
  refine of_pos fun j hj => ?_
  obtain ⟨m, rfl⟩ : ∃ m, n = m + 3 := ⟨n - 3, by omega⟩
  exact .statementsRound (ih.statementLine _ s (by omega)) (statementLine_leaves m s)
    (fun s => ih.statements j [] true s (by omega))
    (fun s => ((readersGather _).statements _ _ s).goesOn)
    (fun i s => ih.statements j i.1 i.2 s (by omega)) (pending, inBlock)

/-- So is reading a line. -/
theorem next_statementLine (ih : ReadersAgree n (readers n) r') (hk : 8 * k + 3 ≤ n + 1) :
    Agrees k (readers n).next.statementLine r'.next.statementLine s := by
  refine cursor_bind (ite (fun _ => ?_) fun _ => refl _)
  exact bind_left (.placed (.orReport _ (ih.compound k s (by omega)))) _

/-- So is reading a compound statement. -/
theorem next_compound (ih : ReadersAgree n (readers n) r') (hk : 8 * k + 2 ≤ n + 1) :
    Agrees k (readers n).next.compound r'.next.compound s := by
  refine of_pos fun j hj => cursor_bind ?_
  split
  · exact ih.decorated _ s (by omega)
  · exact ih.function _ _ _ s (by omega)
  · exact ih.classDef _ _ s (by omega)
  · rename_i hkind
    exact ih.conditional _ s (by simp [hkind]) (by omega)
  · rename_i hkind
    refine advance_bind (by simp [hkind]) (ite (fun _ => ih.function j _ _ _ (by omega)) fun _ => ?_)
    exact bind_left (ih.clauses j _ (by omega)) _
  · exact bind_left (ih.clauses _ s (by omega)) _

/-- So is reading a body. -/
theorem next_block (ih : ReadersAgree n (readers n) r') (hk : 8 * k ≤ n + 1) :
    Agrees k (readers n).next.block r'.next.block s := by
  refine of_pos fun j hj => seq (.eat (by simp)) fun _ s => ?_
  refine eat_ite (by simp) (fun s => cursor_bind ?_) (refl _)
  refine seq (P := fun _ => True) (.moveTo fun hs => hs.pendingComments []) fun _ s => ?_
  exact seq (.eat (by simp)) fun found s =>
    ite (fun _ => ih.statements j _ _ s (by omega)) fun _ => refl _

/-- So is reading a decorated statement. -/
theorem next_decorated (ih : ReadersAgree n (readers n) r') (hk : 8 * k + 1 ≤ n + 1) :
    Agrees k (readers n).next.decorated r'.next.decorated s := by
  refine of_pos fun j hj => rounds_bind (seq (.decorators _) fun ds s => cursor_bind ?_)
  split
  · exact ih.function _ _ _ s (by omega)
  · exact ih.classDef _ _ s (by omega)
  · rename_i hkind
    refine ite (fun _ => advance_bind (by simp [hkind]) ?_) fun _ => refl _
    exact ih.function j _ _ _ (by omega)
  · exact refl _

/-- So is reading a function. -/
theorem next_function (ih : ReadersAgree n (readers n) r') (decorators : List Expr) (isAsync : Bool)
    (hk : 8 * k ≤ n + 1) :
    Agrees k ((readers n).next.function decorators isAsync) (r'.next.function decorators isAsync) s :=
  of_pos fun j hj => bind_leaves (refl _) (functionHeader_leaves decorators isAsync s) fun header s =>
    bind_left (ih.block j s (by omega)) _

/-- So is reading a class. -/
theorem next_classDef (ih : ReadersAgree n (readers n) r') (decorators : List Expr)
    (hk : 8 * k ≤ n + 1) :
    Agrees k ((readers n).next.classDef decorators) (r'.next.classDef decorators) s :=
  of_pos fun j hj => bind_leaves (refl _) (classHeader_leaves decorators s) fun header s =>
    bind_left (ih.block j s (by omega)) _

/-- So is reading an `if`. -/
theorem next_conditional (ih : ReadersAgree n (readers n) r') (hkind : s.cursor.kind ≠ .eof)
    (hk : 8 * k ≤ n + 1) : Agrees k (readers n).next.conditional r'.next.conditional s := by
  refine of_pos fun j hj => advance_bind hkind (seq (.exprUntil _) fun test s => ?_)
  refine seq (.expect (by simp)) fun _ s => ?_
  refine bind (ih.block j s (by omega)) ((readersGather n).block s) fun body s => at_bind ?_
  refine ite (fun hat => ?_) fun _ => ?_
  · have hkind : s.cursor.kind = .keyword .Elif := eq_of_beq hat
    exact bind_left (.placed (ih.conditional j s (by simp [hkind]) (by omega))) _
  · refine seq (.eat (by simp)) fun found s => ite (fun _ => ?_) fun _ => refl _
    exact seq (.expect (by simp)) fun _ s => bind_left (ih.block j s (by omega)) _

/-- So is reading clauses. -/
theorem next_clauses (ih : ReadersAgree n (readers n) r') (hk : 8 * k ≤ n + 1) :
    Agrees k (readers n).next.clauses r'.next.clauses s :=
  of_pos fun j hj => .clausesRound (fun s => ih.block j s (by omega))
    (fun s => ((readersGather n).block s).goesOn)
    fun _ s => ih.clauses j s (by omega)

/-- Readers that agree with enough levels do so with one more. -/
theorem next (ih : ReadersAgree n (readers n) r') : ReadersAgree (n + 1) (readers n).next r'.next where
  statements _ pending inBlock _ hk := ih.next_statements pending inBlock hk
  statementLine _ _ hk := ih.next_statementLine hk
  compound _ _ hk := ih.next_compound hk
  block _ _ hk := ih.next_block hk
  decorated _ _ hk := ih.next_decorated hk
  function _ decorators isAsync _ hk := ih.next_function decorators isAsync hk
  classDef _ decorators _ hk := ih.next_classDef decorators hk
  conditional _ _ hkind hk := ih.next_conditional hkind hk
  clauses _ _ hk := ih.next_clauses hk

end ReadersAgree

/-- Where `n` levels are enough, they read what the grammar does, whatever readers stand below. -/
theorem readersAgree (base : Readers) (n : Nat) : ReadersAgree n (readers n) (Readers.next^[n] base) := by
  induction n with
  | zero => exact .zero
  | succ n ih =>
    rw [readers_succ, Function.iterate_succ_apply']
    exact ih.next

end StmtReader

end PackageDoc
