import PackageDoc.Proofs.Progress.Expressions
import PackageDoc.Proofs.Progress.Statements
import PackageDoc.Proofs.Progress.Tokens

namespace PackageDoc

/-!
# Reading comes to the end of every text

* `StmtReader.Reaches` — a reader that comes to a place without failing;
* `StmtReader.statements_reaches` — with enough levels, reading the statements of a text comes to its
  end;
* `LoopsAdvance` — every loop of the grammar passes a token in each round behind which it goes on;
* `Suite.parse_ends` — so that a text is read to its end, within the bounds that are set.
-/

namespace StmtReader

open Cursor

variable {α β : Type} {k n : Nat} {s : StmtState} {post : Cursor → Prop}

/-! ### Coming to a place -/

/-- In front of the end of the text, with at most `k` tokens left, the reader does not fail and comes
    to a place that satisfies `post`. -/
def Reaches (k : Nat) (post : Cursor → Prop) (m : StmtReader α) (s : StmtState) : Prop :=
  s.cursor.BeforeEnd → s.cursor.rest.length ≤ k → ∃ a s', m.run s = .ok a s' ∧ post s'.cursor

namespace Reaches

theorem pure {a : α} (h : post s.cursor) : Reaches k post (pure a) s :=
  fun _ _ => ⟨a, s, rfl, h⟩

theorem bind {pre : Cursor → Prop} {m : StmtReader α} {f : α → StmtReader β} (hm : Reaches k pre m s)
    (hgoes : GoesOn s.cursor.rest m s) (hf : ∀ a s, Reaches k post (f a) s) :
    Reaches k post (m >>= f) s := by
  intro hs hk
  obtain ⟨a, s', hrun, -⟩ := hm hs hk
  have hmid := hgoes (amid_self hs)
  rw [hrun] at hmid
  obtain ⟨b, s'', hrest, hpost⟩ := hf a s' hmid.1.beforeEnd (hmid.1.length_le.trans hk)
  exact ⟨b, s'', (run_bind_of_ok hrun f).trans hrest, hpost⟩

/-- Behind a reader that leaves the next token behind there is one fewer left. -/
theorem bind_leaves {m : StmtReader α} {f : α → StmtReader β} (hm : Succeeds m s)
    (hleaves : Leaves s.cursor m s) (hf : ∀ a s, Reaches k post (f a) s) :
    Reaches (k + 1) post (m >>= f) s := by
  intro hs hk
  obtain ⟨a, s', hrun⟩ := hm
  have hbehind := hleaves (amid_self hs) a s' hrun
  have hlength := hs.length_advance
  have hle := hbehind.suffix.length_le
  obtain ⟨b, s'', hrest, hpost⟩ := hf a s' hbehind.beforeEnd (by omega)
  exact ⟨b, s'', (run_bind_of_ok hrun f).trans hrest, hpost⟩

/-- What is made of the result does not matter. -/
theorem map {m : StmtReader α} (h : Reaches k post m s) (f : α → β) :
    Reaches k post (m >>= fun a => Pure.pure (f a)) s := by
  intro hs hk
  obtain ⟨a, s', hrun, hpost⟩ := h hs hk
  exact ⟨f a, s', run_bind_of_ok hrun _, hpost⟩

theorem ite {p : Prop} [Decidable p] {m m' : StmtReader α} (hm : p → Reaches k post m s)
    (hm' : ¬p → Reaches k post m' s) : Reaches k post (if p then m else m') s := by
  split
  · exact hm ‹_›
  · exact hm' ‹_›

theorem peek_bind {f : Token → StmtReader β} (h : Reaches k post (f s.cursor.peek) s) :
    Reaches k post (peek >>= f) s := h

theorem cursor_bind {f : Cursor → StmtReader β} (h : Reaches k post (f s.cursor) s) :
    Reaches k post (cursor >>= f) s := h

/-- Reporting something does not keep it from there. -/
theorem report_bind {f : Unit → StmtReader β} {issue : SyntaxIssue}
    (h : Reaches k post (f ()) { s with issues := issue :: s.issues }) :
    Reaches k post (report issue >>= f) s := h

/-- Nor does reading a token other than the end. -/
theorem advance_bind {f : Token → StmtReader β} (hkind : s.cursor.kind ≠ .eof)
    (h : Reaches k post (f s.cursor.peek) { s with cursor := s.cursor.advance }) :
    Reaches (k + 1) post (advance >>= f) s := by
  intro hs hk
  have hlength := hs.length_advance
  exact h (hs.advance hkind).1 (show s.cursor.advance.rest.length ≤ k by omega)

/-- A body ends with its block, or with the text. -/
theorem statementsRound {line nested : StmtReader (List (Placed Stmt))}
    {again : List Comment × Bool → StmtReader (List (Placed Stmt))} {inBlock : Bool}
    {pre : Cursor → Prop} (hline : Succeeds line s)
    (hleaves : s.cursor.kind.isLineEnd = false → Leaves s.cursor line s)
    (hnested : ∀ s, Reaches k pre nested s) (hgoes : ∀ s, GoesOn s.cursor.rest nested s)
    (hagain : ∀ pending s,
      Reaches k (fun c => inBlock = false → c.kind = .eof) (again (pending, inBlock)) s)
    (pending : List Comment) :
    Reaches (k + 1) (fun c => inBlock = false → c.kind = .eof)
      (statementsRound line nested again (pending, inBlock)) s := by
  refine peek_bind ?_
  split
  -- the end of the text
  · rename_i hkind
    exact pure fun _ => hkind
  -- the end of a block, which is passed over where none is being read
  · rename_i hkind
    refine advance_bind (by simp [Cursor.kind, hkind]) (ite (fun hblock => ?_) fun _ => hagain _ _)
    refine pure fun hopen => ?_
    rw [show inBlock = true from hblock] at hopen
    cases hopen
  -- a comment, a line without a statement, the end of a line
  · rename_i hkind
    exact advance_bind (by simp [Cursor.kind, hkind]) (hagain _ _)
  · rename_i hkind
    exact cursor_bind (advance_bind (by simp [Cursor.kind, hkind]) (hagain _ _))
  · rename_i hkind
    exact advance_bind (by simp [Cursor.kind, hkind]) (hagain _ _)
  -- a block that nothing leads
  · rename_i hkind
    refine report_bind (advance_bind (show s.cursor.peek.kind ≠ .eof by simp [hkind]) ?_)
    exact bind (hnested _) (hgoes _) fun body s => (hagain _ s).map _
  -- a line with a statement
  · rename_i heof _ _ _ hnewline _
    have hinner := isLineEnd_eq_false hnewline heof
    exact bind_leaves hline (hleaves hinner) fun body s => (hagain _ s).map _

end Reaches

/-- **With enough levels, reading does not fail and comes to the end of the text**, unless it is the
    body of a block that ends before. -/
theorem statements_reaches (hn : 8 * k + 4 ≤ n) (pending : List Comment) (inBlock : Bool)
    (s : StmtState) :
    Reaches k (fun c => inBlock = false → c.kind = .eof) (statements n pending inBlock) s := by
  induction n generalizing k pending inBlock s with
  | zero => omega
  | succ n ih =>
    cases k with
    | zero =>
      intro hs hk
      have hpos := hs.length_pos
      omega
    | succ k =>
      obtain ⟨m, rfl⟩ : ∃ m, n = m + 3 := ⟨n - 3, by omega⟩
      change Reaches _ _ (statementsRound (statementLine (m + 3)) (statements (m + 3) [] true)
        (fun i => statements (m + 3) i.1 i.2) (pending, inBlock)) s
      exact .statementsRound (Succeeds.statementLine _) (statementLine_leaves m s)
        (ih (k := k) (by omega) [] true) (fun s => ((readersGather _).statements _ _ s).goesOn)
        (fun pending s => ih (k := k) (by omega) pending inBlock s) pending

end StmtReader

/-! ### Every loop -/

section Loops

open StmtReader Cursor

/-- Each loop of the grammar goes on only behind a token that its round passes, so that its bound is
    not what ends it; nor does the bound on the depth of an expression. -/
structure LoopsAdvance : Prop where
  /-- Over the lines of a body; the levels below a line are enough for a header. -/
  statements : ∀ n,
    (∀ pending inBlock, StmtReader.statements (n + 1) pending inBlock =
      statementsRound (statementLine n) (StmtReader.statements n [] true)
        (fun i => StmtReader.statements n i.1 i.2) (pending, inBlock)) ∧
    (3 ≤ n → Advances StmtState.cursor BeforeEnd
      (statementsRound (statementLine n) (StmtReader.statements n [] true)))
  /-- Over the clauses of a compound statement. -/
  clauses : ∀ n, StmtReader.clauses (n + 1) = clausesRound (block n) (fun _ => StmtReader.clauses n) () ∧
    Advances StmtState.cursor BeforeEnd (clausesRound (block n))
  smallStatements : Loops (fun n _ => StmtReader.smallStatements n) smallStatementsRound
  paramList : Loops (fun n (i : ParamKind × List Param) => StmtReader.paramList n i.1 i.2) paramListRound
  classArguments : Loops (fun n _ => StmtReader.classArguments n) classArgumentsRound
  decorators : Loops (fun n _ => StmtReader.decorators n) decoratorsRound
  importLevel : Loops (fun n _ => StmtReader.importLevel n) importLevelRound
  nameAliases : ∀ inParens,
    Loops (fun n _ => StmtReader.nameAliases inParens n) (nameAliasesRound inParens)
  moduleAliases : Loops (fun n _ => StmtReader.moduleAliases n) moduleAliasesRound
  dottedTail : Loops StmtReader.dottedTail dottedTailRound
  assignedValues : Repeats StmtState.cursor (fun c => c.BeforeEnd ∧ c.kind = .equals)
    (fun n (_ : Unit) => StmtReader.assignedValues n) assignedValuesRound
  skipStatement : Loops (fun _ _ => StmtReader.skipStatement)
    (skipRound fun k => !(k.isLineEnd || k == .semicolon || k == .comment))
  skipLine : Loops (fun _ _ => StmtReader.skipLine) skipLineRound
  /-- Over the lines without a statement below a decorator. -/
  skipBlank : Loops (fun _ _ => StmtReader.skipWhile fun k => k == .comment || k == .blankLine)
    (skipRound fun k => k == .comment || k == .blankLine)
  skipGroup : Scans (fun depth c => Cursor.skipGroup depth c.prev c.rest) skipGroupRound
  headerEnd : Scans (fun i c => StmtReader.headerEnd i.1 i.2 c.prev c.rest) headerEndRound
  skipShape : ∀ stops,
    Scans (fun i c => Expr.skipShape stops i.1 i.2.1 i.2.2 c.prev c.rest) (skipShapeRound stops)
  pendingComments : Scans (fun pending c => StmtReader.pendingComments pending c.prev c.rest)
    pendingCommentsRound
  joinLiterals : Scans (fun i c => Expr.joinLiterals i.1 i.2 c.prev c.rest) joinLiteralsRound
  readItems : ∀ stops, Repeats id BeforeEnd (fun n (_ : Unit) c => Expr.readItems stops n c)
    (readItemsRound stops)
  /-- Over the parts of an expression, at any depth. -/
  expressions : ∀ (base : Expr.Readers) (c : Cursor) (more : Nat), c.BeforeEnd →
    (Expr.Readers.next^[Expr.depthBound c + more] base).read.run c =
      (Expr.read (Expr.depthBound c)).run c

end Loops

/-- All loops of the grammar end by what they read. -/
theorem loopsAdvance : LoopsAdvance where
  statements n := by
    refine ⟨fun _ _ => rfl, fun hn => ?_⟩
    obtain ⟨m, rfl⟩ : ∃ m, n = m + 3 := ⟨n - 3, by omega⟩
    exact StmtReader.advances_statementsRound m
  clauses n := ⟨rfl, StmtReader.advances_clausesRound n⟩
  smallStatements := StmtReader.loops_smallStatements
  paramList := StmtReader.loops_paramList
  classArguments := StmtReader.loops_classArguments
  decorators := StmtReader.loops_decorators
  importLevel := StmtReader.loops_importLevel
  nameAliases := StmtReader.loops_nameAliases
  moduleAliases := StmtReader.loops_moduleAliases
  dottedTail := StmtReader.loops_dottedTail
  assignedValues := StmtReader.repeats_assignedValues
  skipStatement := StmtReader.loops_skipWhile rfl
  skipLine := StmtReader.loops_skipLine
  skipBlank := StmtReader.loops_skipWhile rfl
  skipGroup := Cursor.scans_skipGroup
  headerEnd := Cursor.scans_headerEnd
  skipShape := Cursor.scans_skipShape
  pendingComments := Cursor.scans_pendingComments
  joinLiterals := Cursor.scans_joinLiterals
  readItems := Cursor.repeats_readItems
  expressions base _ _ hc := Expr.run_iterate_next base hc (Nat.le_add_right _ _)

/-! ### Whole texts -/

/-- A place in front of the only end of the text is the last one. -/
theorem Cursor.rest_eq_of_eof {ts : List Token} {t : Token} {c : Cursor} (hc : c.Amid (ts ++ [t]))
    (hkind : c.kind = .eof) (hts : ∀ u ∈ ts, u.kind ≠ .eof) : c.rest = [t] := by
  obtain ⟨prev, u, us, rfl⟩ := hc.beforeEnd.exists_cons
  obtain ⟨before, hbefore⟩ := hc.suffix
  have hu : u.kind = .eof := hkind
  rcases List.eq_nil_or_concat us with rfl | ⟨vs, v, rfl⟩
  · exact List.append_inj_right' hbefore rfl
  · -- another token behind it would put it among those that do not end the text
    have hbefore : (before ++ u :: vs) ++ [v] = ts ++ [t] := by
      rw [← hbefore, List.append_assoc, List.cons_append, List.concat_eq_append]
    have hmem : u ∈ ts := by
      rw [← List.append_inj_left' hbefore rfl]
      exact List.mem_append_right _ List.mem_cons_self
    exact absurd hu (hts u hmem)

/-- Where the reading of a text begins. -/
def Suite.start (source : String) : StmtState where
  cursor := Cursor.start (tokenize source).1 (Text.byteLength source.toList)
  issues := (tokenize source).2.reverse

/-- A text whose statements are read is the program of what is read, with the issues as they came. -/
theorem Suite.parse_of_run_eq_ok {source : String} {body : List (Placed Stmt)} {s : StmtState}
    (h : (StmtReader.statements (8 * ((tokenize source).1.length + 1)) [] false).run
      (Suite.start source) = .ok body s) :
    Suite.parse source = ⟨body, ⟨0, Text.byteLength source.toList⟩, s.issues.reverse⟩ := by
  unfold Suite.parse
  unfold Suite.start at h
  simp only [h]

/-- **Every text is read to its end**, well formed or not.  The tokens are not cut off, each loop goes
    on only behind a token that it passes, and the levels that are set are enough: with as many or more
    of them, on any readers below, the statements are read without a failure, and what is left then is
    the token that ends the text. -/
theorem Suite.parse_ends : LoopsAdvance ∧ ∀ source : String,
    (Lexer.walked source.toList).step = none ∧
    ∃ (body : List (Placed Stmt)) (s : StmtState) (ts : List Token) (t : Token),
      (tokenize source).1 = ts ++ [t] ∧ t.kind = .eof ∧ s.cursor.rest = [t] ∧
      (∀ (base : StmtReader.Readers) (more : Nat),
        ((StmtReader.Readers.next^[8 * ((tokenize source).1.length + 1) + more] base).statements
          [] false).run (Suite.start source) = .ok body s) ∧
      Suite.parse source = ⟨body, ⟨0, Text.byteLength source.toList⟩, s.issues.reverse⟩ := by
  refine ⟨loopsAdvance, fun source => ⟨Lexer.step_walked source.toList, ?_⟩⟩
  obtain ⟨ts, t, htokens, ht, hts⟩ := tokenize_ends source
  have hstart : (Suite.start source).cursor.Amid (tokenize source).1 :=
    ⟨List.suffix_refl _, tokenize_eof source⟩
  have hlength : (Suite.start source).cursor.rest.length ≤ (tokenize source).1.length := le_refl _
  have henough : 8 * (tokenize source).1.length + 4 ≤ 8 * ((tokenize source).1.length + 1) := by omega
  obtain ⟨body, s, hrun, hend⟩ := StmtReader.statements_reaches henough [] false (Suite.start source)
    hstart.beforeEnd hlength
  have hplace := (StmtReader.readersGather (8 * ((tokenize source).1.length + 1))).statements [] false
    (Suite.start source) hstart
  rw [hrun, htokens] at hplace
  refine ⟨body, s, ts, t, htokens, ht, Cursor.rest_eq_of_eof hplace.1 (hend rfl) hts, ?_, ?_⟩
  · -- the levels beyond the bound are readers like any others below it
    intro base more
    rw [Function.iterate_add_apply, ← hrun]
    exact (((StmtReader.readersAgree (StmtReader.Readers.next^[more] base) _).statements _ [] false
      (Suite.start source) henough) hstart.beforeEnd hlength).symm
  · exact Suite.parse_of_run_eq_ok hrun

/-- A closing bracket that opens nothing, lone punctuation, an indented line, a block and a definition
    that are missing, and a bracket that is open at the end. -/
def strayTokens : String := ")\n;\n,\n:\n  x\nif y:\nz\n@\nasync\ndef f(\n"

example : ((Suite.parse strayTokens).body.length, (Suite.parse strayTokens).issues.length) = (8, 7) := by
  decide +kernel

end PackageDoc
