import PackageDoc.Proofs.Progress.Rounds

namespace PackageDoc

/-!
# The loops of the grammar

Each loop of the grammar that runs inside a line, or over lines without a statement, repeats a round
that advances, on text of any kind.

* `StmtReader.Loops` — a loop of a reader of statements that repeats such a round;
* `StmtReader.loops_smallStatements` and the like — over the statements of a line, and over the parts of
  headers and imports;
* `StmtReader.loops_skipWhile` and `StmtReader.loops_skipLine` — over what is left of a statement or a
  line that cannot be read;
* `Cursor.Scans` — a loop over a place, as those that pass brackets, headers and expressions of unknown
  shape are.
-/

/-! ### Loops over statements and headers -/

namespace StmtReader

open Cursor

/-- One further part of a dotted name. -/
def dottedTailRound (again : Ident → StmtReader Ident) (name : Ident) : StmtReader Ident := do
  let c ← cursor
  if c.at? .dot && c.kindAfter == .name then
    let _ ← advance
    let part ← ident
    again ⟨name.name ++ "." ++ part.name, name.span.cover part.span⟩
  else
    return name

/-- One imported module. -/
def moduleAliasesRound (again : Unit → StmtReader (List Alias)) (_ : Unit) :
    StmtReader (List Alias) := do
  let first ← importedAs dottedName
  if ← eat .comma then
    let others ← again ()
    return first :: others
  else
    return [first]

/-- One or three dots of a relative import. -/
def importLevelRound (again : Unit → StmtReader Nat) (_ : Unit) : StmtReader Nat := do
  match (← peek).kind with
  | .dot =>
    let _ ← advance
    return (← again ()) + 1
  | .ellipsis =>
    let _ ← advance
    return (← again ()) + 3
  | _ => return 0

/-- One imported name. -/
def nameAliasesRound (inParens : Bool) (again : Unit → StmtReader (List Alias)) (_ : Unit) :
    StmtReader (List Alias) := do
  if inParens && (← at? .rparen) then
    return []
  else
    let first ← importedAs ident
    if ← eat .comma then
      let others ← again ()
      return first :: others
    else
      return [first]

/-- One value that is assigned. -/
def assignedValuesRound (again : Unit → StmtReader (List Expr × Expr)) (_ : Unit) :
    StmtReader (List Expr × Expr) := do
  let _ ← advance
  let value ← tupleUntil [.equals]
  if ← at? .equals then
    let rest ← again ()
    return (value :: rest.1, rest.2)
  else
    return ([], value)

/-- One statement of a line. -/
def smallStatementsRound (again : Unit → StmtReader (List (Placed Stmt))) (_ : Unit) :
    StmtReader (List (Placed Stmt)) := do
  let first ← placed (orReport skipStatement smallStatement)
  if ← eat .semicolon then
    let kind := (← peek).kind
    if kind.isLineEnd || kind == .comment then
      return [first]
    else
      let others ← again ()
      return first :: others
  else
    return [first]

/-- One parameter, slash or star. -/
def paramListRound (again : ParamKind × List Param → StmtReader (List Param))
    (i : ParamKind × List Param) : StmtReader (List Param) := do
  let more (kind : ParamKind) (params : List Param) : StmtReader (List Param) := do
    if ← eat .comma then again (kind, params) else return params
  match (← peek).kind with
  | .rparen => return i.2
  | .slash =>
    let _ ← advance
    more i.1 (i.2.map fun p => { p with kind := .positionalOnly })
  | .star =>
    let _ ← advance
    if ← at? .name then
      let p ← param .varPositional
      more .keywordOnly (i.2 ++ [p])
    else
      more .keywordOnly i.2
  | .doubleStar =>
    let _ ← advance
    let p ← param .varKeyword
    more i.1 (i.2 ++ [p])
  | .name =>
    let p ← param i.1
    more i.1 (i.2 ++ [p])
  | _ => fail .invalidParameter

/-- One argument of a class header. -/
def classArgumentsRound (again : Unit → StmtReader (List Expr × List (Option String × Expr)))
    (_ : Unit) : StmtReader (List Expr × List (Option String × Expr)) := do
  if (← at? .rparen) || (← at? .eof) then
    return ([], [])
  else
    let first ← classArgument
    if ← eat .comma then
      let others ← again ()
      return Expr.consArgument first others
    else
      return Expr.consArgument first ([], [])

/-- One decorator with the lines below it that hold no statement. -/
def decoratorsRound (again : Unit → StmtReader (List Expr)) (_ : Unit) : StmtReader (List Expr) := do
  if ← eat .atSign then
    let first ← exprUntil []
    unless ← eat .newline do
      fail .expectedNewlineAfterDecorator
    skipWhile fun k => k == .comment || k == .blankLine
    let others ← again ()
    return first :: others
  else
    return []

/-- A loop of a reader that is entered wherever the text goes on. -/
abbrev Loops {ι α : Type} (loop : Nat → ι → StmtReader α)
    (round : (ι → StmtReader α) → ι → StmtReader α) : Prop :=
  Repeats StmtState.cursor BeforeEnd loop round

variable {α : Type}

/-- The rounds of a reader advance if they pass a token before the loop goes on. -/
theorem loops {ι : Type} {loop : Nat → ι → StmtReader α}
    {round : (ι → StmtReader α) → ι → StmtReader α} (hsucc : ∀ n i, loop (n + 1) i = round (loop n) i)
    (h : ∀ k again again' i s, (∀ j s, Agrees k (again j) (again' j) s) →
      Agrees (k + 1) (round again i) (round again' i) s) : Loops loop round :=
  .of_succ (advances h) (fun n i s _ => congrFun (hsucc n i) s) fun _ hc => hc

open Agrees

/-- The rest of a dotted name is a loop over the parts behind dots. -/
theorem loops_dottedTail : Loops dottedTail dottedTailRound := by
  refine loops (fun _ _ => rfl) fun k again again' name s hagain => ?_
  refine cursor_bind (ite (fun h => ?_) fun _ => refl _)
  have hkind : s.cursor.kind = .dot := eq_of_beq (Bool.and_eq_true_iff.mp h).1
  exact advance_bind (by simp [hkind]) (seq .ident fun part s => hagain _ s)

/-- The dots of a relative import are a loop. -/
theorem loops_importLevel : Loops (fun n _ => importLevel n) importLevelRound := by
  refine loops (fun _ _ => rfl) fun k again again' i s hagain => ?_
  refine peek_bind ?_
  split
  · rename_i hkind
    exact advance_bind (by simp [Cursor.kind, hkind]) (bind_left (hagain () _) _)
  · rename_i hkind
    exact advance_bind (by simp [Cursor.kind, hkind]) (bind_left (hagain () _) _)
  · exact refl _

/-- So are the modules of an `import`. -/
theorem loops_moduleAliases : Loops (fun n _ => moduleAliases n) moduleAliasesRound := by
  refine loops (fun _ _ => rfl) fun k again again' i s hagain => ?_
  refine seq (.importedAs fun _ => .dottedName) fun first s => ?_
  exact eat_ite (by simp) (fun s => bind_left (hagain () s) _) (refl _)

/-- So are the names of a `from` import. -/
theorem loops_nameAliases (inParens : Bool) :
    Loops (fun n _ => nameAliases inParens n) (nameAliasesRound inParens) := by
  refine loops (fun _ _ => rfl) fun k again again' i s hagain => ?_
  refine at_bind (ite (fun _ => refl _) fun _ => ?_)
  refine seq (.importedAs fun _ => .ident) fun first s => ?_
  exact eat_ite (by simp) (fun s => bind_left (hagain () s) _) (refl _)

/-- So are the small statements of a line. -/
theorem loops_smallStatements : Loops (fun n _ => smallStatements n) smallStatementsRound := by
  refine loops (fun _ _ => rfl) fun k again again' i s hagain => ?_
  refine seq (.placed (.orReport (fun _ => .skipStatement) .smallStatement)) fun first s => ?_
  refine eat_ite (by simp) (fun s => ?_) (refl _)
  exact peek_bind (ite (fun _ => refl _) fun _ => bind_left (hagain () s) _)

/-- So are parameters. -/
theorem loops_paramList :
    Loops (fun n (i : ParamKind × List Param) => paramList n i.1 i.2) paramListRound := by
  refine loops (fun _ _ => rfl) fun k again again' i s hagain => ?_
  have hmore (kind : ParamKind) (params : List Param) (s : StmtState) : Agrees k
      (do if ← eat .comma then again (kind, params) else return params)
      (do if ← eat .comma then again' (kind, params) else return params) s :=
    seq (.eat (by simp)) fun found s => ite (fun _ => hagain _ s) fun _ => refl _
  refine peek_bind ?_
  split
  · exact refl _
  -- `/`, `*` with a name or alone, `**`
  · rename_i hkind
    exact advance_bind (by simp [Cursor.kind, hkind]) (hmore _ _ _)
  · rename_i hkind
    refine advance_bind (by simp [Cursor.kind, hkind]) (at_bind (ite (fun _ => ?_) fun _ => ?_))
    · exact seq (.param _) fun p s => hmore _ _ s
    · exact hmore _ _ _
  · rename_i hkind
    exact advance_bind (by simp [Cursor.kind, hkind]) (seq (.param _) fun p s => hmore _ _ s)
  -- a parameter with nothing in front
  · refine seq (.param _) fun p s => ?_
    exact eat_ite (by simp) (fun s => hagain _ s) (refl _)
  · exact refl _

/-- So are the arguments of a class header. -/
theorem loops_classArguments : Loops (fun n _ => classArguments n) classArgumentsRound := by
  refine loops (fun _ _ => rfl) fun k again again' i s hagain => ?_
  refine at_bind (at_bind (ite (fun _ => refl _) fun _ => ?_))
  refine seq .classArgument fun first s => ?_
  exact eat_ite (by simp) (fun s => bind_left (hagain () s) _) (refl _)

/-- So are decorators. -/
theorem loops_decorators : Loops (fun n _ => decorators n) decoratorsRound := by
  refine loops (fun _ _ => rfl) fun k again again' i s hagain => ?_
  have hmore (first : Expr) (s : StmtState) : Agrees k
      (do
        skipWhile fun k => k == .comment || k == .blankLine
        let others ← again ()
        return first :: others)
      (do
        skipWhile fun k => k == .comment || k == .blankLine
        let others ← again' ()
        return first :: others) s :=
    seq (.skipWhile fun kind hkind => by rintro rfl; cases hkind) fun _ s => bind_left (hagain () s) _
  refine eat_ite (by simp) (fun s => ?_) (refl _)
  refine seq (.exprUntil _) fun first s => seq (.eat (by simp)) fun found s => ?_
  refine ite (fun _ => hmore first s) fun _ => ?_
  exact seq (P := fun _ => True) (.fail _) fun _ s => hmore first s

/-- The loop is entered at a sign of equality. -/
theorem repeats_assignedValues : Repeats StmtState.cursor (fun c => c.BeforeEnd ∧ c.kind = .equals)
    (fun n (_ : Unit) => assignedValues n) assignedValuesRound := by
  refine .of_succ (fun again again' i s hs hagain => ?_) (fun _ _ _ _ => rfl) fun _ hc => hc.1
  have hpos := hs.1.length_pos
  have hless (s' : StmtState) (hkind : s'.cursor.kind = .equals) :
      Agrees (s.cursor.rest.length - 1) (again ()) (again' ()) s' :=
    fun hs' hk => hagain () s' ⟨hs', hkind⟩ (by omega)
  have hround : Agrees (s.cursor.rest.length - 1 + 1) (assignedValuesRound again i)
      (assignedValuesRound again' i) s :=
    advance_bind (by simp [hs.2]) (seq (.tupleUntil _) fun value s =>
      at_bind (ite (fun hat => bind_left (hless s (eq_of_beq hat)) _) fun _ => refl _))
  exact hround hs.1 (by omega)

/-! ### Loops that pass over tokens -/

/-- Pass a token that satisfies `p`. -/
def skipRound (p : TokenKind → Bool) (again : Unit → StmtReader Unit) (_ : Unit) :
    StmtReader Unit := do
  if p (← peek).kind then
    let _ ← advance
    again ()

/-- Pass a token of the line, or its end. -/
def skipLineRound (again : Unit → StmtReader Unit) (_ : Unit) : StmtReader Unit := do
  if (← peek).kind.isLineEnd then
    let _ ← eat .newline
  else
    let _ ← advance
    again ()

/-- Skipping tokens is a loop, if the end is not skipped. -/
theorem loops_skipWhile {p : TokenKind → Bool} (hp : p .eof = false) :
    Loops (fun _ _ => skipWhile p) (skipRound p) := by
  refine .of_succ (advances fun k again again' i s hagain => ?_) (fun n i s hs => ?_) fun _ hc => hc
  · refine peek_bind (ite (fun hkind => ?_) fun _ => refl _)
    refine advance_bind ?_ (hagain () _)
    intro heof
    rw [show s.cursor.peek.kind = .eof from heof, hp] at hkind
    cases hkind
  · obtain ⟨⟨prev, rest⟩, issues⟩ := s
    obtain ⟨prev, t, ts, ⟨⟩⟩ := hs.exists_cons
    change EStateM.Result.ok () ⟨skipTokens p prev (t :: ts), issues⟩ =
      (if p t.kind = true then advance >>= fun _ => skipWhile p else pure () : StmtReader Unit).run
        ⟨⟨prev, t :: ts⟩, issues⟩
    rw [skipTokens]
    split <;> rfl

/-- A line is skipped token by token in front of the end of the text. -/
theorem run_skipLine {s : StmtState} (hs : s.cursor.BeforeEnd) :
    skipLine.run s = (skipLineRound (fun _ => skipLine) ()).run s := by
  obtain ⟨⟨prev, rest⟩, issues⟩ := s
  obtain ⟨prev, t, ts, ⟨⟩⟩ := hs.exists_cons
  change (eat .newline >>= fun _ => pure () : StmtReader Unit).run
      ⟨skipTokens (fun k => !k.isLineEnd) prev (t :: ts), issues⟩ =
    (if t.kind.isLineEnd = true then eat .newline >>= fun _ => pure ()
      else advance >>= fun _ => skipLine : StmtReader Unit).run ⟨⟨prev, t :: ts⟩, issues⟩
  rw [skipTokens]
  cases t.kind.isLineEnd <;> rfl

/-- So that is a loop as well. -/
theorem loops_skipLine : Loops (fun _ _ => skipLine) skipLineRound := by
  refine .of_succ (advances fun k again again' i s hagain => ?_) (fun _ _ s hs => run_skipLine hs)
    fun _ hc => hc
  refine peek_bind (ite (fun _ => refl _) fun hkind => advance_bind ?_ (hagain () _))
  intro heof
  rw [show s.cursor.peek.kind = .eof from heof] at hkind
  exact hkind rfl

end StmtReader

/-! ### Loops over a place -/

namespace Cursor

/-- A loop over a place that is entered wherever the text goes on. -/
abbrev Scans {ι β : Type} (loop : ι → Cursor → β) (round : (ι → Cursor → β) → ι → Cursor → β) : Prop :=
  Repeats id BeforeEnd (fun _ => loop) round

/-- A round over a place advances if the loop goes on from the next one only. -/
theorem scans {ι β : Type} {loop : ι → Cursor → β} {round : (ι → Cursor → β) → ι → Cursor → β}
    (hsucc : ∀ i prev t ts, loop i ⟨prev, t :: ts⟩ = round loop i ⟨prev, t :: ts⟩)
    (h : ∀ again again' i c, (c.kind ≠ .eof → ∀ j, again j c.advance = again' j c.advance) →
      round again i c = round again' i c) : Scans loop round := by
  refine .of_succ (fun again again' i c hc hagain => h again again' i c fun hkind j => ?_)
    (fun n i c hc => ?_) fun _ hc => hc
  · have hc : c.BeforeEnd := hc
    have hlength := hc.length_advance
    exact hagain j c.advance (hc.advance hkind).1 (show c.advance.rest.length < c.rest.length by omega)
  · obtain ⟨prev, t, ts, rfl⟩ := BeforeEnd.exists_cons hc
    exact hsucc i prev t ts

/-- Pass a token of a group of brackets, `depth` of them being open. -/
def skipGroupRound (again : Nat → Cursor → Cursor) (depth : Nat) (c : Cursor) : Cursor :=
  if c.kind.isLineEnd then c
  else if c.kind.isOpenBracket then again (depth + 1) c.advance
  else if c.kind.isCloseBracket then
    if depth ≤ 1 then c.advance else again (depth - 1) c.advance
  else again depth c.advance

/-- What does not end a line does not end the text. -/
theorem ne_eof_of_inner {c : Cursor} (h : ¬c.kind.isLineEnd = true) : c.kind ≠ .eof := by
  intro heof
  rw [heof] at h
  exact h rfl

/-- A group in brackets is scanned token by token. -/
theorem scans_skipGroup : Scans (fun depth c => skipGroup depth c.prev c.rest) skipGroupRound := by
  refine scans (fun depth prev t ts => ?_) fun again again' depth c hagain => ?_
  · rfl
  · unfold skipGroupRound
    split
    · rfl
    · rename_i hline
      have hagain := hagain (ne_eof_of_inner hline)
      rw [hagain, hagain, hagain]

/-- Pass a token of a header, or find the colon that ends it. -/
def headerEndRound (again : Nat × Nat → Cursor → Bool × Cursor) (i : Nat × Nat) (c : Cursor) :
    Bool × Cursor :=
  let (depth, lambdas) := i
  if c.kind.isLineEnd || c.kind = .comment then (false, c)
  else if c.kind.isOpenBracket then again (depth + 1, lambdas) c.advance
  else if c.kind.isCloseBracket then again (depth - 1, lambdas) c.advance
  else if depth = 0 && c.kind = .keyword .Lambda then again (depth, lambdas + 1) c.advance
  else if depth = 0 && c.kind = .colon then
    if lambdas = 0 then (true, c.advance) else again (depth, lambdas - 1) c.advance
  else again (depth, lambdas) c.advance

/-- A header is scanned for its end. -/
theorem scans_headerEnd :
    Scans (fun i c => StmtReader.headerEnd i.1 i.2 c.prev c.rest) headerEndRound := by
  refine scans (fun i prev t ts => rfl) fun again again' i c hagain => ?_
  unfold headerEndRound
  dsimp only
  split
  · rfl
  · rename_i hline
    have hagain := hagain (ne_eof_of_inner fun hend => hline (by rw [hend]; rfl))
    simp only [hagain]

/-- Pass a token of an expression of unknown shape. -/
def skipShapeRound (stops : List TokenKind) (again : Nat × Nat × Nat → Cursor → Nat × Cursor)
    (i : Nat × Nat × Nat) (c : Cursor) : Nat × Cursor :=
  let (depth, lambdas, stop) := i
  if c.kind.isLineEnd then (stop, c)
  else if depth = 0 then
    if c.kind = .colon && 0 < lambdas then again (0, lambdas - 1, c.peek.span.stop) c.advance
    else if c.kind.isCloseBracket || Expr.endsAt stops c.kind then (stop, c)
    else
      again (if c.kind.isOpenBracket then 1 else 0,
        if c.kind = .keyword .Lambda then lambdas + 1 else lambdas, c.peek.span.stop) c.advance
  else if c.kind.isOpenBracket then again (depth + 1, lambdas, c.peek.span.stop) c.advance
  else if c.kind.isCloseBracket then again (depth - 1, lambdas, c.peek.span.stop) c.advance
  else again (depth, lambdas, c.peek.span.stop) c.advance

/-- An expression of unknown shape is scanned for its end. -/
theorem scans_skipShape (stops : List TokenKind) :
    Scans (fun i c => Expr.skipShape stops i.1 i.2.1 i.2.2 c.prev c.rest) (skipShapeRound stops) := by
  refine scans (fun i prev t ts => rfl) fun again again' i c hagain => ?_
  unfold skipShapeRound
  dsimp only
  split
  · rfl
  · rename_i hline
    simp only [hagain (ne_eof_of_inner hline)]

/-- Pass a comment or a blank line. -/
def pendingCommentsRound (again : List Comment → Cursor → List Comment × Cursor)
    (pending : List Comment) (c : Cursor) : List Comment × Cursor :=
  if c.kind = .comment then again (pending ++ [Comment.ofToken c.peek]) c.advance
  else if c.kind = .blankLine then again (if c.prev.kind = .comment then pending else []) c.advance
  else (pending, c)

/-- The comments above a line are scanned one by one. -/
theorem scans_pendingComments :
    Scans (fun pending c => StmtReader.pendingComments pending c.prev c.rest) pendingCommentsRound := by
  refine scans (fun pending prev t ts => rfl) fun again again' pending c hagain => ?_
  unfold pendingCommentsRound
  split
  · rename_i hkind
    exact hagain (by simp [hkind]) _
  · split
    · rename_i hkind
      exact hagain (by simp [hkind]) _
    · rfl

/-- Pass a string literal. -/
def joinLiteralsRound (again : StringValue × Span → Cursor → StringValue × Span × Cursor)
    (i : StringValue × Span) (c : Cursor) : StringValue × Span × Cursor :=
  let (value, span) := i
  if c.kind = .string then
    let next := decodeLiteral c.peek.text
    again (⟨value.value ++ next.value, value.isBytes || next.isBytes,
      value.isFormatted || next.isFormatted⟩, span.cover c.peek.span) c.advance
  else (value, span, c)

/-- String literals behind one another are scanned one by one. -/
theorem scans_joinLiterals :
    Scans (fun i c => Expr.joinLiterals i.1 i.2 c.prev c.rest) joinLiteralsRound := by
  refine scans (fun i prev t ts => rfl) fun again again' i c hagain => ?_
  unfold joinLiteralsRound
  dsimp only
  split
  · rename_i hkind
    exact hagain (by simp [hkind]) _
  · rfl

/-- Read one expression behind a comma. -/
def readItemsRound (stops : List TokenKind) (again : Unit → Cursor → List Expr × Cursor) (_ : Unit)
    (c : Cursor) : List Expr × Cursor :=
  if c.at? .comma then
    let c := c.advance
    if Expr.endsAt stops c.kind then ([], c)
    else
      let item := Expr.readUntil (.comma :: stops) c
      let others := again () item.2
      (item.1 :: others.1, others.2)
  else ([], c)

/-- The items behind commas are read as long as there is another. -/
theorem repeats_readItems (stops : List TokenKind) :
    Repeats id BeforeEnd (fun n (_ : Unit) c => Expr.readItems stops n c) (readItemsRound stops) := by
  refine .of_succ (fun again again' i c hc hagain => ?_) (fun _ _ _ _ => rfl) fun _ hc => hc
  have hc : c.BeforeEnd := hc
  unfold readItemsRound
  split
  · rename_i hcomma
    have hkind : c.kind ≠ .eof := by simp [show c.kind = .comma from eq_of_beq hcomma]
    have hwithin := Expr.within_readUntil (.comma :: stops) c.advance
    have hless : (Expr.readUntil (.comma :: stops) c.advance).2.rest.length < c.rest.length := by
      have hlength := hc.length_advance
      have hle := hwithin.length_le
      omega
    dsimp only
    split
    · rfl
    · rw [hagain () _ (hwithin.beforeEnd (hc.advance hkind).1) hless]
  · rfl

end Cursor

end PackageDoc
