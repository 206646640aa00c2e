import PackageDoc.Analysis.Merge
import PackageDoc.Proofs.Declaration.Bindings
import PackageDoc.Proofs.Signature.Rendering
import PackageDoc.Proofs.Syntax.OneLine

namespace PackageDoc

/-!
# Signatures read back

The parameters of a function are recovered from the text of its signature.

* `StmtReader.run_functionHeader` — the header of a function with a signature;
* `StmtReader.run_statementLine_function` — the line of one that does nothing else;
* `SignatureText.parse_source` — the source text of such a function is read as that function;
* `SignatureText.parse_table` — and declares that function;
* `SignatureText.recovered` — so does a snapshot's function with the text of the signature.
-/

namespace SignatureText

/-- The header is that of a function with the signature, and with nothing else. -/
structure HeaderOf (sig : SignatureText) (name : String) (header : FunctionHeader) : Prop where
  name : header.name.name = name
  isAsync : header.isAsync = false
  decorators : header.decorators = []
  params : header.params.map Param.shape = sig.params
  returns : header.returns.isSome = sig.returns.isSome
  typeComment : header.typeComment = none

/-- The declaration is that of a function with the signature. -/
structure DeclOf (sig : SignatureText) (name : String) (decl : FunctionDecl) : Prop where
  name : decl.name = name
  params : decl.params.map ParamDecl.shape = sig.params
  returns : decl.returns.isSome = sig.returns.isSome

end SignatureText

/-! ### Headers -/

namespace StmtReader

variable {sig : SignatureText} {d n colon dots newline t prev : Token} {after : List Token}
variable {issues : List SyntaxIssue}

/-- A function header is read part by part. -/
theorem functionHeader_eq (decorators : List Expr) (isAsync : Bool) :
    functionHeader decorators isAsync = do
      let _ ← expect (.keyword .Def)
      let name ← ident
      skipTypeParams
      let _ ← expect .lparen
      let params ← paramList (← rounds) .positionalOrKeyword []
      let _ ← expect .rparen
      let returns ← written .arrow [.colon]
      let _ ← expect .colon
      let next ← peek
      let typeComment :=
        if next.kind = .comment then typeComment? (Comment.ofToken next).text else none
      return ⟨name, isAsync, decorators, params, returns, typeComment⟩ := by
  simp only [functionHeader, written_bind]

/-- The header of a function with a signature is read. -/
theorem run_functionHeader (w : sig.Tokens) (hd : d.kind = .keyword .Def) (hn : n.kind = .name)
    (hcolon : colon.kind = .colon) (ht : t.kind ≠ .comment) (after : List Token)
    (issues : List SyntaxIssue) :
    ∃ header, sig.HeaderOf n.text header ∧ ∀ prev, (functionHeader [] false).run
      ⟨⟨prev, d :: n :: w.before (colon :: t :: after)⟩, issues⟩ =
        .ok header ⟨⟨colon, t :: after⟩, issues⟩ := by
  have htypes : skipTypeParams.run ⟨⟨n, w.before (colon :: t :: after)⟩, issues⟩ =
      .ok () ⟨⟨n, w.before (colon :: t :: after)⟩, issues⟩ := by
    rw [skipTypeParams, run_bind_of_ok (show (at? .lbracket).run _ =
      .ok (w.opening.kind == .lbracket) _ from rfl), w.isOpening]
    rfl
  -- behind the parameters stand the closing parenthesis, the type that is returned and the colon
  generalize hrest : WrittenValue.tokensOf w.returns ++ colon :: t :: after = rest
  have hlength : sig.items.length < (w.items ++ w.closing :: rest).length + 1 := by
    have hle := w.isItems.length_le
    rw [List.length_append]
    omega
  obtain ⟨params, hparams, hshape⟩ := run_paramList_items w.isItems w.isClosing hlength w.opening
    rest issues .positionalOrKeyword []
  have hreturns : ∀ v ∈ w.returns, v.mark.kind = .arrow ∧ Expr.ReadsAs [.colon] v.tokens v.value :=
    fun v hv => ⟨(w.isReturns v hv).1, (w.isReturns v hv).2.readsAs (by decide)⟩
  have hreturned : (written .arrow [.colon]).run
      ⟨⟨w.closing, WrittenValue.tokensOf w.returns ++ colon :: t :: after⟩, issues⟩ =
        .ok (w.returns.map (·.value))
          ⟨⟨(WrittenValue.tokensOf w.returns).getLastD w.closing, colon :: t :: after⟩, issues⟩ :=
    run_written w.returns hreturns (by rw [hcolon]; decide) (by rw [hcolon]; decide)
  rw [hrest] at hreturned
  refine ⟨⟨⟨n.text, n.span⟩, false, [], params, w.returns.map (·.value), none⟩,
    ⟨rfl, rfl, rfl, ?_, ?_, rfl⟩, fun prev => ?_⟩
  · rw [hshape, List.map_nil, sig.foldl_after_items]
  · rw [← w.returned, Option.isSome_map]
  · rw [functionHeader_eq, run_bind_of_ok (run_expect_cons hd), run_bind_of_ok (run_ident_cons hn),
      run_bind_of_ok htypes, SignatureText.Tokens.before, hrest,
      run_bind_of_ok (run_expect_cons w.isOpening),
      run_bind_of_ok (show rounds.run _ = .ok ((w.items ++ w.closing :: rest).length + 1) _ from rfl),
      run_bind_of_ok hparams, run_bind_of_ok (run_expect_cons w.isClosing),
      run_bind_of_ok hreturned, run_bind_of_ok (run_expect_cons hcolon),
      run_bind_of_ok (show peek.run _ = .ok t _ from rfl), if_neg ht]
    rfl

/-- An ellipsis on its own is a statement. -/
theorem run_smallStatement_ellipsis (hdots : dots.kind = .ellipsis) (ht : t.kind = .newline) :
    smallStatement.run ⟨⟨prev, dots :: t :: after⟩, issues⟩ =
      .ok (.expr (.ellipsis dots.span)) ⟨⟨dots, t :: after⟩, issues⟩ := by
  have hparses : Expr.Parses (.read (.ellipsis dots.span)) [dots] :=
    .of_atom (.single (by rw [Expr.ofToken?, hdots]))
  have hread : Expr.readUntil [.comma, .equals, .colon, .augAssign] ⟨prev, dots :: t :: after⟩ =
      (.ellipsis dots.span, ⟨dots, t :: after⟩) :=
    hparses.readsAs (by decide) prev t after (by rw [ht]; decide)
  -- nothing stands behind it that would make a tuple or an assignment of it
  have htuple : (tupleUntil [.equals, .colon, .augAssign]).run ⟨⟨prev, dots :: t :: after⟩, issues⟩ =
      .ok (.ellipsis dots.span) ⟨⟨dots, t :: after⟩, issues⟩ := by
    have hall : Expr.readTupleUntil [.equals, .colon, .augAssign] ⟨prev, dots :: t :: after⟩ =
        (.ellipsis dots.span, ⟨dots, t :: after⟩) := by
      unfold Expr.readTupleUntil
      rw [hread]
      simp [Cursor.at?_cons, ht]
    exact congrArg (fun r : Expr × Cursor => EStateM.Result.ok r.1 (StmtState.mk r.2 issues)) hall
  rw [smallStatement, run_bind_of_ok (show peek.run _ = .ok dots _ from rfl), hdots]
  dsimp only
  rw [exprStatement, run_bind_of_ok htuple,
    run_bind_of_ok (show peek.run _ = .ok t _ from rfl), ht]
  rfl

/-- An ellipsis behind a colon is a body, without a comment that types the signature. -/
theorem run_block_ellipsis (hdots : dots.kind = .ellipsis) (ht : t.kind = .newline)
    (after : List Token) (issues : List SyntaxIssue) :
    ∃ body, bodyTypeComment? body = none ∧ ∀ m prev,
      (block (m + 1)).run ⟨⟨prev, dots :: t :: after⟩, issues⟩ = .ok body ⟨⟨t, after⟩, issues⟩ := by
  refine ⟨[{ stmt := .expr (.ellipsis dots.span), span := dots.span.cover dots.span }], rfl,
    fun m prev => ?_⟩
  -- neither a comment nor the end of the line is behind the colon, so the body is in the line
  rw [block, run_eat_bind, if_neg (by simp [Cursor.at?_cons, hdots]), run_eat_bind,
    if_neg (by simp [Cursor.at?_cons, hdots])]
  exact run_simpleLine (run_smallStatement_ellipsis hdots ht) ht

/-- **The line of a function that does nothing is read.** -/
theorem run_statementLine_function (w : sig.Tokens) (hd : d.kind = .keyword .Def)
    (hn : n.kind = .name) (hcolon : colon.kind = .colon) (hdots : dots.kind = .ellipsis)
    (ht : t.kind = .newline) (after : List Token) (issues : List SyntaxIssue) :
    ∃ header body, sig.HeaderOf n.text header ∧ ∀ prev m, (statementLine (m + 6)).run
      ⟨⟨prev, d :: n :: w.before (colon :: dots :: t :: after)⟩, issues⟩ =
        .ok [{ stmt := .functionDef header body, span := d.span.cover t.span }]
          ⟨⟨t, after⟩, issues⟩ := by
  obtain ⟨header, hof, hheader⟩ := run_functionHeader w hd hn hcolon
    (show dots.kind ≠ .comment by rw [hdots]; decide) (t :: after) issues
  obtain ⟨body, hcomment, hbody⟩ := run_block_ellipsis hdots ht after issues
  refine ⟨{ header with typeComment := none }, body,
    ⟨hof.name, hof.isAsync, hof.decorators, hof.params, hof.returns, rfl⟩, fun prev m => ?_⟩
  -- neither the header nor the body has a comment that would type the parameters again
  have hnone : (header.typeComment <|> bodyTypeComment? body) = none := by
    rw [hof.typeComment, hcomment]
    rfl
  have hcompound : (compound (m + 5)).run
      ⟨⟨prev, d :: n :: w.before (colon :: dots :: t :: after)⟩, issues⟩ =
        .ok (.functionDef { header with typeComment := none } body) ⟨⟨t, after⟩, issues⟩ := by
    rw [compound, run_bind_of_ok (show cursor.run _ = .ok _ _ from rfl), Cursor.kind_cons, hd]
    dsimp only
    rw [function, run_bind_of_ok (hheader prev), run_bind_of_ok (hbody (m + 2) colon), hnone]
    rfl
  have hplaced := run_placed (run_orReport_of_ok hcompound skipLine)
  rw [statementLine, run_bind_of_ok (show cursor.run _ = .ok _ _ from rfl),
    if_pos (by simp [Cursor.at?_cons, hd]), run_bind_of_ok hplaced]
  rfl

end StmtReader

/-! ### Signatures -/

namespace SignatureText

variable {sig : SignatureText} {name : String}

/-- **The source text of a function with a signature is read as that function.** -/
theorem parse_source (hname : isPlainName name = true) (h : sig.WellFormed) :
    ∃ header body span, Suite.parse (sig.source name) =
        ⟨[{ stmt := .functionDef header body, span := span }],
          ⟨0, Text.byteLength (sig.source name).toList⟩, []⟩ ∧
      sig.HeaderOf name header := by
  obtain ⟨d, n, colon, dots, newline, eof, w, htokens, hd, hn, htext, hcolon, hdots, hnewline, heof⟩ :=
    tokenize_source hname h
  have hcontent : d.kind.isContent = true := by
    rw [hd]
    rfl
  obtain ⟨header, body, hof, hline⟩ :=
    StmtReader.run_statementLine_function w hd hn hcolon hdots hnewline [eof] []
  rw [htext] at hof
  exact ⟨header, body, _, Suite.parse_of_statementLine htokens hcontent heof hline, hof⟩

end SignatureText

/-! ### Declarations -/

/-- The first function of a body is bound to its name. -/
theorem BodyState.bindFunction_of_scope_eq_empty {s : BodyState} (hs : s.scope = .empty)
    (decl : FunctionDecl) :
    s.bindFunction decl =
      { s with scope := Roster.bind .empty decl.name (.function { decls := [decl] }) } := by
  unfold BodyState.bindFunction BodyState.bind
  rw [hs]
  rfl

/-- Outside classes a function without decorators is declared by its header. -/
theorem declareFunction_of_decorators_eq_nil {ctx : BodyContext} {header : FunctionHeader}
    (hclass : ctx.inClass = false) (h : header.decorators = []) (body : List (Placed Stmt))
    (s : BodyState) :
    declareFunction ctx header body s =
      s.bindFunction (s.functionDecl ctx header (bodyDocstring? body)) := by
  unfold declareFunction
  rw [h, hclass]
  cases header.params <;> rfl

namespace SignatureText

variable {sig : SignatureText} {name : String}

/-- A header with the signature declares a function with the signature. -/
theorem HeaderOf.declOf {header : FunctionHeader} (h : sig.HeaderOf name header)
    (ctx : BodyContext) (s : BodyState) (docstring : Option String) :
    sig.DeclOf name (s.functionDecl ctx header docstring) := by
  rw [BodyState.functionDecl, h.typeComment]
  refine ⟨h.name, ?_, ?_⟩
  · rw [← h.params, List.map_map]
    refine List.map_congr_left fun p _ => ?_
    simp [ParamDecl.shape, Param.shape]
  · rw [← h.returns]
    exact Option.isSome_map

/-- **The source text of a function with a signature declares that function**, and nothing is
    reported. -/
theorem parse_table (hname : isPlainName name = true) (h : sig.WellFormed) (module : String)
    (isPackage : Bool) :
    ∃ decl, sig.DeclOf name decl ∧
      (ModuleTable.parse (sig.source name) module isPackage).scope =
        Roster.bind .empty name (.function { decls := [decl] }) ∧
      (ModuleTable.parse (sig.source name) module isPackage).diagnostics = [] := by
  obtain ⟨header, body, span, hparse, hof⟩ := parse_source hname h
  let ctx : BodyContext :=
    { source := (sig.source name).toList, package := packageOf module isPackage }
  let decl := BodyState.functionDecl ctx {} header (bodyDocstring? body)
  have hdecl : sig.DeclOf name decl := hof.declOf ctx {} (bodyDocstring? body)
  have hdeclare : declareBody ctx [{ stmt := .functionDef header body, span := span }] {} =
      { scope := Roster.bind .empty name (.function { decls := [decl] }) } := by
    rw [declareBody, declareBody, declarePlaced, declareStmt,
      declareFunction_of_decorators_eq_nil rfl hof.decorators,
      BodyState.bindFunction_of_scope_eq_empty rfl, hdecl.name]
  refine ⟨decl, hdecl, ?_, ?_⟩
  · rw [ModuleTable.parse, hparse]
    exact congrArg BodyState.scope hdeclare
  · rw [ModuleTable.parse, hparse]
    exact congrArg BodyState.diagnostics hdeclare

/-- A signature's text is the declaration of a function with the signature. -/
theorem parseSignature?_text (hname : isPlainName name = true) (h : sig.WellFormed) :
    ∃ decl, parseSignature? name sig.text = some decl ∧ sig.DeclOf name decl := by
  obtain ⟨decl, hdecl, hscope, hdiagnostics⟩ := parse_table hname h "__signature__" false
  refine ⟨decl, ?_, hdecl⟩
  unfold parseSignature?
  dsimp only
  rw [← source, hscope, Roster.get?_bind]
  simp [ModuleTable.hasSyntaxErrors, hdiagnostics]

/-! ### Recovering a signature -/

/-- **A function's parameters are recovered from the text of its signature.**  The source text that
    is made of the signature is one function without issues, whose parameters are those of the
    signature; and a snapshot's function with this text is declared with them. -/
theorem recovered (hname : isPlainName name = true) (h : sig.WellFormed) :
    (∃ header body span, Suite.parse (sig.source name) =
        ⟨[{ stmt := .functionDef header body, span := span }],
          ⟨0, Text.byteLength (sig.source name).toList⟩, []⟩ ∧ sig.HeaderOf name header) ∧
      ∃ decl, parseSignature? name sig.text = some decl ∧ sig.DeclOf name decl ∧
        ∀ docstring, SnapshotMember.functionGroup name docstring (some sig.text) =
          ⟨[], some { decl with line := 0, docstring := docstring }⟩ := by
  obtain ⟨decl, hparse, hdecl⟩ := parseSignature?_text hname h
  refine ⟨parse_source hname h, decl, hparse, hdecl, fun docstring => ?_⟩
  rw [SnapshotMember.functionGroup, Option.bind_some, hparse, Option.getD_some]

/-- A signature with a parameter of almost every kind. -/
def mixed : SignatureText where
  positionalOnly := [{ name := "a" }]
  positional := [{ name := "b", hint := some "list[int]", default := some "[1, 2]" }]
  keywordOnly := [{ name := "c", default := some "None" }]
  keywords := some { name := "rest", hint := some "object" }
  returns := some "dict[str, int]"

/-- A signature with all kinds of parameters is recovered. -/
theorem recovered_mixed :
    mixed.text = "(a, /, b: list[int] = [1, 2], *, c=None, **rest: object) -> dict[str, int]" ∧
      mixed.params = [⟨"a", .positionalOnly, false, false⟩, ⟨"b", .positionalOrKeyword, true, true⟩,
        ⟨"c", .keywordOnly, false, true⟩, ⟨"rest", .varKeyword, true, false⟩] ∧
      (∃ header body span, Suite.parse (mixed.source "f") =
        ⟨[{ stmt := .functionDef header body, span := span }],
          ⟨0, Text.byteLength (mixed.source "f").toList⟩, []⟩ ∧ mixed.HeaderOf "f" header) ∧
      ∃ decl, parseSignature? "f" mixed.text = some decl ∧ mixed.DeclOf "f" decl ∧
        ∀ docstring, SnapshotMember.functionGroup "f" docstring (some mixed.text) =
          ⟨[], some { decl with line := 0, docstring := docstring }⟩ :=
  ⟨rfl, rfl, recovered (by decide) (by decide +kernel)⟩

end SignatureText

end PackageDoc
