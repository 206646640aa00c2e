import PackageDoc.Proofs.Progress.Rounds
import PackageDoc.Proofs.Skipping.Values

namespace PackageDoc

/-!
# Lambdas as defaults

Where every default is an expression of the modelled language or a lambda that is read whole, the
parameters that are read are those that were written.

* `Expr.ReadsAs` — tokens that are read as one expression, in front of whatever ends it;
* `WrittenParam` — a parameter with its annotation and its default, as it is written;
* `StmtReader.run_param` and `StmtReader.run_paramList` — one parameter and a list of them;
* `LambdaExpr.covered_iff` — a lambda is read whole exactly where no token outside brackets ends an
  expression in it, and then a function with such defaults has the parameters that were written.
-/

variable {stops : List TokenKind} {ts : List Token} {t : Token}

/-- The last of two lists of tokens is that of the second, if it has one. -/
theorem getLastD_append (ts us : List Token) (prev : Token) :
    (ts ++ us).getLastD prev = us.getLastD (ts.getLastD prev) := by
  rw [List.getLastD_eq_getLast?, List.getLastD_eq_getLast?, List.getLastD_eq_getLast?,
    List.getLast?_append, Option.getD_or]

/-! ### Tokens read as one expression -/

namespace Expr

/-- In front of what ends an expression the tokens are read as this one. -/
def ReadsAs (stops : List TokenKind) (ts : List Token) (e : Expr) : Prop :=
  ∀ prev t after, endsAt stops t.kind = true →
    readUntil stops ⟨prev, ts ++ t :: after⟩ = (e, ⟨ts.getLastD prev, t :: after⟩)

/-- What ends an expression does not go on with a union. -/
theorem not_goesOnUnion_of_endsAt (hstops : stops ⊆ stopKinds) (h : endsAt stops t.kind = true) :
    ¬ t.kind.GoesOnUnion := by
  intro hgo
  have hfree : endsAt stopKinds t.kind = false := by
    rcases hgo with hgo | hpipe
    · simp only [TokenKind.GoesOn, List.mem_cons, List.not_mem_nil, or_false] at hgo
      rcases hgo with hkind | hkind | hkind | hkind <;> rw [hkind] <;> decide
    · rw [hpipe]
      decide
  rw [endsAt_mono hstops hfree] at h
  exact Bool.false_ne_true h

/-- Expressions of the modelled language are read back. -/
theorem Parses.readsAs {e : Expr} (h : Parses (.read e) ts) (hstops : stops ⊆ stopKinds) :
    ReadsAs stops ts e := by
  intro prev t after hend
  let c : Cursor := ⟨prev, ts ++ t :: after⟩
  have hlevels : 5 * ts.length + 3 ≤ depthBound c := by
    simp only [depthBound, c, List.length_append, List.length_cons]
    omega
  obtain ⟨last, hread⟩ := h.isRead prev t after _ (not_goesOnUnion_of_endsAt hstops hend) hlevels
  -- what is read last is the last of the tokens that are passed
  obtain ⟨passed, hrest, -, hprev⟩ := (readersStay _).read _ _ _ hread
  obtain rfl : ts = passed := List.append_cancel_right hrest
  unfold readUntil
  rw [hread]
  show (if endsAt stops t.kind = true then _ else _) = _
  rw [if_pos hend]
  exact congrArg (fun last => (e, Cursor.mk last (t :: after))) hprev

/-- A lambda that is covered is read as one expression that is not modelled. -/
theorem readsAs_lambda (l : LambdaExpr) (hstops : stops ⊆ stopKinds)
    (hwhole : Whole stops l.tokens) : ReadsAs stops l.tokens (.unmodelled l.span) := by
  intro prev t after hend
  rw [(l.readUntil_iff hstops (.inr hend)).mpr hwhole, List.getLastD_eq_getLast?, l.getLast?_tokens]
  rfl

end Expr

/-! ### Parameters as they are written -/

/-- An annotation or a default: a mark, and the tokens of an expression behind it. -/
structure WrittenValue where
  mark : Token
  tokens : List Token
  value : Expr

/-- The tokens of an annotation or a default, if there is one. -/
def WrittenValue.tokensOf : Option WrittenValue → List Token
  | none => []
  | some w => w.mark :: w.tokens

/-- A parameter with its annotation and its default. -/
structure WrittenParam where
  name : Token
  hint : Option WrittenValue
  default : Option WrittenValue

namespace WrittenParam

/-- The tokens of a parameter. -/
def tokens (w : WrittenParam) : List Token :=
  w.name :: (WrittenValue.tokensOf w.hint ++ WrittenValue.tokensOf w.default)

/-- The parameter that was written. -/
def param (w : WrittenParam) (kind : ParamKind) : Param :=
  ⟨⟨w.name.text, w.name.span⟩, kind, w.hint.map (·.value), w.default.map (·.value)⟩

/-- The parameter has a name, an annotation behind a colon and a default behind an `=`, each of
    which is read as it was written. -/
structure Reads (w : WrittenParam) : Prop where
  name : w.name.kind = .name
  hint : ∀ v ∈ w.hint,
    v.mark.kind = .colon ∧ Expr.ReadsAs [.comma, .rparen, .equals] v.tokens v.value
  default : ∀ v ∈ w.default, v.mark.kind = .equals ∧ Expr.ReadsAs [.comma, .rparen] v.tokens v.value

end WrittenParam

/-- Parameters separated by commas; the last may have a comma too. -/
inductive ParamsWritten : List WrittenParam → List Token → Prop
  | nil : ParamsWritten [] []
  | last (w : WrittenParam) : ParamsWritten [w] w.tokens
  | cons (w : WrittenParam) {ws : List WrittenParam} {c : Token} {ts : List Token}
    (comma : c.kind = .comma) (others : ParamsWritten ws ts) :
    ParamsWritten (w :: ws) (w.tokens ++ c :: ts)

/-- There are no more parameters than tokens of them. -/
theorem ParamsWritten.length_le {ws : List WrittenParam} (h : ParamsWritten ws ts) :
    ws.length ≤ ts.length := by
  induction h with
  | nil => exact le_rfl
  | last w => exact Nat.succ_le_succ (Nat.zero_le _)
  | cons w _ _ ih =>
    simp only [List.length_cons, List.length_append, WrittenParam.tokens]
    omega

/-! ### Reading parameters -/

namespace StmtReader

variable {prev : Token} {after : List Token} {issues : List SyntaxIssue} {kind : TokenKind}

/-- Read a mark and the expression behind it, if the mark comes next. -/
def written (kind : TokenKind) (stops : List TokenKind) : StmtReader (Option Expr) := do
  if ← eat kind then some <$> exprUntil stops else pure none

/-- An annotation or a default is read if its mark stands there, and otherwise none is. -/
theorem run_written (w : Option WrittenValue)
    (hw : ∀ v ∈ w, v.mark.kind = kind ∧ Expr.ReadsAs stops v.tokens v.value) (ht : t.kind ≠ kind)
    (hend : Expr.endsAt stops t.kind = true) :
    (written kind stops).run ⟨⟨prev, WrittenValue.tokensOf w ++ t :: after⟩, issues⟩ =
      .ok (w.map (·.value)) ⟨⟨(WrittenValue.tokensOf w).getLastD prev, t :: after⟩, issues⟩ := by
  unfold written
  rw [run_eat_bind]
  cases w with
  | none =>
    rw [if_neg (by simp [WrittenValue.tokensOf, Cursor.at?_cons, ht])]
    rfl
  | some v =>
    obtain ⟨hmark, hreads⟩ := hw v rfl
    have hread := hreads v.mark t after hend
    rw [if_pos (by simp [WrittenValue.tokensOf, Cursor.at?_cons, hmark])]
    show EStateM.Result.ok (some (Expr.readUntil stops ⟨v.mark, v.tokens ++ t :: after⟩).1)
      (StmtState.mk (Expr.readUntil stops ⟨v.mark, v.tokens ++ t :: after⟩).2 issues) = _
    rw [hread]
    cases htokens : v.tokens with
    | nil => simp [WrittenValue.tokensOf, htokens]
    | cons u us => rw [WrittenValue.tokensOf, htokens]; rfl

/-- What follows it goes on from either way. -/
theorem written_bind {β : Type} (kind : TokenKind) (stops : List TokenKind)
    (f : Option Expr → StmtReader β) :
    written kind stops >>= f = (do
      if ← eat kind then some <$> exprUntil stops >>= f else pure none >>= f) := by
  unfold written
  rw [bind_assoc]
  apply congrArg (eat kind >>= ·)
  funext found
  cases found <;> rfl

/-- A parameter is its name, its annotation and its default. -/
theorem param_eq (kind : ParamKind) :
    param kind = do
      let name ← ident
      let hint ← written .colon [.comma, .rparen, .equals]
      let default ← written .equals [.comma, .rparen]
      return ⟨name, kind, hint, default⟩ := by
  simp only [param, written_bind]

/-- An expected token is read. -/
theorem run_expect_cons (h : t.kind = kind) :
    (expect kind).run ⟨⟨prev, t :: after⟩, issues⟩ = .ok t ⟨⟨t, after⟩, issues⟩ := by
  have hat : (⟨prev, t :: after⟩ : Cursor).at? kind = true := by simp [Cursor.at?_cons, h]
  change (if (⟨prev, t :: after⟩ : Cursor).at? kind then advance
    else do fail (.expected kind (← peek).kind) : StmtReader Token).run ⟨⟨prev, t :: after⟩, issues⟩ = _
  rw [if_pos hat]
  rfl

/-- So is a name. -/
theorem run_ident_cons (h : t.kind = .name) :
    ident.run ⟨⟨prev, t :: after⟩, issues⟩ = .ok ⟨t.text, t.span⟩ ⟨⟨t, after⟩, issues⟩ := by
  rw [ident, run_bind_of_ok (run_expect_cons h)]
  rfl

/-- **A parameter is read as it was written.** -/
theorem run_param {w : WrittenParam} (hw : w.Reads) (kind : ParamKind)
    (ht : t.kind = .comma ∨ t.kind = .rparen) :
    (param kind).run ⟨⟨prev, w.tokens ++ t :: after⟩, issues⟩ =
      .ok (w.param kind) ⟨⟨w.tokens.getLastD prev, t :: after⟩, issues⟩ := by
  have hend : t.kind ≠ .equals ∧ Expr.endsAt [.comma, .rparen] t.kind = true := by
    rcases ht with hkind | hkind <;> rw [hkind] <;> decide
  -- behind the annotation stands the `=` of the default, or what ends the parameter
  obtain ⟨u, us, hu, hhint, hhintEnd⟩ : ∃ u us,
      WrittenValue.tokensOf w.default ++ t :: after = u :: us ∧
        u.kind ≠ .colon ∧ Expr.endsAt [.comma, .rparen, .equals] u.kind = true := by
    cases hdefault : w.default with
    | none =>
      refine ⟨t, after, rfl, ?_⟩
      rcases ht with hkind | hkind <;> rw [hkind] <;> decide
    | some v =>
      refine ⟨v.mark, v.tokens ++ t :: after, rfl, ?_⟩
      rw [(hw.default v hdefault).1]
      decide
  have hlast : w.tokens.getLastD prev = (WrittenValue.tokensOf w.default).getLastD
      ((WrittenValue.tokensOf w.hint).getLastD w.name) := by
    rw [WrittenParam.tokens, List.getLastD_cons, getLastD_append]
  rw [WrittenParam.tokens, List.cons_append, List.append_assoc, param_eq,
    run_bind_of_ok (run_ident_cons hw.name), hu,
    run_bind_of_ok (run_written w.hint hw.hint hhint hhintEnd), ← hu,
    run_bind_of_ok (run_written w.default hw.default hend.1 hend.2), ← hlast]
  rfl

/-- One parameter of a list, and the list goes on behind the comma. -/
theorem run_paramList_cons {w : WrittenParam} (hw : w.Reads) (n : Nat) (kind : ParamKind)
    (params : List Param) (ht : t.kind = .comma ∨ t.kind = .rparen) :
    (paramList (n + 1) kind params).run ⟨⟨prev, w.tokens ++ t :: after⟩, issues⟩ =
      if t.kind = .comma then
        (paramList n kind (params ++ [w.param kind])).run ⟨⟨t, after⟩, issues⟩
      else .ok (params ++ [w.param kind]) ⟨⟨w.tokens.getLastD prev, t :: after⟩, issues⟩ := by
  have hname : w.name.kind = .name := hw.name
  have hround : (paramList (n + 1) kind params).run ⟨⟨prev, w.tokens ++ t :: after⟩, issues⟩ =
      (param kind >>= fun p => eat .comma >>= fun found =>
        if found then paramList n kind (params ++ [p]) else pure (params ++ [p])).run
        ⟨⟨prev, w.tokens ++ t :: after⟩, issues⟩ := by
    rw [paramList, run_bind_of_ok (show peek.run _ = .ok w.name _ from rfl), hname]
  rw [hround, run_bind_of_ok (run_param hw kind ht), run_eat_bind]
  by_cases hcomma : t.kind = .comma
  · rw [if_pos hcomma, if_pos (by simp [Cursor.at?_cons, hcomma])]
    rfl
  · rw [if_neg hcomma, if_neg (by simp [Cursor.at?_cons, hcomma])]
    rfl

/-- **The parameters that are read are those that were written.** -/
theorem run_paramList {ws : List WrittenParam} (h : ParamsWritten ws ts)
    (hws : ∀ w ∈ ws, w.Reads) (ht : t.kind = .rparen) {n : Nat} (hn : ws.length < n)
    (kind : ParamKind) (params : List Param) :
    (paramList n kind params).run ⟨⟨prev, ts ++ t :: after⟩, issues⟩ =
      .ok (params ++ ws.map (·.param kind)) ⟨⟨ts.getLastD prev, t :: after⟩, issues⟩ := by
  induction h generalizing n prev params with
  | nil =>
    obtain ⟨m, rfl⟩ := Nat.exists_eq_succ_of_ne_zero (Nat.ne_zero_of_lt hn)
    rw [paramList, run_bind_of_ok (show peek.run _ = .ok t _ from rfl), ht]
    exact congrArg (EStateM.Result.ok · _) (List.append_nil params).symm
  | last w =>
    obtain ⟨m, rfl⟩ := Nat.exists_eq_succ_of_ne_zero (Nat.ne_zero_of_lt hn)
    rw [run_paramList_cons (hws w List.mem_cons_self) m kind params (.inr ht), if_neg (by simp [ht])]
    rfl
  | @cons w ws c ts hcomma hothers ih =>
    obtain ⟨hw, hmore⟩ := List.forall_mem_cons.mp hws
    obtain ⟨m, rfl⟩ := Nat.exists_eq_succ_of_ne_zero (Nat.ne_zero_of_lt hn)
    rw [List.append_assoc, List.cons_append, run_paramList_cons hw m kind params (.inl hcomma),
      if_pos hcomma, ih hmore (Nat.lt_of_succ_lt_succ hn), List.map_cons, List.append_assoc,
      List.singleton_append, getLastD_append, List.getLastD_cons]

/-- A function has the parameters that were written. -/
theorem params_functionHeader {ws : List WrittenParam} (h : ParamsWritten ws ts)
    (hws : ∀ w ∈ ws, w.Reads) {d name o c : Token} (hd : d.kind = .keyword .Def)
    (hname : name.kind = .name) (ho : o.kind = .lparen) (hc : c.kind = .rparen)
    (decorators : List Expr) (isAsync : Bool) {header : FunctionHeader} {s : StmtState}
    (hrun : (functionHeader decorators isAsync).run
      ⟨⟨prev, d :: name :: o :: (ts ++ c :: after)⟩, issues⟩ = .ok header s) :
    header.params = ws.map (·.param .positionalOrKeyword) := by
  have hlength : ws.length < (ts ++ c :: after).length + 1 := by
    have hle := ParamsWritten.length_le h
    rw [List.length_append]
    omega
  have htypes : skipTypeParams.run ⟨⟨name, o :: (ts ++ c :: after)⟩, issues⟩ =
      .ok () ⟨⟨name, o :: (ts ++ c :: after)⟩, issues⟩ := by
    rw [skipTypeParams, run_bind_of_ok (show (at? .lbracket).run _ = .ok (o.kind == .lbracket) _ from rfl),
      ho]
    rfl
  rw [functionHeader, run_bind_of_ok (run_expect_cons hd), run_bind_of_ok (run_ident_cons hname),
    run_bind_of_ok htypes, run_bind_of_ok (run_expect_cons ho),
    run_bind_of_ok (show rounds.run _ = .ok ((ts ++ c :: after).length + 1) _ from rfl),
    run_bind_of_ok (run_paramList h hws hc hlength .positionalOrKeyword []),
    run_bind_of_ok (run_expect_cons hc)] at hrun
  dsimp only at hrun
  -- what follows the parameters changes nothing about them
  rw [run_eat_bind] at hrun
  split at hrun
  all_goals
    obtain ⟨returns, s₁, -, hrun⟩ := run_bind_ok hrun
    obtain ⟨colon, s₂, -, hrun⟩ := run_bind_ok hrun
    obtain ⟨next, s₃, -, hrun⟩ := run_bind_ok hrun
    obtain ⟨rfl, -⟩ := run_pure_ok hrun
    exact List.nil_append _

end StmtReader

/-! ### Lambdas in every place -/

/-- The annotation is an expression of the modelled language, the default such an expression or a
    lambda without a comma outside brackets. -/
structure WrittenParam.WellWritten (w : WrittenParam) : Prop where
  name : w.name.kind = .name
  hint : ∀ v ∈ w.hint, v.mark.kind = .colon ∧ Expr.Parses (.read v.value) v.tokens
  default : ∀ v ∈ w.default, v.mark.kind = .equals ∧ (Expr.Parses (.read v.value) v.tokens ∨
    ∃ l : LambdaExpr, v.tokens = l.tokens ∧ v.value = .unmodelled l.span ∧
      Whole [.comma, .rparen] l.tokens)

/-- A parameter that is written well is read as it is written. -/
theorem WrittenParam.WellWritten.reads {w : WrittenParam} (h : w.WellWritten) : w.Reads where
  name := h.name
  hint := fun v hv => ⟨(h.hint v hv).1, (h.hint v hv).2.readsAs (by decide)⟩
  default := by
    intro v hv
    obtain ⟨hmark, hparses | ⟨l, htokens, hvalue, hwhole⟩⟩ := h.default v hv
    · exact ⟨hmark, hparses.readsAs (by decide)⟩
    · rw [htokens, hvalue]
      exact ⟨hmark, Expr.readsAs_lambda l (by decide) hwhole⟩

namespace LambdaExpr

/-- **A lambda is covered whole exactly where no token outside brackets ends the expression in it.**
    With `stops` to end it, an expression is the lambda from its keyword to the end of its body
    exactly then; an assigned value is this one expression exactly when no comma cuts it either, and
    stands where the lambda does in any case.  A function whose defaults are such lambdas has the
    parameters that were written. -/
theorem covered_iff {source : String} (l : LambdaExpr) {prev t : Token} {after : List Token}
    (hc : Cursor.Amid (tokenize source).1 ⟨prev, l.tokens ++ t :: after⟩) :
    (∀ stops ⊆ Expr.stopKinds, t.kind.isCloseBracket = true ∨ Expr.endsAt stops t.kind = true →
      (Expr.readUntil stops ⟨prev, l.tokens ++ t :: after⟩ =
        (.unmodelled l.span, ⟨l.last, t :: after⟩) ↔ Whole stops l.tokens)) ∧
    (∀ stops ⊆ Expr.stopKinds, .comma ∉ stops →
      t.kind.isCloseBracket = true ∨ Expr.endsAt stops t.kind = true →
      (Expr.readTupleUntil stops ⟨prev, l.tokens ++ t :: after⟩ =
        (.unmodelled l.span, ⟨l.last, t :: after⟩) ↔ Whole (.comma :: stops) l.tokens)) ∧
    (∀ stops ⊆ [.equals], t.kind.isCloseBracket = true ∨ Expr.endsAt stops t.kind = true →
      ((Expr.readTupleUntil stops ⟨prev, l.tokens ++ t :: after⟩).1.span = l.span ∧
        (Expr.readTupleUntil stops ⟨prev, l.tokens ++ t :: after⟩).2 = ⟨l.last, t :: after⟩ ↔
          Whole stops l.tokens)) ∧
    ∀ ws ts, ParamsWritten ws ts → (∀ w ∈ ws, w.WellWritten) → ∀ c, c.kind = .rparen →
      (∀ n kind params prev after issues, ws.length < n →
        (StmtReader.paramList n kind params).run ⟨⟨prev, ts ++ c :: after⟩, issues⟩ =
          .ok (params ++ ws.map (·.param kind)) ⟨⟨ts.getLastD prev, c :: after⟩, issues⟩) ∧
      ∀ d name o prev after issues decorators isAsync header s, d.kind = .keyword .Def →
        name.kind = .name → o.kind = .lparen →
        (StmtReader.functionHeader decorators isAsync).run
          ⟨⟨prev, d :: name :: o :: (ts ++ c :: after)⟩, issues⟩ = .ok header s →
        header.params = ws.map (·.param .positionalOrKeyword) := by
  refine ⟨fun stops hstops hafter => l.readUntil_iff hstops hafter,
    fun stops hstops hcomma hafter => l.readTupleUntil_eq_iff hstops hcomma hafter, ?_, ?_⟩
  · intro stops hstops hafter
    have htokens : l.tokens ⊆ (tokenize source).1 := fun u hu =>
      hc.suffix.subset (List.mem_append_left _ hu)
    obtain ⟨_, _, -, -, htiles⟩ := exists_tiles_tokenize source
    have hpairs := htiles.apart.sublist hc.suffix.sublist
    have hbetween := l.between (List.pairwise_append.mp hpairs).1
      fun u hu => (htiles.bounds (htokens hu)).2.1
    have hequals : [TokenKind.equals] ⊆ Expr.stopKinds := by decide
    have hfree {kind : TokenKind} (hkind : kind ∉ [TokenKind.equals]) : kind ∉ stops :=
      fun hmem => hkind (hstops hmem)
    apply l.readTupleUntil_iff (fun _ hmem => hequals (hstops hmem)) (hfree (by decide))
      (hfree (by decide)) hafter hc.beforeEnd hbetween
  · intro ws ts hwritten hws c hclose
    have hreads : ∀ w ∈ ws, w.Reads := fun w hw => (hws w hw).reads
    constructor
    · intro n kind params prev after issues hn
      exact StmtReader.run_paramList hwritten hreads hclose hn kind params
    · intro d name o prev after issues decorators isAsync header s hd hname ho hrun
      exact StmtReader.params_functionHeader hwritten hreads hd hname ho hclose decorators isAsync hrun

/-- `lambda a: a` behind `def f(x=`. -/
def oneParam : LambdaExpr where
  keyword := ⟨.keyword .Lambda, ⟨8, 14⟩, "lambda"⟩
  params := [⟨.name, ⟨15, 16⟩, "a"⟩]
  colon := ⟨.colon, ⟨16, 17⟩, ":"⟩
  body := [⟨.name, ⟨18, 19⟩, "a"⟩]
  isKeyword := rfl
  isParams := .lastParam (.bare (by decide))
  isColon := rfl
  isBody := .token rfl

/-- No stop stands in a lambda with one parameter. -/
theorem whole_oneParam : Whole [.comma, .rparen] oneParam.tokens := by
  unfold Whole
  decide

/-- The parameter `x=lambda a: a`. -/
def defaulted : WrittenParam :=
  ⟨⟨.name, ⟨6, 7⟩, "x"⟩, none,
    some ⟨⟨.equals, ⟨7, 8⟩, "="⟩, oneParam.tokens, .unmodelled ⟨8, 19⟩⟩⟩

/-- The parameter with that lambda for a default is written well. -/
theorem wellWritten_defaulted : defaulted.WellWritten where
  name := rfl
  hint := fun v hv => nomatch hv
  default := by
    intro v hv
    obtain rfl := Option.some.inj hv
    exact ⟨rfl, .inr ⟨oneParam, rfl, rfl, whole_oneParam⟩⟩

/-- The default is read to its end, and so are the parameters around it. -/
theorem covered_iff_oneParam :
    let tokens := (tokenize "def f(x=lambda a: a): pass\n").1
    let close : Token := ⟨.rparen, ⟨19, 20⟩, ")"⟩
    let c : Cursor := ⟨⟨.equals, ⟨7, 8⟩, "="⟩, oneParam.tokens ++ close :: tokens.drop 10⟩
    c.Amid tokens ∧
      Expr.readUntil [.comma, .rparen] c =
        (.unmodelled ⟨8, 19⟩, ⟨⟨.name, ⟨18, 19⟩, "a"⟩, close :: tokens.drop 10⟩) ∧
      (StmtReader.paramList 2 .positionalOrKeyword []).run
          ⟨⟨⟨.lparen, ⟨5, 6⟩, "("⟩, defaulted.tokens ++ close :: tokens.drop 10⟩, []⟩ =
        .ok [defaulted.param .positionalOrKeyword]
          ⟨⟨⟨.name, ⟨18, 19⟩, "a"⟩, close :: tokens.drop 10⟩, []⟩ := by
  intro tokens close c
  have hsuffix : c.rest <:+ tokens := by decide +kernel
  have hbefore : ∃ t ∈ c.rest, t.kind = .eof := by decide +kernel
  have hamid : c.Amid tokens := ⟨hsuffix, hbefore⟩
  obtain ⟨hread, -, -, hparams⟩ := covered_iff oneParam hamid
  refine ⟨hamid, (hread [.comma, .rparen] (by decide) (.inl rfl)).mpr whole_oneParam, ?_⟩
  obtain ⟨hlist, -⟩ := hparams [defaulted] defaulted.tokens (.last defaulted)
    (List.forall_mem_singleton.mpr wellWritten_defaulted) close rfl
  exact hlist 2 .positionalOrKeyword [] ⟨.lparen, ⟨5, 6⟩, "("⟩ (tokens.drop 10) [] (by decide)

/-- `lambda a, b: a` behind `def f(x=`. -/
def twoParams : LambdaExpr where
  keyword := ⟨.keyword .Lambda, ⟨8, 14⟩, "lambda"⟩
  params := [⟨.name, ⟨15, 16⟩, "a"⟩, ⟨.comma, ⟨16, 17⟩, ","⟩, ⟨.name, ⟨18, 19⟩, "b"⟩]
  colon := ⟨.colon, ⟨19, 20⟩, ":"⟩
  body := [⟨.name, ⟨21, 22⟩, "a"⟩]
  isKeyword := rfl
  isParams := .params (.bare (by decide) : Written .param [_]) rfl (.lastParam (.bare (by decide)))
  isColon := rfl
  isBody := .token rfl

/-- The names of the parameters of the first function in a text, and where their defaults stand. -/
def defaultsOf (source : String) : List (String × Option Span) :=
  match (Suite.parse source).body with
  | ⟨.functionDef header _, _, _, _⟩ :: _ =>
    header.params.map fun p => (p.name.name, p.default.map Expr.span)
  | _ => []

/-- The default `lambda a, b: a` of the only parameter is cut at its comma, and `b` becomes a
    parameter of the function. -/
theorem not_covered_twoParams :
    let tokens := (tokenize "def f(x=lambda a, b: a): pass\n").1
    tokens = tokens.take 5 ++ (twoParams.tokens ++ tokens.drop 11) ∧
      twoParams.span = ⟨8, 22⟩ ∧
      defaultsOf "def f(x=lambda a, b: a): pass\n" = [("x", some ⟨8, 16⟩), ("b", none)] := by
  decide +kernel

end LambdaExpr

end PackageDoc
