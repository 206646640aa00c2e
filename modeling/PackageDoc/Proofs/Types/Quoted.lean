import PackageDoc.Proofs.Annotation.Bracketed
import PackageDoc.Proofs.Types.Placed

namespace PackageDoc

/-!
# Quoted annotations

An annotation may be written in quotes, as a whole or as the argument of a subscription, and has the
same type.  In brackets this holds when no blank or mark at its ends is read differently there.

* `TypeEnv.Quotable` — a text that has a type and may be put in quotes;
* `TypeEnv.evaluate_eq_some_iff` — the type of a text is what its expression denotes;
* `Quotable.denotes_placed` and `Quotable.denotes_str` — the expression in other texts and in quotes;
* `TypeEnv.evaluate_subscription_congr` — subscriptions whose arguments denote the same;
* `TypeEnv.evaluate_quoted` — the result.
-/

/-- Is the expression a tuple? -/
def Expr.isTuple : Expr → Bool
  | tuple _ _ => true
  | _ => false

/-- What is no tuple is a single argument. -/
theorem Expr.typeArguments_of_isTuple {e : Expr} (h : e.isTuple = false) : e.typeArguments = [e] := by
  cases e with
  | tuple items span => cases h
  | _ => rfl

/-- An evaluation that returns does nothing else. -/
theorem Eval.eq_pure_of_returns {α : Type} {x : Eval α} {v : α} (h : Eval.Returns x v) :
    x = pure v :=
  ExceptT.ext h

namespace TypeEnv

/-- The text has the type, and it may be put in quotes: it has neither quotes nor backslashes nor ends
    of lines, and it is not in the alternate syntax. -/
structure Quotable (env : TypeEnv) (scope : Option ClassScope) (text : String) (type : TypeRef) :
    Prop where
  plain : ∀ c ∈ text.toList, isQuote c = false ∧ c ≠ '\\' ∧ isLineBreak c = false
  notAlternate : isAlternateSyntax (trimmed text) = false
  evaluated : env.evaluate scope text = some type
  noFailure : type.isFailure = false

/-- The name does not refer to `Literal`. -/
def NotLiteral (env : TypeEnv) (scope : Option ClassScope) (name : String) : Prop :=
  ∀ target, Eval.Returns (env.target scope name) target → target.isTyping "Literal" = false

/-- The only argument of the subscription is not written as a tuple, and denotes the type. -/
def DenotesArgument (env : TypeEnv) (scope : Option ClassScope) (path : List String)
    (argument : String) (type : TypeRef) : Prop :=
  ∃ b i span, Expr.parse? (subscription path argument) = some (.subscript b i span) ∧
    isAlternateSyntax (subscription path argument) = false ∧ b.dottedName? = some (dotted path) ∧
    i.typeArguments = [i] ∧ env.Denotes scope forwardDepth (subscription path argument) i type

variable {env : TypeEnv} {scope : Option ClassScope} {text : String} {e : Expr} {type : TypeRef}

/-! ### Texts and their expressions -/

/-- A text that is not in the alternate syntax has the type, if it is no failure, that its expression
    denotes. -/
theorem evaluate_eq_some_iff (halternate : isAlternateSyntax (trimmed text) = false)
    (hparse : Expr.parse? (trimmed text) = some e) (hok : type.isFailure = false) :
    env.evaluate scope text = some type ↔ env.Denotes scope forwardDepth (trimmed text) e type := by
  refine ⟨fun h => ?_, evaluate_of_denotes halternate hparse⟩
  have heval : env.evalText scope (forwardDepth + 1) text =
      env.evalExpr scope (trimmed text) (forwardRef (env.evalText scope forwardDepth)) e := by
    rw [evalText, evalTrimmed, if_neg (by simp [halternate]), hparse]
  have hyields : Eval.Yields (TypeRef.BuiltFrom fun _ => True)
      (env.evalText scope (forwardDepth + 1) text) :=
    yields_evalText trivial (yields_true_target env scope) _ text
  rw [heval] at hyields
  rw [evaluate, heval] at h
  obtain ⟨outcome, hrun, houtcome⟩ := Option.map_eq_some_iff.mp h
  cases outcome with
  | ok found =>
    obtain rfl : found = type := houtcome
    exact hrun
  | error reason =>
    -- the reason of a failure is another one than the syntax
    have hreason : reason ≠ .alternateSyntax := hyields _ hrun
    rw [← houtcome] at hok
    cases reason <;> first
      | exact absurd rfl hreason
      | cases hok

/-- A text that is not in the alternate syntax is an expression, if it has a type. -/
theorem exists_parse?_of_evaluate (halternate : isAlternateSyntax (trimmed text) = false)
    (h : env.evaluate scope text = some type) (hok : type.isFailure = false) :
    ∃ e, Expr.parse? (trimmed text) = some e := by
  cases hparse : Expr.parse? (trimmed text) with
  | some e => exact ⟨e, rfl⟩
  | none =>
    have hrun : (env.evalText scope (forwardDepth + 1) text).run = some (.error .unparseable) := by
      rw [evalText, evalTrimmed, if_neg (by simp [halternate]), hparse]
      rfl
    rw [evaluate, hrun] at h
    obtain rfl := Option.some.inj h
    cases hok

/-! ### Texts in quotes -/

namespace Quotable

variable (h : env.Quotable scope text type)
include h

/-- A text that can be quoted stands for itself in every quote. -/
theorem verbatim (q : Quotes) : q.Verbatim text.toList := by
  intro c hc
  obtain ⟨hquote, hslash, hbreak⟩ := h.plain c hc
  refine ⟨hslash, ?_, hbreak⟩
  rintro rfl
  rw [q.isMark] at hquote
  cases hquote

/-- It is an expression. -/
theorem exists_parse? : ∃ e, Expr.parse? (trimmed text) = some e :=
  exists_parse?_of_evaluate h.notAlternate h.evaluated h.noFailure

/-- The expression has no string, and it is inside the text. -/
theorem exists_parses (hparse : Expr.parse? (trimmed text) = some e) :
    ∃ ts, Expr.Parses (.read e) ts ∧
      ∀ t ∈ ts, t.kind ≠ .string ∧ t.span.stop ≤ Text.byteLength (trimmed text).toList := by
  refine Expr.exists_parses_of_isQuote (fun c hc => (h.plain c ?_).1) hparse
  obtain ⟨left, right, htext⟩ := Text.exists_trim text.toList
  rw [trimmed, String.toList_ofList] at hc
  rw [htext]
  exact List.mem_append_left _ (List.mem_append_right _ hc)

/-- The expression denotes the type at every depth, for no string stands in it. -/
theorem denotes (hparse : Expr.parse? (trimmed text) = some e) (depth : Nat) :
    env.Denotes scope depth (trimmed text) e type := by
  obtain ⟨ts, hparses, hts⟩ := h.exists_parses hparse
  rw [Denotes, evalExpr_forward hparses hts (forwardRef (env.evalText scope forwardDepth))]
  exact (evaluate_eq_some_iff h.notAlternate hparse h.noFailure).mp h.evaluated

/-- It does so in the middle of another text. -/
theorem denotes_placed (hparse : Expr.parse? (trimmed text) = some e) {outer : String}
    {before behind : List Char} (houter : outer.toList = before ++ ((trimmed text).toList ++ behind))
    (depth : Nat) : env.Denotes scope depth outer (e.shift (Text.byteLength before)) type := by
  obtain ⟨ts, hparses, hts⟩ := h.exists_parses hparse
  rw [Denotes, evalExpr_placed hparses hts houter (forwardRef (env.evalText scope depth))]
  exact h.denotes hparse depth

/-- A string denotes what its text denotes, one level deeper. -/
theorem denotes_str (depth : Nat) (outer : String) (span : Span) :
    env.Denotes scope (depth + 1) outer (.str text false false span) type := by
  obtain ⟨e, hparse⟩ := h.exists_parse?
  have hrun : Eval.Returns (env.evalText scope (depth + 1) text) type := by
    rw [evalText, evalTrimmed, if_neg (by simp [h.notAlternate]), hparse]
    exact h.denotes hparse depth
  rw [Denotes, evalExpr, if_neg (by simp), forwardRef, Eval.eq_pure_of_returns hrun]
  rfl

/-- A text in quotes has the type of the text. -/
theorem evaluate_quote (q : Quotes) : env.evaluate scope (q.quote text) = some type := by
  obtain ⟨span, hread, hno⟩ := parse?_quote q (h.verbatim q)
  rw [← q.trimmed_quote text] at hread hno
  exact evaluate_of_denotes hno hread (h.denotes_str 7 _ span)

/-- Quoted it denotes as an argument what it denotes alone. -/
theorem denotesArgument_quote (q : Quotes) {path : List String} (hpath : LeadingPath path) :
    env.DenotesArgument scope path (q.quote text) type := by
  obtain ⟨b, _, span, hread, hno, hb, inner, rfl⟩ :=
    exists_parse?_subscription hpath (readInBrackets_quote q (h.verbatim q) (argumentOffset path))
  exact ⟨b, _, span, hread, hno, hb, rfl, h.denotes_str 7 _ inner⟩

/-- So it does without quotes, if it is no tuple. -/
theorem denotesArgument (hends : PlainEnds text)
    (hsingle : ∀ e, Expr.parse? (trimmed text) = some e → e.isTuple = false)
    {path : List String} (hpath : LeadingPath path) :
    env.DenotesArgument scope path text type := by
  obtain ⟨e, hparse⟩ := h.exists_parse?
  have hexpr : IsExpression (trimmed text) :=
    hends.isExpression (fun c hc => (h.plain c hc).2.2) (by rw [hparse]; rfl)
  obtain ⟨⟨left, right, htext, hgap⟩, -⟩ := hends
  obtain ⟨b, _, span, hread, hno, hb, rfl⟩ := exists_parse?_subscription hpath
    (readInBrackets_of_plainEnds htext hgap hexpr hparse h.notAlternate (argumentOffset path))
  refine ⟨b, _, span, hread, hno, hb, ?_, ?_⟩
  · rw [Expr.shift, typeArguments_mapSpan, Expr.typeArguments_of_isTuple (hsingle e hparse),
      List.map_singleton]
  · -- the text of the subscription is that of the argument, with other text around it
    have hwhole : (subscription path text).toList =
        ((dotted path).toList ++ ['['] ++ left) ++ ((trimmed text).toList ++ (right ++ [']'])) := by
      rw [toList_subscription, htext]
      simp
    rw [argumentOffset, ← Text.byteLength_append]
    exact h.denotes_placed hparse hwhole forwardDepth

end Quotable

/-! ### Subscriptions -/

/-- Subscriptions of a name that is not `Literal` denote the same, if their only arguments do. -/
theorem denotes_subscript_congr {depth : Nat} {outer outer' name : String} {b b' i i' : Expr}
    {span span' : Span} {argument : TypeRef} (hb : b.dottedName? = some name)
    (hb' : b'.dottedName? = some name) (hi : i.typeArguments = [i]) (hi' : i'.typeArguments = [i'])
    (hargument : env.Denotes scope depth outer i argument)
    (hargument' : env.Denotes scope depth outer' i' argument)
    (hliteral : env.NotLiteral scope name) :
    env.Denotes scope depth outer (.subscript b i span) type ↔
      env.Denotes scope depth outer' (.subscript b' i' span') type := by
  -- what is denoted by all arguments and by the first is the same, as there is one
  have hall : ∀ {outer i}, env.Denotes scope depth outer i argument → i.typeArguments = [i] →
      (env.evalAll scope outer (forwardRef (env.evalText scope depth)) i.typeArguments =
        pure [argument]) ∧
      env.evalFirst scope outer (forwardRef (env.evalText scope depth)) i.typeArguments =
        pure argument := by
    intro outer i hargument hi
    rw [hi, evalAll, evalAll, evalFirst, Eval.eq_pure_of_returns hargument]
    exact ⟨rfl, rfl⟩
  rw [Denotes, Denotes, evalExpr_subscript, evalExpr_subscript, evalExpr_of_dottedName? hb,
    evalExpr_of_dottedName? hb', (hall hargument hi).1, (hall hargument hi).2,
    (hall hargument' hi').1, (hall hargument' hi').2]
  simp only [Eval.returns_bind_iff, Eval.returns_pure_iff]
  refine exists_congr fun base => and_congr_right ?_
  rintro ⟨target, htarget, rfl⟩
  simp [subscripted, hliteral target htarget]

/-- Subscriptions of a name that is not `Literal` have the same type, if their only arguments do. -/
theorem evaluate_subscription_congr {path : List String} {argument argument' : String}
    {whole : TypeRef} (hpath : LeadingPath path) (hliteral : env.NotLiteral scope (dotted path))
    (hwhole : whole.isFailure = false) (h : env.DenotesArgument scope path argument type)
    (h' : env.DenotesArgument scope path argument' type) :
    env.evaluate scope (subscription path argument) = some whole ↔
      env.evaluate scope (subscription path argument') = some whole := by
  obtain ⟨b, i, span, hread, hno, hb, hi, hargument⟩ := h
  obtain ⟨b', i', span', hread', hno', hb', hi', hargument'⟩ := h'
  rw [← trimmed_subscription hpath] at hread hno hread' hno'
  rw [evaluate_eq_some_iff hno hread hwhole, evaluate_eq_some_iff hno' hread' hwhole,
    trimmed_subscription hpath, trimmed_subscription hpath]
  exact denotes_subscript_congr hb hb' hi hi' hargument hargument' hliteral

/-- **Quoting an annotation does not change its type.**  A text without quotes, backslashes and ends
    of lines that is not in the alternate syntax and has a type has the same type in quotes.  As the
    only argument of a subscription of a name other than `Literal`, it may be written with quotes or
    without them, if its ends are plain. -/
theorem evaluate_quoted (env : TypeEnv) (scope : Option ClassScope) {text : String} {type : TypeRef}
    (h : env.Quotable scope text type) (q : Quotes) :
    env.evaluate scope (q.quote text) = some type ∧
      (PlainEnds text → (∀ e, Expr.parse? (trimmed text) = some e → e.isTuple = false) →
        ∀ path, LeadingPath path → env.NotLiteral scope (dotted path) →
          ∀ whole, whole.isFailure = false →
            (env.evaluate scope (subscription path text) = some whole ↔
              env.evaluate scope (subscription path (q.quote text)) = some whole)) := by
  refine ⟨h.evaluate_quote q, fun hends hsingle path hpath hliteral whole hwhole => ?_⟩
  exact evaluate_subscription_congr hpath hliteral hwhole (h.denotesArgument hends hsingle hpath)
    (h.denotesArgument_quote q hpath)

/-- A module with two classes whose names differ in a blank. -/
def blankInputs : List ModuleInput := [
  { name := "m"
    source := some (.parse
      "from typing import List\n\nclass C: ...\n\nclass \u00a0C: ...\n" "m" false) }]

/-- Single quotes. -/
def singleQuotes : Quotes where
  mark := '\''
  tripled := false
  isMark := rfl

/-- The list of a type. -/
def listOf (argument : TypeRef) : TypeRef :=
  .generic (.resolved ⟨"typing", "List", .library⟩) [argument]

/-- A class of the module. -/
def classOf (name : String) : TypeRef :=
  .resolved ⟨"m", name, .package⟩

/-- A name with another target is not that of literals. -/
theorem notLiteral_of_returns {name : String} {target : Target}
    (h : Eval.Returns (env.target scope name) target) (hno : target.isTyping "Literal" = false) :
    env.NotLiteral scope name := by
  intro other hother
  obtain rfl : target = other := by simpa using h.symm.trans hother
  exact hno

/-- The name of a list leads a subscription. -/
theorem leadingPath_list : LeadingPath ["List"] where
  ne_nil := List.cons_ne_nil _ _
  plain := by decide +kernel
  first := by
    have hfirst : (dotted ["List"]).toList.head? = some 'L' := by decide +kernel
    rw [hfirst]
    rintro c ⟨⟩
    decide

/-- A text without quotes, backslashes and line breaks can be quoted. -/
theorem quotable_of_all (hplain : text.toList.all (fun c =>
      !(isQuote c || c == '\\' || isLineBreak c)) = true)
    (halternate : isAlternateSyntax (trimmed text) = false)
    (htype : env.evaluate scope text = some type) (hok : type.isFailure = false) :
    env.Quotable scope text type := by
  refine ⟨fun c hc => ?_, halternate, htype, hok⟩
  have hc := List.all_eq_true.mp hplain c hc
  simpa [and_assoc] using hc

/-- Blanks inside the quotes make no difference. -/
theorem evaluate_quoted_spaced :
    ∃ env, (Analysis.linked "m" blankInputs {}).typeEnv? "m" = some env ∧
      env.evaluate none "' dict[str, C]\t'" =
        some (.generic (.resolved (Target.ofBuiltin "dict"))
          [.resolved (Target.ofBuiltin "str"), classOf "C"]) ∧
      env.evaluate none "List[' dict[str, C]\t']" =
        some (listOf (.generic (.resolved (Target.ofBuiltin "dict"))
          [.resolved (Target.ofBuiltin "str"), classOf "C"])) := by
  let text : String := " dict[str, C]\t"
  let type : TypeRef := .generic (.resolved (Target.ofBuiltin "dict"))
    [.resolved (Target.ofBuiltin "str"), classOf "C"]
  have hany : ((Analysis.linked "m" blankInputs {}).typeEnv? "m").any (fun env =>
      decide (env.evaluate none text = some type ∧
        env.evaluate none (subscription ["List"] text) = some (listOf type) ∧
        (env.target none "List").run = some (.ok ⟨"typing", "List", .library⟩))) = true := by
    decide +kernel
  obtain ⟨env, henv, hany⟩ := (Option.any_eq_true _ _).mp hany
  obtain ⟨htype, hwhole, htarget⟩ := of_decide_eq_true hany
  have hquotable : env.Quotable none text type :=
    quotable_of_all (by decide +kernel) (by decide +kernel) htype rfl
  have hends : PlainEnds text := by
    have hfirst : (trimmed text).toList.head? = some 'd' := by decide +kernel
    refine ⟨⟨[' '], ['\t'], by decide +kernel, by simp [isGap]⟩, ?_⟩
    rw [hfirst]
    rintro c ⟨⟩
    decide
  have hsingle : (Expr.parse? (trimmed text)).all (fun e => !e.isTuple) = true := by decide +kernel
  obtain ⟨hquoted, hargument⟩ := evaluate_quoted env none hquotable singleQuotes
  have hiff := hargument hends (fun e he => by simpa [he] using hsingle) ["List"]
    leadingPath_list (notLiteral_of_returns htarget rfl) (listOf type) rfl
  have hinQuotes : singleQuotes.quote text = "' dict[str, C]\t'" := by decide +kernel
  have hinBrackets : subscription ["List"] (singleQuotes.quote text) = "List[' dict[str, C]\t']" := by
    decide +kernel
  rw [hinBrackets] at hiff
  rw [hinQuotes] at hquoted
  exact ⟨env, henv, hquoted, hiff.mp hwhole⟩

/-- A blank that belongs to a name is lost in quotes: `List[\u00a0C]` is a list of one class, and with
    quotes around its argument a list of the other. -/
theorem evaluate_ne_quoted_blank :
    ∃ env, (Analysis.linked "m" blankInputs {}).typeEnv? "m" = some env ∧
      env.Quotable none "\u00a0C" (classOf "C") ∧
      (∀ e, Expr.parse? (trimmed "\u00a0C") = some e → e.isTuple = false) ∧
      LeadingPath ["List"] ∧ env.NotLiteral none (dotted ["List"]) ∧
      env.evaluate none (subscription ["List"] "\u00a0C") = some (listOf (classOf "\u00a0C")) ∧
      env.evaluate none (subscription ["List"] (singleQuotes.quote "\u00a0C")) =
        some (listOf (classOf "C")) ∧
      listOf (classOf "C") ≠ listOf (classOf "\u00a0C") := by
  have hany : ((Analysis.linked "m" blankInputs {}).typeEnv? "m").any (fun env =>
      decide (env.evaluate none "\u00a0C" = some (classOf "C") ∧
        (env.target none "List").run = some (.ok ⟨"typing", "List", .library⟩) ∧
        env.evaluate none (subscription ["List"] "\u00a0C") = some (listOf (classOf "\u00a0C")) ∧
        env.evaluate none (subscription ["List"] (singleQuotes.quote "\u00a0C")) =
          some (listOf (classOf "C")))) = true := by
    decide +kernel
  obtain ⟨env, henv, hany⟩ := (Option.any_eq_true _ _).mp hany
  obtain ⟨htype, htarget, hplain, hquoted⟩ := of_decide_eq_true hany
  have hsingle : (Expr.parse? (trimmed "\u00a0C")).all (fun e => !e.isTuple) = true := by
    decide +kernel
  exact ⟨env, henv, quotable_of_all (by decide +kernel) (by decide +kernel) htype rfl,
    fun e he => by simpa [he] using hsingle, leadingPath_list,
    notLiteral_of_returns htarget rfl, hplain, hquoted, by decide⟩

end TypeEnv
end PackageDoc
