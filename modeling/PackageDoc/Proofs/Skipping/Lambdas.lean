import PackageDoc.Proofs.Skipping.Passing

namespace PackageDoc

/-!
# Skipping lambdas

A lambda is no expression of the modelled language, so it is skipped.  The scan passes the colon of
every lambda that it has met, but what stands between `lambda` and that colon it takes for any other
part of an expression: a comma between two parameters, or the `=` of a default, may end it there.

* `Written` and `LambdaExpr` — how a lambda is written;
* `Whole` — no token that stands outside brackets ends an expression, but for colons;
* `Written.skips` — exactly then a part of a lambda is passed;
* `LambdaExpr.readUntil_iff` — exactly then a lambda is read whole.
-/

/-! ### How a lambda is written -/

/-- Parts of a lambda. -/
inductive LambdaPart where
  | expr | param | params

/-- Tokens that are a part of a lambda. -/
inductive Written : LambdaPart → List Token → Prop
  | token {t : Token} (loose : t.kind.isLoose = true) : Written .expr [t]
  | group {o c : Token} {ts : List Token} (opened : o.kind.isOpenBracket = true)
    (inner : Balanced ts) (line : ∀ t ∈ ts, t.kind.isLineEnd = false)
    (closed : c.kind.isOpenBracket = false ∧ c.kind.isCloseBracket = true) :
    Written .expr (o :: (ts ++ [c]))
  | lambda {k c : Token} {ts us : List Token} (keyword : k.kind = .keyword .Lambda)
    (params : Written .params ts) (colon : c.kind = .colon) (body : Written .expr us) :
    Written .expr (k :: (ts ++ c :: us))
  | append {ts us : List Token} (first : Written .expr ts) (second : Written .expr us) :
    Written .expr (ts ++ us)
  /-- A name, which stars may stand in front of, or a mark between the kinds of parameters. -/
  | bare {ts : List Token} (head : ∀ t ∈ ts, t.kind.isLoose = true) : Written .param ts
  | default {q : Token} {ts us : List Token} (head : ∀ t ∈ ts, t.kind.isLoose = true)
    (equals : q.kind = .equals) (value : Written .expr us) : Written .param (ts ++ q :: us)
  | noParams : Written .params []
  | lastParam {ts : List Token} (last : Written .param ts) : Written .params ts
  | params {c : Token} {ts us : List Token} (first : Written .param ts) (comma : c.kind = .comma)
    (others : Written .params us) : Written .params (ts ++ c :: us)

/-- A lambda with the tokens it is written with. -/
structure LambdaExpr where
  keyword : Token
  params : List Token
  colon : Token
  body : List Token
  isKeyword : keyword.kind = .keyword .Lambda
  isParams : Written .params params
  isColon : colon.kind = .colon
  isBody : Written .expr body

namespace LambdaExpr

/-- The tokens of a lambda, from its keyword to the end of its body. -/
def tokens (l : LambdaExpr) : List Token :=
  l.keyword :: (l.params ++ l.colon :: l.body)

/-- The last token of the body. -/
def last (l : LambdaExpr) : Token :=
  l.tokens.getLastD l.keyword

/-- Where a lambda stands. -/
def span (l : LambdaExpr) : Span :=
  ⟨l.keyword.span.start, l.last.span.stop⟩

end LambdaExpr

/-! ### What stands outside brackets -/

/-- No token that stands outside brackets ends an expression, but for colons. -/
def Whole (stops : List TokenKind) (ts : List Token) : Prop :=
  ∀ t ∈ outside 0 ts, t.kind ∈ stops → t.kind = .colon

variable {stops : List TokenKind} {t o c : Token} {ts us : List Token}

theorem whole_nil : Whole stops [] := by
  intro t ht
  cases ht

/-- Balanced tokens in front are judged apart from the rest. -/
theorem whole_append (hts : Balanced ts) :
    Whole stops (ts ++ us) ↔ Whole stops ts ∧ Whole stops us := by
  unfold Whole
  rw [outside_append (hts 0)]
  exact List.forall_mem_append

/-- So is a token that is no bracket. -/
theorem whole_cons (h : t.kind.isOpenBracket = false ∧ t.kind.isCloseBracket = false) :
    Whole stops (t :: ts) ↔ (t.kind ∈ stops → t.kind = .colon) ∧ Whole stops ts := by
  unfold Whole
  rw [outside_cons h]
  exact List.forall_mem_cons

/-! ### What skipping does to the parts -/

/-- Skipping passes the tokens outside brackets if nothing among them ends an expression, and ends
    among them otherwise. -/
structure Skips (stops : List TokenKind) (ts : List Token) : Prop where
  balanced : Balanced ts
  passed : Whole stops ts → ∀ lambdas,
    Skipping.behindAll? stops ⟨0, lambdas⟩ ts = some ⟨0, lambdas⟩
  stuck : ¬ Whole stops ts → ∀ lambdas, Skipping.behindAll? stops ⟨0, lambdas⟩ ts = none

namespace Skips

theorem nil : Skips stops [] where
  balanced := .nil
  passed := fun _ _ => rfl
  stuck := fun h => absurd whole_nil h

theorem append (hts : Skips stops ts) (hus : Skips stops us) : Skips stops (ts ++ us) where
  balanced := hts.balanced.append hus.balanced
  passed := by
    intro h lambdas
    obtain ⟨hfirst, hsecond⟩ := (whole_append hts.balanced).mp h
    rw [Skipping.behindAll?_append, hts.passed hfirst, Option.bind_some, hus.passed hsecond]
  stuck := by
    intro h lambdas
    rw [Skipping.behindAll?_append]
    by_cases hfirst : Whole stops ts
    · have hsecond : ¬ Whole stops us := fun hus => h ((whole_append hts.balanced).mpr ⟨hfirst, hus⟩)
      rw [hts.passed hfirst, Option.bind_some, hus.stuck hsecond]
    · rw [hts.stuck hfirst]
      rfl

/-- A token of its own. -/
theorem single (hplain : t.kind.isOpenBracket = false ∧ t.kind.isCloseBracket = false)
    (hcolon : t.kind ≠ .colon) (hlambda : t.kind ≠ .keyword .Lambda)
    (hends : Expr.endsAt [] t.kind = false) : Skips stops [t] := by
  have hstep (lambdas : Nat) : Skipping.behind? stops ⟨0, lambdas⟩ t =
      if t.kind ∈ stops then none else some ⟨0, lambdas⟩ := by
    simp only [Expr.endsAt, List.contains_nil, Bool.false_or, Bool.or_eq_false_iff] at hends
    simp only [Skipping.behind?, Expr.endsAt, List.contains_eq_mem, hplain, hcolon, hlambda, hends,
      false_and, if_false, Bool.or_false, Bool.false_or, Bool.false_eq_true, decide_eq_true_eq, if_true]
  have hwhole : Whole stops [t] ↔ t.kind ∉ stops := by
    rw [whole_cons hplain]
    exact ⟨fun h hmem => hcolon (h.1 hmem), fun h => ⟨fun hmem => absurd hmem h, whole_nil⟩⟩
  refine ⟨.cons hplain .nil, fun h lambdas => ?_, fun h lambdas => ?_⟩
  · rw [Skipping.behindAll?_cons, hstep, if_neg (hwhole.mp h)]
    rfl
  · rw [Skipping.behindAll?_cons, hstep, if_pos (not_not.mp (mt hwhole.mpr h))]
    rfl

/-- A loose token is skipped. -/
theorem loose (h : t.kind.isLoose = true) : Skips stops [t] := by
  obtain ⟨hends, hopen, hclose, hlambda⟩ := TokenKind.isLoose_iff.mp h
  exact single ⟨hopen, hclose⟩ (TokenKind.ne_colon_of_isLoose h) hlambda
    (Expr.endsAt_mono (List.nil_subset _) hends)

/-- So are several. -/
theorem all_loose (h : ∀ t ∈ ts, t.kind.isLoose = true) : Skips stops ts := by
  induction ts with
  | nil => exact .nil
  | cons t ts ih =>
    obtain ⟨ht, hts⟩ := List.forall_mem_cons.mp h
    exact (loose ht).append (ih hts)

/-- So is a group in brackets, whatever is inside. -/
theorem group (hstops : stops ⊆ Expr.stopKinds) (ho : o.kind.isOpenBracket = true)
    (hts : Balanced ts) (hline : ∀ t ∈ ts, t.kind.isLineEnd = false)
    (hc : c.kind.isOpenBracket = false ∧ c.kind.isCloseBracket = true) :
    Skips stops (o :: (ts ++ [c])) := by
  have hwhole : Whole stops (o :: (ts ++ [c])) := by
    intro t ht hmem
    rw [outside_group ho hts, List.mem_singleton] at ht
    subst ht
    have hstop := hstops hmem
    simp only [Expr.stopKinds, List.mem_cons, List.not_mem_nil, or_false] at hstop
    rcases hstop with h | h | h | h | h <;> rw [h] at ho <;> cases ho
  refine ⟨.group ts ho hts hc .nil, fun _ lambdas => ?_, fun h => absurd hwhole h⟩
  have hinner : ∀ t ∈ o :: (ts ++ [c]), t.kind.isLineEnd = false := by
    refine List.forall_mem_cons.mpr ⟨TokenKind.isLineEnd_of_bracket (.inl ho), ?_⟩
    exact List.forall_mem_append.mpr
      ⟨hline, List.forall_mem_singleton.mpr (TokenKind.isLineEnd_of_bracket (.inr hc.2))⟩
  exact Skipping.behindAll?_of_outside hstops hinner (Balanced.group ts ho hts hc .nil 0)
    (Plain.group ho hts hc .nil) lambdas

/-- The colon of a lambda is passed, and what stands in front of it and behind it counts. -/
theorem lambda {k : Token} (hstops : stops ⊆ Expr.stopKinds) (hk : k.kind = .keyword .Lambda)
    (hts : Skips stops ts) (hc : c.kind = .colon) (hus : Skips stops us) :
    Skips stops (k :: (ts ++ c :: us)) := by
  -- the keyword opens a lambda, and the colon behind its parameters closes it again
  have hkeyword (lambdas : Nat) :
      Skipping.behind? stops ⟨0, lambdas⟩ k = some ⟨0, lambdas + 1⟩ := by
    have hends : Expr.endsAt stops k.kind = false :=
      Expr.endsAt_mono hstops (by rw [hk]; rfl)
    rw [Skipping.behind?_outside hends (by rw [hk]; rfl) (by rw [hk]; simp), hk]
    rfl
  have hcolon (lambdas : Nat) :
      Skipping.behind? stops ⟨0, lambdas + 1⟩ c = some ⟨0, lambdas⟩ := by
    simp [Skipping.behind?, hc, TokenKind.isLineEnd]
  have hplain : k.kind.isOpenBracket = false ∧ k.kind.isCloseBracket = false := by
    rw [hk]; exact ⟨rfl, rfl⟩
  have hplain' : c.kind.isOpenBracket = false ∧ c.kind.isCloseBracket = false := by
    rw [hc]; exact ⟨rfl, rfl⟩
  have hwhole : Whole stops (k :: (ts ++ c :: us)) ↔ Whole stops ts ∧ Whole stops us := by
    have hfree : k.kind ∉ stops := by
      intro hmem
      have hstop := hstops hmem
      rw [hk] at hstop
      exact absurd hstop (by decide)
    rw [whole_cons hplain, whole_append hts.balanced, whole_cons hplain']
    exact ⟨fun h => ⟨h.2.1, h.2.2.2⟩, fun h => ⟨fun hmem => absurd hmem hfree, h.1, fun _ => hc, h.2⟩⟩
  refine ⟨.cons hplain (hts.balanced.append (.cons hplain' hus.balanced)), ?_, ?_⟩
  · intro h lambdas
    obtain ⟨hparams, hbody⟩ := hwhole.mp h
    rw [Skipping.behindAll?_cons, hkeyword, Option.bind_some, Skipping.behindAll?_append,
      hts.passed hparams, Option.bind_some, Skipping.behindAll?_cons, hcolon, Option.bind_some,
      hus.passed hbody]
  · intro h lambdas
    rw [Skipping.behindAll?_cons, hkeyword, Option.bind_some, Skipping.behindAll?_append]
    by_cases hparams : Whole stops ts
    · have hbody : ¬ Whole stops us := fun hus => h (hwhole.mpr ⟨hparams, hus⟩)
      rw [hts.passed hparams, Option.bind_some, Skipping.behindAll?_cons, hcolon, Option.bind_some,
        hus.stuck hbody]
    · rw [hts.stuck hparams]
      rfl

end Skips

/-- **A part of a lambda is passed unless a token outside brackets ends an expression in it.** -/
theorem Written.skips {p : LambdaPart} (h : Written p ts) (hstops : stops ⊆ Expr.stopKinds) :
    Skips stops ts := by
  have mark {t : Token} {kind : TokenKind} (hkind : t.kind = kind)
      (hmark : kind = .comma ∨ kind = .equals) : Skips stops [t] := by
    rcases hmark with rfl | rfl <;>
      exact .single (by rw [hkind]; exact ⟨rfl, rfl⟩) (by rw [hkind]; simp) (by rw [hkind]; simp)
        (by rw [hkind]; rfl)
  induction h with
  | token hloose => exact .loose hloose
  | group ho hts hline hc => exact .group hstops ho hts hline hc
  | lambda hk _ hc _ ihparams ihbody => exact .lambda hstops hk ihparams hc ihbody
  | append _ _ ih ih' => exact ih.append ih'
  | bare hhead => exact .all_loose hhead
  | default hhead hequals _ ih =>
    exact (Skips.all_loose hhead).append ((mark hequals (.inr rfl)).append ih)
  | noParams => exact .nil
  | lastParam _ ih => exact ih
  | params _ hcomma _ ih ih' => exact ih.append ((mark hcomma (.inl rfl)).append ih')

/-! ### Reading a lambda -/

namespace Expr

/-- No expression of the modelled language begins with `lambda`. -/
theorem run_read_lambda {prev k : Token} (hk : k.kind = .keyword .Lambda) (ts : List Token) (n : Nat) :
    (read n).run ⟨prev, k :: ts⟩ = Option.none := by
  have hatom (n : Nat) : (atom n).run ⟨prev, k :: ts⟩ = Option.none := by
    cases n with
    | zero => rfl
    | succ n =>
      simp only [atom, StateT.run_bind, ExprReader.run_peek, Cursor.peek_cons, hk,
        Option.bind_eq_bind, Option.bind_some]
      rfl
  have hoperand (n : Nat) : (operand n).run ⟨prev, k :: ts⟩ = Option.none := by
    cases n with
    | zero => rfl
    | succ n => simp [operand, Cursor.at?_cons, hk, hatom]
  cases n with
  | zero => rfl
  | succ n => simp [read, hoperand]

end Expr

namespace LambdaExpr

variable (l : LambdaExpr) {prev : Token} {after : List Token}

/-- A lambda is skipped. -/
theorem skips (hstops : stops ⊆ Expr.stopKinds) : Skips stops l.tokens :=
  .lambda hstops l.isKeyword (l.isParams.skips hstops) l.isColon (l.isBody.skips hstops)

/-- A lambda is not modelled, so that it is skipped. -/
theorem readUntil_eq (stops : List TokenKind) (prev : Token) (ts : List Token) :
    Expr.readUntil stops ⟨prev, l.tokens ++ ts⟩ =
      Expr.readUnmodelled stops ⟨prev, l.tokens ++ ts⟩ := by
  unfold Expr.readUntil
  rw [tokens, List.cons_append, Expr.run_read_lambda l.isKeyword]

/-- Its last token is that of its body. -/
theorem getLast?_tokens : l.tokens.getLast? = some l.last := by
  rw [last, List.getLastD_eq_getLast?]
  obtain ⟨t, ht⟩ := Option.isSome_iff_exists.mp (List.getLast?_isSome.mpr (List.cons_ne_nil _ _) :
    (l.tokens.getLast?).isSome = true)
  rw [ht]
  rfl

/-- A lambda without a stop outside its brackets is skipped to its end. -/
theorem readUnmodelled_of_whole (hstops : stops ⊆ Expr.stopKinds)
    (hafter : t.kind.isCloseBracket = true ∨ Expr.endsAt stops t.kind = true)
    (hwhole : Whole stops l.tokens) :
    Expr.readUnmodelled stops ⟨prev, l.tokens ++ t :: after⟩ =
      (.unmodelled l.span, ⟨l.last, t :: after⟩) :=
  Expr.readUnmodelled_of_passed prev ((l.skips hstops).passed hwhole 0) l.getLast?_tokens
    fun _ _ => Expr.skipShape_end hafter after

/-- When a token outside brackets ends an expression in the lambda, the lambda is not passed. -/
theorem whole_of_readUnmodelled (hstops : stops ⊆ Expr.stopKinds)
    (hplace : (Expr.readUnmodelled stops ⟨prev, l.tokens ++ t :: after⟩).2 = ⟨l.last, t :: after⟩) :
    Whole stops l.tokens := by
  by_contra hwhole
  obtain ⟨passed, u, more, -, hstuck⟩ := Expr.skipShape_stuck l.keyword.span.start prev
    ((l.skips hstops).stuck hwhole 0)
  have hcursor := (hstuck (t :: after)).symm.trans hplace
  have hlength := congrArg (fun c : Cursor => c.rest.length) hcursor
  simp only [List.length_cons, List.length_append] at hlength
  omega

/-- **A lambda is read whole unless a token outside brackets ends an expression in it.**  Behind the
    lambda stands what ends the expression. -/
theorem readUntil_iff (hstops : stops ⊆ Expr.stopKinds)
    (hafter : t.kind.isCloseBracket = true ∨ Expr.endsAt stops t.kind = true) :
    Expr.readUntil stops ⟨prev, l.tokens ++ t :: after⟩ =
        (.unmodelled l.span, ⟨l.last, t :: after⟩) ↔ Whole stops l.tokens := by
  rw [readUntil_eq]
  exact ⟨fun heq => l.whole_of_readUnmodelled hstops (Prod.mk.inj heq).2,
    l.readUnmodelled_of_whole hstops hafter⟩

end LambdaExpr

end PackageDoc
