import PackageDoc.Declaration.Basic
import PackageDoc.Proofs.Skipping.Parameters

namespace PackageDoc

/-!
# The parameters of a signature

A signature is a list of items with commas between them.  The kinds of its parameters depend on the
items around them: a slash makes those before it positional, a star those after it keyword
parameters.

* `SignatureText` — a signature whose annotations and defaults are texts;
* `SignatureItem.after` — what an item does to the parameters in front of it;
* `SignatureText.foldl_after_items` — the items of a signature lead to its parameters;
* `SignatureItem.Written` and `SignatureItem.WrittenAll` — the tokens of items;
* `StmtReader.run_paramList_items` — the parameters that are read follow the items.
-/

/-- What a parameter is but for its expressions. -/
structure ParamShape where
  name : String
  kind : ParamKind
  hinted : Bool
  defaulted : Bool
  deriving Repr, DecidableEq

/-- The shape of a parameter that is read. -/
def Param.shape (p : Param) : ParamShape :=
  ⟨p.name.name, p.kind, p.hint.isSome, p.default.isSome⟩

/-- The shape of a parameter that is declared. -/
def ParamDecl.shape (p : ParamDecl) : ParamShape :=
  ⟨p.name, p.kind, p.hint.isSome, p.default.isSome⟩

/-- A parameter with the texts of its annotation and its default. -/
structure SignatureParam where
  name : String
  hint : Option String := none
  default : Option String := none
  deriving Repr, DecidableEq

/-- The shape of a parameter of some kind. -/
def SignatureParam.shape (kind : ParamKind) (p : SignatureParam) : ParamShape :=
  ⟨p.name, kind, p.hint.isSome, p.default.isSome⟩

/-- What stands between the commas of a signature. -/
inductive SignatureItem where
  | slash
  | bareStar
  | plain (param : SignatureParam)
  | variadic (param : SignatureParam)
  | keywords (param : SignatureParam)
  deriving Repr, DecidableEq

/-- A signature: its parameters of each kind, and the text of the type that is returned. -/
structure SignatureText where
  positionalOnly : List SignatureParam := []
  positional : List SignatureParam := []
  variadic : Option SignatureParam := none
  keywordOnly : List SignatureParam := []
  keywords : Option SignatureParam := none
  returns : Option String := none
  deriving Repr, DecidableEq

/-! ### What the items lead to -/

namespace SignatureItem

/-- What an item does to the kind of plain parameters and to the parameters in front of it. -/
def after : ParamKind × List ParamShape → SignatureItem → ParamKind × List ParamShape
  | (kind, params), slash => (kind, params.map fun p => { p with kind := .positionalOnly })
  | (_, params), bareStar => (.keywordOnly, params)
  | (kind, params), plain p => (kind, params ++ [p.shape kind])
  | (_, params), variadic p => (.keywordOnly, params ++ [p.shape .varPositional])
  | (kind, params), keywords p => (kind, params ++ [p.shape .varKeyword])

/-- Plain parameters are of the present kind. -/
theorem foldl_after_plain (kind : ParamKind) (params : List ParamShape) (ps : List SignatureParam) :
    (ps.map plain).foldl after (kind, params) = (kind, params ++ ps.map (·.shape kind)) := by
  induction ps generalizing params with
  | nil => simp
  | cons p ps ih =>
    rw [List.map_cons, List.foldl_cons, after, ih, List.map_cons, List.append_assoc,
      List.singleton_append]

end SignatureItem

namespace SignatureText

/-- The items of a signature: a slash stands behind positional parameters, and a bare star before
    keyword parameters that no variadic parameter separates. -/
def items (sig : SignatureText) : List SignatureItem :=
  (if sig.positionalOnly.isEmpty then [] else sig.positionalOnly.map .plain ++ [.slash]) ++
    sig.positional.map .plain ++
    (match sig.variadic with
      | some p => [.variadic p]
      | none => if sig.keywordOnly.isEmpty then [] else [.bareStar]) ++
    sig.keywordOnly.map .plain ++ sig.keywords.toList.map .keywords

/-- The parameters of a signature, in their order. -/
def params (sig : SignatureText) : List ParamShape :=
  sig.positionalOnly.map (·.shape .positionalOnly) ++
    sig.positional.map (·.shape .positionalOrKeyword) ++
    sig.variadic.toList.map (·.shape .varPositional) ++
    sig.keywordOnly.map (·.shape .keywordOnly) ++
    sig.keywords.toList.map (·.shape .varKeyword)

/-- **The items of a signature lead to its parameters.** -/
theorem foldl_after_items (sig : SignatureText) :
    (sig.items.foldl SignatureItem.after (.positionalOrKeyword, [])).2 = sig.params := by
  -- the slash takes back what the parameters before it have been until then
  have hslash : (if sig.positionalOnly.isEmpty then []
      else sig.positionalOnly.map SignatureItem.plain ++ [.slash]).foldl SignatureItem.after
        (.positionalOrKeyword, []) =
      (.positionalOrKeyword, sig.positionalOnly.map (·.shape .positionalOnly)) := by
    cases hparams : sig.positionalOnly with
    | nil => rfl
    | cons p ps =>
      rw [List.isEmpty_cons, if_neg Bool.false_ne_true, List.foldl_append,
        SignatureItem.foldl_after_plain, List.nil_append]
      show (_, List.map _ (List.map _ (p :: ps))) = _
      rw [List.map_map]
      rfl
  have hkeywords (kind : ParamKind) (params : List ParamShape) :
      ((sig.keywords.toList.map SignatureItem.keywords).foldl SignatureItem.after
        (kind, params)).2 = params ++ sig.keywords.toList.map (·.shape .varKeyword) := by
    cases sig.keywords with
    | none => exact (List.append_nil params).symm
    | some p => rfl
  unfold items params
  rw [List.foldl_append, List.foldl_append, List.foldl_append, List.foldl_append, hslash,
    SignatureItem.foldl_after_plain _ _ sig.positional]
  cases sig.variadic with
  | some p =>
    rw [List.foldl_cons, List.foldl_nil, SignatureItem.after, SignatureItem.foldl_after_plain,
      hkeywords]
    rfl
  | none =>
    cases hparams : sig.keywordOnly with
    | nil =>
      rw [List.isEmpty_nil, if_pos rfl, List.foldl_nil, List.map_nil, List.foldl_nil, hkeywords]
      simp
    | cons p ps =>
      rw [List.isEmpty_cons, if_neg Bool.false_ne_true, List.foldl_cons, List.foldl_nil,
        SignatureItem.after, SignatureItem.foldl_after_plain, hkeywords]
      simp

end SignatureText

/-! ### The tokens of items -/

/-- The tokens are those of a parameter, each expression of which is read as it was written. -/
structure WrittenParam.IsOf (w : WrittenParam) (p : SignatureParam) : Prop extends w.Reads where
  isName : w.name.text = p.name
  hinted : w.hint.isSome = p.hint.isSome
  defaulted : w.default.isSome = p.default.isSome

/-- A parameter that is written for one of a signature has its shape. -/
theorem WrittenParam.IsOf.shape_param {w : WrittenParam} {p : SignatureParam} (h : w.IsOf p)
    (kind : ParamKind) : (w.param kind).shape = p.shape kind := by
  simp [WrittenParam.param, Param.shape, SignatureParam.shape, h.isName, h.hinted, h.defaulted]

/-- Behind others it adds that shape to theirs. -/
theorem WrittenParam.IsOf.map_shape {w : WrittenParam} {p : SignatureParam} (h : w.IsOf p)
    (kind : ParamKind) (params : List Param) :
    (params ++ [w.param kind]).map Param.shape = params.map Param.shape ++ [p.shape kind] := by
  rw [List.map_append, List.map_singleton, h.shape_param]

namespace SignatureItem

/-- Tokens that are an item. -/
inductive Written : SignatureItem → List Token → Prop
  | slash {t : Token} (mark : t.kind = .slash) : Written .slash [t]
  | bareStar {t : Token} (mark : t.kind = .star) : Written .bareStar [t]
  | plain {p : SignatureParam} {w : WrittenParam} (param : w.IsOf p) : Written (.plain p) w.tokens
  | variadic {p : SignatureParam} {t : Token} {w : WrittenParam} (mark : t.kind = .star)
    (param : w.IsOf p) : Written (.variadic p) (t :: w.tokens)
  | keywords {p : SignatureParam} {t : Token} {w : WrittenParam} (mark : t.kind = .doubleStar)
    (param : w.IsOf p) : Written (.keywords p) (t :: w.tokens)

/-- Tokens that are items with commas between them. -/
inductive WrittenAll : List SignatureItem → List Token → Prop
  | nil : WrittenAll [] []
  | last {item : SignatureItem} {ts : List Token} (only : item.Written ts) : WrittenAll [item] ts
  | cons {item : SignatureItem} {items : List SignatureItem} {c : Token} {ts us : List Token}
    (first : item.Written ts) (comma : c.kind = .comma) (others : WrittenAll items us) :
    WrittenAll (item :: items) (ts ++ c :: us)

theorem Written.length_pos {item : SignatureItem} {ts : List Token} (h : item.Written ts) :
    0 < ts.length := by
  cases h <;> exact Nat.succ_pos _

/-- There are no more items than tokens of them. -/
theorem WrittenAll.length_le {items : List SignatureItem} {ts : List Token}
    (h : WrittenAll items ts) : items.length ≤ ts.length := by
  induction h with
  | nil => exact le_rfl
  | last only => exact only.length_pos
  | cons first _ _ ih =>
    have hpos := first.length_pos
    simp only [List.length_cons, List.length_append]
    omega

end SignatureItem

/-! ### Reading items -/

namespace StmtReader

variable {prev t : Token} {ts after : List Token} {issues : List SyntaxIssue}

/-- Behind an item the list goes on with a comma, or it is at its end. -/
theorem run_again (n : Nat) (kind : ParamKind) (params : List Param) :
    (eat .comma >>= fun found => if found then paramList n kind params else pure params :
      StmtReader (List Param)).run ⟨⟨prev, t :: after⟩, issues⟩ =
      if t.kind = .comma then (paramList n kind params).run ⟨⟨t, after⟩, issues⟩
      else .ok params ⟨⟨prev, t :: after⟩, issues⟩ := by
  rw [run_eat_bind]
  by_cases hcomma : t.kind = .comma
  · rw [if_pos hcomma, if_pos (by simp [Cursor.at?_cons, hcomma])]
    rfl
  · rw [if_neg hcomma, if_neg (by simp [Cursor.at?_cons, hcomma])]
    rfl

/-- A parameter behind stars is read, and the list goes on behind it. -/
theorem run_param_again {w : WrittenParam} (hw : w.Reads) (paramKind : ParamKind) (n : Nat)
    (kind : ParamKind) (params : List Param) (ht : t.kind = .comma ∨ t.kind = .rparen) :
    (param paramKind >>= fun p => eat .comma >>= fun found =>
      if found then paramList n kind (params ++ [p]) else pure (params ++ [p])).run
        ⟨⟨prev, w.tokens ++ t :: after⟩, issues⟩ =
      if t.kind = .comma then
        (paramList n kind (params ++ [w.param paramKind])).run ⟨⟨t, after⟩, issues⟩
      else .ok (params ++ [w.param paramKind]) ⟨⟨w.tokens.getLastD prev, t :: after⟩, issues⟩ := by
  rw [run_bind_of_ok (run_param hw paramKind ht)]
  exact run_again n kind _

/-- **An item is read in one round**, which does to the parameters what the item does. -/
theorem run_paramList_item {item : SignatureItem} (h : item.Written ts) (n : Nat) (prev : Token)
    (after : List Token) (issues : List SyntaxIssue) (kind : ParamKind) (params : List Param)
    (ht : t.kind = .comma ∨ t.kind = .rparen) :
    ∃ kind' params', (kind', params'.map Param.shape) = item.after (kind, params.map Param.shape) ∧
      (paramList (n + 1) kind params).run ⟨⟨prev, ts ++ t :: after⟩, issues⟩ =
        if t.kind = .comma then (paramList n kind' params').run ⟨⟨t, after⟩, issues⟩
        else .ok params' ⟨⟨ts.getLastD prev, t :: after⟩, issues⟩ := by
  cases h with
  | @slash u hslash =>
    -- the slash goes back over the parameters that have been read
    refine ⟨kind, params.map fun p => { p with kind := .positionalOnly }, ?_, ?_⟩
    · rw [SignatureItem.after, List.map_map, List.map_map]
      rfl
    · have hround : (paramList (n + 1) kind params).run ⟨⟨prev, u :: t :: after⟩, issues⟩ =
          (eat .comma >>= fun found => if found then
              paramList n kind (params.map fun p => { p with kind := .positionalOnly })
            else pure (params.map fun p => { p with kind := .positionalOnly }) :
            StmtReader (List Param)).run ⟨⟨u, t :: after⟩, issues⟩ := by
        rw [paramList, run_bind_of_ok (show peek.run _ = .ok u _ from rfl), hslash]
        rfl
      exact hround.trans (run_again n kind _)
  | @bareStar u hstar =>
    -- no name is behind the star, so it leaves the parameters as they are
    refine ⟨.keywordOnly, params, rfl, ?_⟩
    have hname : (t.kind == .name) = false := by rcases ht with h | h <;> rw [h] <;> rfl
    have hround : (paramList (n + 1) kind params).run ⟨⟨prev, u :: t :: after⟩, issues⟩ =
        (eat .comma >>= fun found => if found then paramList n .keywordOnly params
          else pure params : StmtReader (List Param)).run ⟨⟨u, t :: after⟩, issues⟩ := by
      rw [paramList, run_bind_of_ok (show peek.run _ = .ok u _ from rfl), hstar]
      dsimp only
      rw [run_bind_of_ok (show advance.run _ = .ok u ⟨⟨u, t :: after⟩, issues⟩ from rfl),
        run_bind_of_ok (show (at? .name).run _ = .ok (t.kind == .name) _ from rfl), hname]
      rfl
    exact hround.trans (run_again n .keywordOnly params)
  | @plain p w hw =>
    exact ⟨kind, params ++ [w.param kind], by rw [hw.map_shape, SignatureItem.after],
      run_paramList_cons hw.toReads n kind params ht⟩
  | @variadic p u w hstar hw =>
    refine ⟨.keywordOnly, params ++ [w.param .varPositional],
      by rw [hw.map_shape, SignatureItem.after], ?_⟩
    -- the name behind the star makes a parameter of it
    have hname : (w.name.kind == .name) = true := by rw [hw.name]; rfl
    have hround : (paramList (n + 1) kind params).run
        ⟨⟨prev, u :: w.tokens ++ t :: after⟩, issues⟩ =
        (param .varPositional >>= fun p => eat .comma >>= fun found =>
          if found then paramList n .keywordOnly (params ++ [p]) else pure (params ++ [p])).run
          ⟨⟨u, w.tokens ++ t :: after⟩, issues⟩ := by
      rw [paramList, run_bind_of_ok (show peek.run _ = .ok u _ from rfl), hstar]
      dsimp only
      rw [run_bind_of_ok (show advance.run _ = .ok u ⟨⟨u, w.tokens ++ t :: after⟩, issues⟩ from rfl),
        run_bind_of_ok (show (at? .name).run _ = .ok (w.name.kind == .name) _ from rfl), hname]
      rfl
    rw [hround, List.getLastD_cons]
    exact run_param_again hw.toReads .varPositional n .keywordOnly params ht
  | @keywords p u w hstars hw =>
    refine ⟨kind, params ++ [w.param .varKeyword], by rw [hw.map_shape, SignatureItem.after], ?_⟩
    have hround : (paramList (n + 1) kind params).run
        ⟨⟨prev, u :: w.tokens ++ t :: after⟩, issues⟩ =
        (param .varKeyword >>= fun p => eat .comma >>= fun found =>
          if found then paramList n kind (params ++ [p]) else pure (params ++ [p])).run
          ⟨⟨u, w.tokens ++ t :: after⟩, issues⟩ := by
      rw [paramList, run_bind_of_ok (show peek.run _ = .ok u _ from rfl), hstars]
      rfl
    rw [hround, List.getLastD_cons]
    exact run_param_again hw.toReads .varKeyword n kind params ht

/-- **The parameters that are read are those to which the items lead.** -/
theorem run_paramList_items {items : List SignatureItem} (h : SignatureItem.WrittenAll items ts)
    (ht : t.kind = .rparen) {n : Nat} (hn : items.length < n) (prev : Token) (after : List Token)
    (issues : List SyntaxIssue) (kind : ParamKind) (params : List Param) :
    ∃ params', (paramList n kind params).run ⟨⟨prev, ts ++ t :: after⟩, issues⟩ =
        .ok params' ⟨⟨ts.getLastD prev, t :: after⟩, issues⟩ ∧
      params'.map Param.shape =
        (items.foldl SignatureItem.after (kind, params.map Param.shape)).2 := by
  -- there is a round for each item, and one for the end of the list
  obtain ⟨m, rfl⟩ := Nat.exists_eq_succ_of_ne_zero (Nat.ne_zero_of_lt hn)
  induction h generalizing m prev kind params with
  | nil =>
    refine ⟨params, ?_, rfl⟩
    rw [paramList, run_bind_of_ok (show peek.run _ = .ok t _ from rfl), ht]
    rfl
  | last only =>
    obtain ⟨kind', params', hafter, hrun⟩ :=
      run_paramList_item only m prev after issues kind params (.inr ht)
    refine ⟨params', ?_, ?_⟩
    · rw [hrun, if_neg (by simp [ht])]
    · rw [List.foldl_cons, List.foldl_nil, ← hafter]
  | @cons item items c ts us first comma others ih =>
    obtain ⟨kind', params', hafter, hrun⟩ := run_paramList_item first m prev (us ++ t :: after) issues
      kind params (.inl comma)
    rw [List.length_cons] at hn
    obtain ⟨m', rfl⟩ := Nat.exists_eq_succ_of_ne_zero (show m ≠ 0 by omega)
    obtain ⟨params'', hothers, hshape⟩ := ih c kind' params' m' (by omega)
    refine ⟨params'', ?_, ?_⟩
    · rw [List.append_assoc, List.cons_append, hrun, if_pos comma, hothers, getLastD_append,
        List.getLastD_cons]
    · rw [hshape, List.foldl_cons, hafter]

end StmtReader

end PackageDoc
