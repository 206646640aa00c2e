import PackageDoc.Proofs.Merge.Views
import PackageDoc.Proofs.Types.Results
import PackageDoc.Proofs.Types.Termination

namespace PackageDoc

/-!
# Unions

Unions are in normal form in every type that an annotation is evaluated to, and the members of a
union are those of its arguments.

* `TypeRef.Normal` — the unions in a type have different members that are no unions;
* `TypeRef.BuiltFrom.normal` — a type that is built from targets is normal;
* `TypeRef.unionOf_eq` — a union keeps the first occurrence of what its arguments contribute;
* `TypeEnv.Denotes` — what an expression in a text is evaluated to;
* `TypeEnv.denotes_union_iff`, `TypeEnv.denotes_optional_iff` — unions by their arguments;
* `TypeEnv.evaluate_unions` — the unions in the type of an annotation.
-/

namespace TypeRef

/-- Every union in the type has different members that are no unions. -/
def Normal (t : TypeRef) : Prop :=
  ∀ members, union members ∈ t.parts → members.Nodup ∧ ∀ ts, union ts ∉ members

/-- Unions are in normal form in a type that is built from targets. -/
theorem BuiltFrom.normal {p : Target → Prop} {t : TypeRef} (h : t.BuiltFrom p) : t.Normal := by
  -- the lists of types inside a type are handled by the type around them
  have hlist : ∀ ts : List TypeRef, (∀ t ∈ ts, t.Normal) → ∀ members,
      TypeRef.union members ∈ listParts ts →
        members.Nodup ∧ ∀ us, TypeRef.union us ∉ members := by
    intro ts hts members hmembers
    obtain ⟨t, ht, hmembers⟩ := mem_listParts_iff.mp hmembers
    exact hts t ht members hmembers
  induction h with
  | resolved _ | literal _ | ellipsis | alternate _ _ => simp [Normal, parts]
  | generic _ _ hbase hargs =>
    intro members hmembers
    rw [parts, List.mem_cons, List.mem_append] at hmembers
    rcases hmembers with hself | hinbase | hinargs
    · exact absurd hself (by simp)
    · exact hbase members hinbase
    · exact hlist _ hargs members hinargs
  | union hnodup hflat _ ih =>
    intro members hmembers
    rw [parts, List.mem_cons] at hmembers
    rcases hmembers with hself | hinside
    · obtain rfl := TypeRef.union.inj hself
      exact ⟨hnodup, hflat⟩
    · exact hlist _ ih members hinside
  | params _ ih =>
    intro members hmembers
    rw [parts, List.mem_cons] at hmembers
    rcases hmembers with hself | hinside
    · exact absurd hself (by simp)
    · exact hlist _ ih members hinside

/-- Nested unions are spliced in place, and of several equal members the first one stays. -/
theorem unionOf_eq (members : List TypeRef) :
    unionOf members = .union (members.flatMap unionMembers).eraseDups := by
  rw [unionOf]
  refine congrArg TypeRef.union ((foldl_concat_new [] _).trans ?_)
  simp

end TypeRef

/-- A target is at most one name of the vocabulary of annotations. -/
theorem Target.isTyping_eq_false {target : Target} {name other : String}
    (h : target.isTyping name = true) (hne : name ≠ other) : target.isTyping other = false := by
  simp_all [Target.isTyping]

/-- The arguments in the brackets of a subscription. -/
def Expr.typeArguments : Expr → List Expr
  | .tuple items _ => items
  | e => [e]

namespace TypeEnv

variable {env : TypeEnv} {scope : Option ClassScope} {depth : Nat} {text : String}

/-- The expression `e` of `text` is evaluated to `type`, where strings in it are followed down to
    `depth` levels. -/
def Denotes (env : TypeEnv) (scope : Option ClassScope) (depth : Nat) (text : String) (e : Expr)
    (type : TypeRef) : Prop :=
  Eval.Returns (env.evalExpr scope text (forwardRef (env.evalText scope depth)) e) type

/-- An annotation has the type that its expression denotes. -/
theorem evaluate_of_denotes {raw : String} {e : Expr} {type : TypeRef}
    (halternate : isAlternateSyntax (trimmed raw) = false)
    (hparse : Expr.parse? (trimmed raw) = some e)
    (h : env.Denotes scope forwardDepth (trimmed raw) e type) :
    env.evaluate scope raw = some type := by
  have hrun : (env.evalText scope (forwardDepth + 1) raw).run = some (.ok type) := by
    rw [evalText, evalTrimmed, if_neg (by simp [halternate]), hparse]
    exact h
  rw [evaluate, hrun]
  rfl

/-- A subscription is evaluated by its base and its arguments. -/
theorem evalExpr_subscript {forward : String → Eval TypeRef} (value index : Expr) (span : Span) :
    env.evalExpr scope text forward (.subscript value index span) = (do
      let base ← env.evalExpr scope text forward value
      subscripted text base index.typeArguments
        (fun _ => env.evalAll scope text forward index.typeArguments)
        (fun _ => env.evalFirst scope text forward index.typeArguments)) := by
  cases index with
  | tuple items span' => rw [evalExpr, Expr.typeArguments]
  | _ =>
    rw [evalExpr, Expr.typeArguments]
    · simp [evalAll, evalFirst]
    all_goals simp

/-- Several expressions return the types of each. -/
theorem returns_evalAll_iff {forward : String → Eval TypeRef} {es : List Expr}
    {types : List TypeRef} :
    Eval.Returns (env.evalAll scope text forward es) types ↔
      List.Forall₂ (fun e type => Eval.Returns (env.evalExpr scope text forward e) type)
        es types := by
  induction es generalizing types with
  | nil => simp [evalAll, Eval.returns_pure_iff, eq_comm]
  | cons e es ih =>
    rw [evalAll, List.forall₂_cons_left_iff]
    simp only [Eval.returns_bind_iff, Eval.returns_pure_iff, ih]
    constructor
    · rintro ⟨type, htype, types, htypes, rfl⟩
      exact ⟨type, types, htype, htypes, rfl⟩
    · rintro ⟨type, types, htype, htypes, rfl⟩
      exact ⟨type, htype, types, htypes, rfl⟩

/-- A union of arguments is built of their types. -/
theorem subscripted_union {target : Target} (h : target.isTyping "Union" = true)
    (args : List Expr) (all : Unit → Eval (List TypeRef)) (first : Unit → Eval TypeRef) :
    subscripted text (.resolved target) args all first = (do return .unionOf (← all ())) := by
  have hliteral : target.isTyping "Literal" = false := target.isTyping_eq_false h (by decide)
  simp [subscripted, hliteral, h]

/-- An optional one is built with `None` behind them. -/
theorem subscripted_optional {target : Target} (h : target.isTyping "Optional" = true)
    (args : List Expr) (all : Unit → Eval (List TypeRef)) (first : Unit → Eval TypeRef) :
    subscripted text (.resolved target) args all first =
      (do return .unionOf ((← all ()) ++ [.resolved (Target.ofBuiltin "None")])) := by
  have hliteral : target.isTyping "Literal" = false := target.isTyping_eq_false h (by decide)
  have hunion : target.isTyping "Union" = false := target.isTyping_eq_false h (by decide)
  simp [subscripted, hliteral, hunion, h]

/-- What a subscription denotes, given what its base denotes. -/
theorem denotes_subscript_iff {value index : Expr} {span : Span} {base type : TypeRef}
    (hbase : env.Denotes scope depth text value base) :
    env.Denotes scope depth text (.subscript value index span) type ↔
      Eval.Returns (subscripted text base index.typeArguments
        (fun _ => env.evalAll scope text (forwardRef (env.evalText scope depth)) index.typeArguments)
        (fun _ => env.evalFirst scope text (forwardRef (env.evalText scope depth))
          index.typeArguments)) type := by
  rw [Denotes, evalExpr_subscript, Eval.returns_bind_iff]
  constructor
  · rintro ⟨base', hbase', htype⟩
    obtain rfl : base = base' := by simpa using hbase.symm.trans hbase'
    exact htype
  · exact fun htype => ⟨base, hbase, htype⟩

/-- `Union[…]` denotes the union of what its arguments denote. -/
theorem denotes_union_iff {value index : Expr} {span : Span} {target : Target} {type : TypeRef}
    (hbase : env.Denotes scope depth text value (.resolved target))
    (hunion : target.isTyping "Union" = true) :
    env.Denotes scope depth text (.subscript value index span) type ↔
      ∃ types, List.Forall₂ (env.Denotes scope depth text) index.typeArguments types ∧
        type = .union (types.flatMap TypeRef.unionMembers).eraseDups := by
  rw [denotes_subscript_iff hbase, subscripted_union hunion, Eval.returns_map_iff]
  simp only [returns_evalAll_iff, TypeRef.unionOf_eq, eq_comm (b := type)]
  rfl

/-- `Optional[…]` denotes the union of what its arguments denote and `None`. -/
theorem denotes_optional_iff {value index : Expr} {span : Span} {target : Target}
    {type : TypeRef} (hbase : env.Denotes scope depth text value (.resolved target))
    (hoptional : target.isTyping "Optional" = true) :
    env.Denotes scope depth text (.subscript value index span) type ↔
      ∃ types, List.Forall₂ (env.Denotes scope depth text) index.typeArguments types ∧
        type = .union ((types ++ [TypeRef.resolved (Target.ofBuiltin "None")]).flatMap
          TypeRef.unionMembers).eraseDups := by
  rw [denotes_subscript_iff hbase, subscripted_optional hoptional, Eval.returns_map_iff]
  simp only [returns_evalAll_iff, TypeRef.unionOf_eq, eq_comm (b := type)]
  rfl

/-- **Unions are in normal form.**  In every environment, the unions in the type of a text have
    different members that are no unions, at every depth.  A text has the type that its expression
    denotes; and wherever the base of a subscription denotes `Union` or `Optional`, the members are
    what the arguments denote, with nested unions spliced in place and later duplicates dropped. -/
theorem evaluate_unions (env : TypeEnv) (scope : Option ClassScope) :
    (∀ raw type, env.evaluate scope raw = some type → type.Normal) ∧
    (∀ raw e type, isAlternateSyntax (trimmed raw) = false →
      Expr.parse? (trimmed raw) = some e →
      env.Denotes scope forwardDepth (trimmed raw) e type → env.evaluate scope raw = some type) ∧
    ∀ depth text value index span target,
      env.Denotes scope depth text value (.resolved target) → ∀ type,
      (target.isTyping "Union" = true →
        (env.Denotes scope depth text (.subscript value index span) type ↔
          ∃ types, List.Forall₂ (env.Denotes scope depth text) index.typeArguments types ∧
            type = .union (types.flatMap TypeRef.unionMembers).eraseDups)) ∧
      (target.isTyping "Optional" = true →
        (env.Denotes scope depth text (.subscript value index span) type ↔
          ∃ types, List.Forall₂ (env.Denotes scope depth text) index.typeArguments types ∧
            type = .union ((types ++ [TypeRef.resolved (Target.ofBuiltin "None")]).flatMap
              TypeRef.unionMembers).eraseDups)) := by
  refine ⟨fun raw type h => ?_, fun raw e type => evaluate_of_denotes, ?_⟩
  · obtain hbuilt | ⟨reason, -, rfl⟩ := evaluate_cases trivial (yields_true_target _ _) h
    · exact hbuilt.normal
    · simp [TypeRef.Normal, TypeRef.parts]
  · intro depth text value index span target hbase type
    exact ⟨denotes_union_iff hbase, denotes_optional_iff hbase⟩

/-- A package that imports unions. -/
def unionInputs : List ModuleInput := [
  { name := "pkg", isPackage := true
    source := some (.parse "from typing import Optional, Union\n" "pkg" true) }]

/-- An annotation with unions inside a union, one of them in quotes. -/
def unionText : String := "Optional[Union[int, 'Union[str, int]']]"

/-- The type of the argument of `Optional` there. -/
def unionArgument : TypeRef :=
  .union [.resolved (Target.ofBuiltin "int"), .resolved (Target.ofBuiltin "str")]

/-- The members of the inner unions stand in one union, with `int` once and `None` at the end. -/
theorem evaluate_unions_quoted :
    ∃ env, (Analysis.linked "pkg" unionInputs {}).typeEnv? "pkg" = some env ∧
      ∃ type, type = .union [.resolved (Target.ofBuiltin "int"), .resolved (Target.ofBuiltin "str"),
          .resolved (Target.ofBuiltin "None")] ∧
        env.evaluate none unionText = some type ∧ type.Normal := by
  -- the text is a subscription whose base is `Optional`, with a subscription as its argument
  have hany : ((Analysis.linked "pkg" unionInputs {}).typeEnv? "pkg").any (fun env =>
      (Expr.parse? unionText).any fun e => match e with
        | .subscript value (.subscript value' index' span') _ =>
          let forward := forwardRef (env.evalText none forwardDepth)
          decide ((env.evalExpr none unionText forward value).run =
              some (.ok (.resolved ⟨"typing", "Optional", .library⟩)) ∧
            (env.evalExpr none unionText forward (.subscript value' index' span')).run =
              some (.ok unionArgument))
        | _ => false) = true := by
    decide +kernel
  obtain ⟨env, henv, hany⟩ := (Option.any_eq_true _ _).mp hany
  obtain ⟨e, hparse, hany⟩ := (Option.any_eq_true _ _).mp hany
  split at hany
  · rename_i value value' index' span' span
    obtain ⟨hbase, hargument⟩ := of_decide_eq_true hany
    obtain ⟨hnormal, hevaluate, hdenotes⟩ := evaluate_unions env none
    have htype := ((hdenotes forwardDepth unionText value (.subscript value' index' span') span _
      hbase _).2 (by decide)).mpr ⟨[unionArgument], .cons hargument .nil, rfl⟩
    have htrim : trimmed unionText = unionText := by decide +kernel
    have halternate : isAlternateSyntax unionText = false := by decide +kernel
    have hevaluated := hevaluate unionText (.subscript value (.subscript value' index' span') span)
      _ (htrim.symm ▸ halternate) (htrim.symm ▸ hparse) (htrim.symm ▸ htype)
    exact ⟨env, henv, _, by decide +kernel, hevaluated, hnormal _ _ hevaluated⟩
  · simp at hany

end TypeEnv
end PackageDoc
