import PackageDoc.Analysis.Run
import PackageDoc.Proofs.Paths.Regrowth

namespace PackageDoc

/-!
# Which annotations are evaluated to an end

All that evaluation does besides looking up names goes down the text of the annotation, or down
the fixed depth of strings inside strings.  So it has an end exactly when each name that it looks up
has one, and a name has one exactly when nothing grows back in the path that is followed for it.

* `TypeEnv.pathOf?` — the path that is followed for a name;
* `TypeEnv.lookups` — the names that evaluation looks up, in order;
* `TypeEnv.evaluate_eq_none_iff` — evaluation has no end exactly when one of them has none;
* `TypeEnv.evaluate_isSome_iff` — the same by the paths that are followed;
* `hiddenAlias` — a package with an annotation that is evaluated without end.
-/

/-! ### Evaluations without end -/

section Endless

variable {α β : Type}

/-- A sequence has no end when its first part has none, or its second part after a value. -/
theorem bind_run_eq_none_iff (x : Eval α) (f : α → Eval β) :
    (x >>= f).run = none ↔ x.run = none ∨ ∃ v, x.run = some (.ok v) ∧ (f v).run = none := by
  rw [ExceptT.run_bind]
  cases x.run with
  | none => simp
  | some outcome => cases outcome <;> simp

/-- A function of what is evaluated does not come to an end where that does not. -/
theorem map_run_eq_none_iff (x : Eval α) (f : α → β) :
    (do return f (← x) : Eval β).run = none ↔ x.run = none := by
  rw [bind_run_eq_none_iff]
  simp

/-- Handling a failure has no end only when what fails has none, if the handler always ends. -/
theorem tryCatch_run_eq_none_iff (x : Eval α) (handler : RawReason → Eval α)
    (h : ∀ reason, (handler reason).run ≠ none) :
    (tryCatch x handler).run = none ↔ x.run = none := by
  rw [ExceptT.run_tryCatch]
  cases x.run with
  | none => simp
  | some outcome =>
    cases outcome with
    | error reason => simpa using h reason
    | ok v => simp

/-- With a value in place of each failure, what has an end has a value. -/
theorem exists_tryCatch_pure_run_eq (x : Eval α) (default : α) (h : x.run ≠ none) :
    ∃ v, (tryCatch x fun _ => pure default).run = some (.ok v) := by
  rw [ExceptT.run_tryCatch]
  cases hx : x.run with
  | none => exact absurd hx h
  | some outcome =>
    cases outcome with
    | error reason => exact ⟨default, rfl⟩
    | ok v => exact ⟨v, rfl⟩

end Endless

namespace TypeEnv

variable (env : TypeEnv) (scope : Option ClassScope)

/-! ### Names -/

/-- The path that is followed for a dotted name: what its first part was imported as, with the other
    parts behind it.  None is followed for a name that the class or the module defines. -/
def pathOf? (name : String) : Option (List String) :=
  match segments name with
  | [] => none
  | head :: rest =>
    if scope.any (fun c => (MergedMember.find? c.members head).isSome) then none
    else if (env.merged.member? head).isSome then none
    else match Assoc.get? env.analysis.links (env.id, head) with
      | some origin => origin.onward? rest
      | none => (Assoc.get? env.merged.moduleAliases head).map fun path => segments path ++ rest

/-- Looking up a name has no end exactly when a path is followed for it that has no end. -/
theorem target_run_eq_none_iff (name : String) :
    (env.target scope name).run = none ↔
      ∃ path, env.pathOf? scope name = some path ∧ env.analysis.pathTarget path = none := by
  unfold target pathOf?
  cases segments name with
  | nil => simp
  | cons head rest =>
    dsimp only
    -- members of the class are asked before the links of the module
    by_cases hclass : scope.any fun c => (MergedMember.find? c.members head).isSome
    · obtain ⟨c, rfl, hc⟩ := (Option.any_eq_true _ _).mp hclass
      have hfilter : (some c).filter (fun c => (MergedMember.find? c.members head).isSome) =
          some c := by
        simp [Option.filter, hc]
      simp [hfilter, hc]
    · have hfilter : scope.filter (fun c => (MergedMember.find? c.members head).isSome) = none := by
        cases scope with
        | none => rfl
        | some c => simpa using hclass
      simp only [hfilter, hclass]
      split
      · simp [*]
      · cases Assoc.get? env.analysis.links (env.id, head) with
        | some origin =>
          simp only [Analysis.targetFrom]
          cases origin.onward? rest <;> simp [*]
        | none =>
          cases Assoc.get? env.merged.moduleAliases head with
          | some path => simp [*]
          | none =>
            dsimp only
            split <;> simp [*]

/-! ### The names that are looked up -/

/-- The names that are looked up after an evaluation, if it came to a value. -/
def after {α : Type} (x : Eval α) (next : α → List String) : List String :=
  match x.run with
  | some (.ok v) => next v
  | _ => []

/-- The names that are looked up for the arguments of `base[args]`, given those of all of them and
    those of the first. -/
def argumentLookups (base : TypeRef) (all first : List String) : List String :=
  match base with
  | .resolved target =>
    if target.isTyping "Literal" then []
    else if target.isTyping "Annotated" then first
    else all
  | _ => all

mutual

/-- The names that are looked up for an expression, given those for a string in it. -/
def exprLookups (text : String) (forward : String → Eval TypeRef) (asked : String → List String) :
    Expr → List String
  | .name ident => [ident.name]
  | .attr value field span => (Expr.attr value field span).dottedName?.toList
  | .str value isBytes isFormatted _ => if isBytes || isFormatted then [] else asked value
  | .list items _ => allLookups text forward asked items
  | .subscript value (.tuple items _) _ =>
    exprLookups text forward asked value ++
      after (env.evalExpr scope text forward value) fun base =>
        argumentLookups base (allLookups text forward asked items)
          (firstLookups text forward asked items)
  | .subscript value index _ =>
    exprLookups text forward asked value ++
      after (env.evalExpr scope text forward value) fun base =>
        argumentLookups base (exprLookups text forward asked index)
          (exprLookups text forward asked index)
  | _ => []

/-- The names that are looked up for expressions, up to the first that denotes nothing. -/
def allLookups (text : String) (forward : String → Eval TypeRef) (asked : String → List String) :
    List Expr → List String
  | [] => []
  | e :: es =>
    exprLookups text forward asked e ++
      after (env.evalExpr scope text forward e) fun _ => allLookups text forward asked es

/-- The names that are looked up for the first of some expressions. -/
def firstLookups (text : String) (forward : String → Eval TypeRef) (asked : String → List String) :
    List Expr → List String
  | [] => []
  | e :: _ => exprLookups text forward asked e

end

/-- The dotted names of a text in the alternate syntax. -/
def runNames (text : String) (spans : List Span) : List String :=
  spans.map fun span =>
    String.ofList ((span.text text.toList).toList.filter fun c => !Text.isSpace c)

/-- The names that are looked up for a text without blanks at its ends. -/
def trimmedLookups (forward : String → Eval TypeRef) (asked : String → List String)
    (text : String) : List String :=
  if isAlternateSyntax text then runNames text (nameRuns none false (tokenize text).1)
  else match Expr.parse? text with
    | none => []
    | some e => env.exprLookups scope text forward asked e

/-- The names that are looked up for a text, strings being followed down to `depth - 1` levels. -/
def textLookups : (depth : Nat) → String → List String
  | 0, _ => []
  | depth + 1, raw =>
    env.trimmedLookups scope (forwardRef (env.evalText scope depth)) (textLookups depth)
      (trimmed raw)

/-- The names that the evaluation of an annotation looks up. -/
def lookups (raw : String) : List String :=
  env.textLookups scope (forwardDepth + 1) raw

/-! ### Evaluation has no end exactly when a name has none -/

/-- Looking up one of the names has no end. -/
def SomeEndless (names : List String) : Prop :=
  ∃ name ∈ names, (env.target scope name).run = none

variable {env scope}

@[simp] theorem not_someEndless_nil : ¬ env.SomeEndless scope [] := by
  simp [SomeEndless]

/-- One name is endless when its target is. -/
@[simp] theorem someEndless_singleton_iff {name : String} :
    env.SomeEndless scope [name] ↔ (env.target scope name).run = none := by
  simp [SomeEndless]

/-- Of two lists some name is endless when one of either is. -/
theorem someEndless_append_iff {names more : List String} :
    env.SomeEndless scope (names ++ more) ↔
      env.SomeEndless scope names ∨ env.SomeEndless scope more := by
  simp [SomeEndless, or_and_right, exists_or]

/-- Names that are asked for behind an evaluation matter if it returns. -/
theorem someEndless_after_iff {α : Type} {x : Eval α} {next : α → List String} :
    env.SomeEndless scope (after x next) ↔
      ∃ v, x.run = some (.ok v) ∧ env.SomeEndless scope (next v) := by
  unfold after
  split
  · rename_i v hv
    simp [hv]
  · rename_i hother
    refine iff_of_false not_someEndless_nil ?_
    rintro ⟨v, hv, -⟩
    exact hother v hv

/-- Evaluating one part after another, each of which has an end unless a name of it has none. -/
theorem bind_run_eq_none_iff_someEndless {α β : Type} {x : Eval α} {f : α → Eval β}
    {names : List String} {next : α → List String}
    (hx : x.run = none ↔ env.SomeEndless scope names)
    (hf : ∀ v, (f v).run = none ↔ env.SomeEndless scope (next v)) :
    (x >>= f).run = none ↔ env.SomeEndless scope (names ++ after x next) := by
  rw [bind_run_eq_none_iff, someEndless_append_iff, someEndless_after_iff, hx]
  simp only [hf]

/-- A subscription is endless when one of the names in it is. -/
theorem subscripted_run_eq_none_iff {text : String} {base : TypeRef} {args : List Expr}
    {all : Unit → Eval (List TypeRef)} {first : Unit → Eval TypeRef}
    {allNames firstNames : List String}
    (hall : (all ()).run = none ↔ env.SomeEndless scope allNames)
    (hfirst : (first ()).run = none ↔ env.SomeEndless scope firstNames) :
    (subscripted text base args all first).run = none ↔
      env.SomeEndless scope (argumentLookups base allNames firstNames) := by
  unfold subscripted argumentLookups
  cases base with
  | resolved target =>
    dsimp only
    by_cases hliteral : target.isTyping "Literal"
    · simp [hliteral]
    by_cases hannotated : target.isTyping "Annotated"
    · -- the names of the vocabulary are distinct
      have hunion : target.isTyping "Union" = false := by
        simp_all [Target.isTyping]
      have hoptional : target.isTyping "Optional" = false := by
        simp_all [Target.isTyping]
      simp only [hliteral, hannotated, hunion, hoptional, map_run_eq_none_iff, hfirst, if_true,
        Bool.false_eq_true, if_false]
    · simp only [hliteral, hannotated, Bool.false_eq_true, if_false]
      split
      · rw [map_run_eq_none_iff, hall]
      · split
        · rw [map_run_eq_none_iff, hall]
        · rw [map_run_eq_none_iff, hall]
  | _ => simp only [Bool.false_eq_true, if_false, map_run_eq_none_iff, hall]

/-- What can be no type asks for no name. -/
theorem exprLookups_of_isNoType {text : String} {forward : String → Eval TypeRef}
    {asked : String → List String} {e : Expr} (h : isNoType e = true) :
    env.exprLookups scope text forward asked e = [] := by
  cases e with
  | tuple items span => simp [exprLookups]
  | num | bool | call | dict | union | unmodelled => simp [exprLookups]
  | _ => cases h

/-- An expression is evaluated without end exactly when a name in it has no end, if that holds of
    the strings in it. -/
theorem evalExpr_run_eq_none_iff {text : String} {forward : String → Eval TypeRef}
    {asked : String → List String}
    (hforward : ∀ value, (forward value).run = none ↔ env.SomeEndless scope (asked value))
    (e : Expr) :
    (env.evalExpr scope text forward e).run = none ↔
      env.SomeEndless scope (env.exprLookups scope text forward asked e) := by
  apply evalExpr_induction
    (P := fun e => (env.evalExpr scope text forward e).run = none ↔
      env.SomeEndless scope (env.exprLookups scope text forward asked e))
    (Q := fun es => (env.evalAll scope text forward es).run = none ↔
      env.SomeEndless scope (env.allLookups scope text forward asked es))
    (R := fun es => (env.evalFirst scope text forward es).run = none ↔
      env.SomeEndless scope (env.firstLookups scope text forward asked es))
  case name =>
    intro ident
    rw [evalExpr, exprLookups, map_run_eq_none_iff, someEndless_singleton_iff]
  case dotted =>
    intro value field span name hname
    rw [evalExpr, exprLookups, hname]
    simp only [map_run_eq_none_iff, Option.toList_some, someEndless_singleton_iff]
  case undotted =>
    intro value field span hname
    rw [evalExpr, exprLookups, hname]
    simp
  case none | ellipsis | emptyTuple => simp [evalExpr, exprLookups]
  case prefixed =>
    intro value isBytes isFormatted span hkind
    rw [evalExpr, exprLookups, if_pos hkind, if_pos hkind]
    simp
  case str =>
    intro value isBytes isFormatted span hkind
    rw [evalExpr, exprLookups, if_neg hkind, if_neg hkind, hforward]
  case list =>
    intro items span ih
    rw [evalExpr, exprLookups, map_run_eq_none_iff, ih]
  -- what the subscripted value denotes decides which of the arguments are evaluated at all
  case subscriptTuple =>
    intro value items span span' ihvalue ihall ihfirst
    rw [evalExpr, exprLookups]
    exact bind_run_eq_none_iff_someEndless ihvalue fun base =>
      subscripted_run_eq_none_iff ihall ihfirst
  case subscript =>
    intro value index span hindex ihvalue ihindex
    rw [evalExpr, exprLookups]
    · exact bind_run_eq_none_iff_someEndless ihvalue fun base =>
        subscripted_run_eq_none_iff ((map_run_eq_none_iff _ _).trans ihindex) ihindex
    · exact hindex
    · exact hindex
  case other =>
    intro e he
    simp [evalExpr_of_isNoType he, exprLookups_of_isNoType he]
  case allNil => simp [evalAll, allLookups]
  case allCons =>
    intro e es ih ihall
    rw [evalAll, allLookups]
    exact bind_run_eq_none_iff_someEndless ih fun _ => (map_run_eq_none_iff _ _).trans ihall
  case firstNil => simp [evalFirst, firstLookups]
  case firstCons =>
    intro e es ih
    rw [evalFirst, firstLookups, ih]

/-- A quoted type is endless when its text is. -/
theorem forwardRef_run_eq_none_iff {eval : String → Eval TypeRef} {text : String} :
    (forwardRef eval text).run = none ↔ (eval text).run = none := by
  unfold forwardRef
  refine tryCatch_run_eq_none_iff _ _ fun reason => ?_
  split <;> simp

/-- The links of a text are endless when one of their names is. -/
theorem linksAt_run_eq_none_iff {text : String} (spans : List Span) :
    (env.linksAt scope text spans).run = none ↔
      env.SomeEndless scope (runNames text spans) := by
  induction spans with
  | nil => simp [linksAt, runNames]
  | cons span spans ih =>
    rw [linksAt, runNames, List.map_cons, ← runNames, ← List.singleton_append,
      someEndless_append_iff, ← ih, someEndless_singleton_iff, bind_run_eq_none_iff]
    generalize env.target scope _ = target
    rw [tryCatch_run_eq_none_iff _ _ (by simp), map_run_eq_none_iff]
    simp only [map_run_eq_none_iff, exists_and_right]
    constructor
    · rintro (htarget | ⟨-, hlinks⟩)
      · exact .inl htarget
      · exact .inr hlinks
    · rintro (htarget | hlinks)
      · exact .inl htarget
      · by_cases htarget : target.run = none
        · exact .inl htarget
        · -- a name that refers to nothing does not keep the next one from being looked up
          refine .inr ⟨exists_tryCatch_pure_run_eq _ _ ?_, hlinks⟩
          rwa [Ne, map_run_eq_none_iff]

/-- A text is endless when one of the names that it asks for is. -/
theorem evalTrimmed_run_eq_none_iff {forward : String → Eval TypeRef}
    {asked : String → List String}
    (hforward : ∀ value, (forward value).run = none ↔ env.SomeEndless scope (asked value))
    (text : String) :
    (env.evalTrimmed scope forward text).run = none ↔
      env.SomeEndless scope (env.trimmedLookups scope forward asked text) := by
  unfold evalTrimmed trimmedLookups
  split
  · exact (map_run_eq_none_iff _ _).trans (linksAt_run_eq_none_iff _)
  · cases Expr.parse? text with
    | none => simp
    | some e => exact evalExpr_run_eq_none_iff hforward e

/-- A text is evaluated without end exactly when a name in it has no end. -/
theorem evalText_run_eq_none_iff (depth : Nat) (raw : String) :
    (env.evalText scope depth raw).run = none ↔
      env.SomeEndless scope (env.textLookups scope depth raw) := by
  induction depth generalizing raw with
  | zero => simp [evalText, textLookups]
  | succ depth ih =>
    rw [evalText, textLookups]
    exact evalTrimmed_run_eq_none_iff
      (fun value => forwardRef_run_eq_none_iff.trans (ih value)) _

/-- The evaluation of an annotation has no end exactly when a name that it looks up has none. -/
theorem evaluate_eq_none_iff (raw : String) :
    env.evaluate scope raw = none ↔ env.SomeEndless scope (env.lookups scope raw) := by
  rw [evaluate, Option.map_eq_none_iff, evalText_run_eq_none_iff, lookups]

/-- **Evaluations that end.**  For every module, every class around the annotation and every text,
    evaluation has a result if and only if nothing grows back in any path that is followed for a
    name that it looks up.  Every path has an outcome if and only if following it is well founded,
    and that is so if and only if nothing grows back in it. -/
theorem evaluate_isSome_iff (env : TypeEnv) (scope : Option ClassScope) (raw : String) :
    ((env.evaluate scope raw).isSome ↔
      ∀ name ∈ env.lookups scope raw, ∀ path, env.pathOf? scope name = some path →
        ¬ env.analysis.Regrows path) ∧
    ∀ path, ((env.analysis.pathTarget path).isSome ↔ Acc env.analysis.Follows path) ∧
      (Acc env.analysis.Follows path ↔ ¬ env.analysis.Regrows path) := by
  refine ⟨?_, fun path => ⟨env.analysis.pathTarget_isSome_iff path,
    env.analysis.acc_follows_iff_not_regrows path⟩⟩
  rw [← Option.ne_none_iff_isSome, Ne, evaluate_eq_none_iff, SomeEndless]
  simp only [target_run_eq_none_iff, ← Analysis.acc_follows_iff_not_regrows,
    ← Analysis.pathTarget_isSome_iff, ← Option.ne_none_iff_isSome]
  push Not
  rfl

end TypeEnv

/-! ### An annotation that is evaluated without end

The package calls its module `m` by the name `s`, and its module `s` is left out.  What `m` imports
from `s` is therefore a name outside the documentation; but the path of that name leads, by what the
package calls `s`, back to `m`.
-/

namespace Analysis

/-- The environment in which the annotations of a module are evaluated. -/
def typeEnv? (a : Analysis) (module : String) : Option TypeEnv :=
  (a.state? module).bind fun s => s.merged.map fun merged => ⟨a, s.id, s.name, merged⟩

/-- Types are evaluated in the analysis that they belong to. -/
theorem analysis_of_typeEnv? {a : Analysis} {module : String} {env : TypeEnv}
    (h : a.typeEnv? module = some env) : env.analysis = a := by
  obtain ⟨s, _, h⟩ := Option.bind_eq_some_iff.mp h
  obtain ⟨merged, _, rfl⟩ := Option.map_eq_some_iff.mp h
  rfl

/-- The modules of the package. -/
def hiddenAliasInputs : List ModuleInput := [
  { name := "pkg", isPackage := true, source := some (.parse "from . import m as s\n" "pkg" true) },
  { name := "pkg.m", source := some (.parse "from .s import x\n\nv: x.y\n" "pkg.m" false) },
  { name := "pkg.s", source := some (.parse "x = 1\n" "pkg.s" false) }]

/-- The package without `s`, when its modules are registered and merged and its imports are
    followed. -/
def hiddenAlias : Analysis :=
  (Analysis.start "pkg" hiddenAliasInputs { skip := .ofList ["pkg.s"] }).prepare.resolveImports

/-- Behind the hidden alias every lookup is followed by another. -/
theorem not_acc_hiddenAlias : ¬ Acc hiddenAlias.Follows ["pkg", "s", "x", "y"] := by
  have hto : hiddenAlias.Follows ["pkg", "m", "x", "y"] ["pkg", "s", "x", "y"] := by
    unfold Follows
    decide +kernel
  have hback : hiddenAlias.Follows ["pkg", "s", "x", "y"] ["pkg", "m", "x", "y"] := by
    unfold Follows
    decide +kernel
  exact not_acc_of_transGen_self (.tail (.single hback) hto)

/-- The annotation `x.y` of the module `m` has no type, because following its path has no end. -/
theorem evaluate_hiddenAlias :
    (hiddenAlias.typeEnv? "pkg.m").map (fun env => env.evaluate none "x.y") = some none ∧
      hiddenAlias.pathTarget ["pkg", "s", "x", "y"] = none := by
  have hpath : hiddenAlias.pathTarget ["pkg", "s", "x", "y"] = none := by
    rw [← Option.not_isSome_iff_eq_none, pathTarget_isSome_iff]
    exact not_acc_hiddenAlias
  refine ⟨?_, hpath⟩
  have hany : (hiddenAlias.typeEnv? "pkg.m").any (fun env =>
      decide ("x.y" ∈ env.lookups none "x.y") &&
        decide (env.pathOf? none "x.y" = some ["pkg", "s", "x", "y"])) = true := by
    decide +kernel
  obtain ⟨env, henv, hfacts⟩ := (Option.any_eq_true _ _).mp hany
  obtain ⟨hmem, hpathOf⟩ : "x.y" ∈ env.lookups none "x.y" ∧
      env.pathOf? none "x.y" = some ["pkg", "s", "x", "y"] := by
    simpa using hfacts
  have htarget : (env.target none "x.y").run = none := by
    rw [TypeEnv.target_run_eq_none_iff, analysis_of_typeEnv? henv]
    exact ⟨_, hpathOf, hpath⟩
  rw [henv, Option.map_some, (TypeEnv.evaluate_eq_none_iff "x.y").mpr ⟨"x.y", hmem, htarget⟩]

end Analysis
end PackageDoc
