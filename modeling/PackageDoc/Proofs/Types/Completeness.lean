import PackageDoc.Proofs.Imports.Alike
import PackageDoc.Proofs.Types.Recording
import PackageDoc.Proofs.Types.Results

namespace PackageDoc

/-!
# Every annotation gets its type

Modules are evaluated one after the other, so that an annotation is evaluated when those of earlier
modules have their types.  That makes no difference to it, since a type depends on the names that
modules bind.

* `TypeEnv.evaluate_congr` — types depend on the targets of names;
* `Analysis.evaluateTypes_eq` — it is as if all modules were evaluated at once;
* `ModuleState.reportsAt` — what is reported of the definitions with a dotted path;
* `Analysis.evaluateTypes_typed` — what evaluation makes of an analysis: the types of all
  annotations, the form of these types and the reports at each definition.
-/

/-! ### What types depend on -/

namespace TypeEnv

variable {env env' : TypeEnv} {scope : Option ClassScope}

/-- An expression has one value where names have the same targets. -/
theorem evalExpr_congr (h : ∀ name, env.target scope name = env'.target scope name)
    (text : String) (forward : String → Eval TypeRef) (e : Expr) :
    env.evalExpr scope text forward e = env'.evalExpr scope text forward e := by
  apply evalExpr.induct
    (fun e => env.evalExpr scope text forward e = env'.evalExpr scope text forward e)
    (fun es => env.evalFirst scope text forward es = env'.evalFirst scope text forward es)
    (fun es => env.evalAll scope text forward es = env'.evalAll scope text forward es)
  all_goals
    intros
    simp_all only [evalExpr, evalFirst, evalAll]

/-- So have the links of a text. -/
theorem linksAt_congr (h : ∀ name, env.target scope name = env'.target scope name) (text : String)
    (spans : List Span) : env.linksAt scope text spans = env'.linksAt scope text spans := by
  induction spans with
  | nil => rfl
  | cons span spans ih => simp only [linksAt, h, ih]

/-- So has a text. -/
theorem evalText_congr (h : ∀ name, env.target scope name = env'.target scope name) (depth : Nat) :
    env.evalText scope depth = env'.evalText scope depth := by
  induction depth with
  | zero => rfl
  | succ depth ih =>
    funext raw
    simp only [evalText, evalTrimmed, links, linksAt_congr h, evalExpr_congr h, ih]

/-- Types depend on the targets of names. -/
theorem evaluate_congr (h : ∀ name, env.target scope name = env'.target scope name) (raw : String) :
    env.evaluate scope raw = env'.evaluate scope raw := by
  rw [evaluate, evaluate, evalText_congr h]

end TypeEnv

/-! ### Modules one after the other -/

mutual

/-- The annotations of a member have one value where names have the same targets. -/
theorem MergedMember.evaluations_congr {env env' : TypeEnv}
    (h : ∀ scope name, env.target scope name = env'.target scope name) :
    ∀ (m : MergedMember) (path : List String) (scope : Option ClassScope),
      m.evaluations env path scope = m.evaluations env' path scope
  | ⟨name, line, docstring, shape, members⟩, path, scope => by
    simp only [evaluations_mk, TypeEnv.evaluate_congr (h scope),
      evaluationsList_congr h members]

/-- So have those of several. -/
theorem MergedMember.evaluationsList_congr {env env' : TypeEnv}
    (h : ∀ scope name, env.target scope name = env'.target scope name) :
    ∀ (ms : List MergedMember) (path : List String) (scope : Option ClassScope),
      evaluationsList env path scope ms = evaluationsList env' path scope ms
  | [], _, _ => by simp only [evaluationsList]
  | m :: ms, path, scope => by
    simp only [evaluationsList, evaluations_congr h m, evaluationsList_congr h ms]

end

/-- What a change leaves alone is left alone among what is picked from a list. -/
theorem filterMap_modifyFirst {α β : Type} {f : α → α} {g : α → Option β}
    (h : ∀ x, g (f x) = g x) (p : α → Bool) (l : List α) :
    (modifyFirst p f l).filterMap g = l.filterMap g := by
  induction l with
  | nil => rfl
  | cons x l ih =>
    rw [modifyFirst]
    split
    · rw [List.filterMap_cons, List.filterMap_cons, h]
    · rw [List.filterMap_cons, List.filterMap_cons, ih]

/-- Views with the same names of definitions and the same imports bind alike. -/
theorem MergedModule.bindsAlike_of_names {m n : MergedModule}
    (hnames : m.members.map MergedMember.name = n.members.map MergedMember.name)
    (hexternals : m.externals = n.externals) : m.BindsAlike n := by
  have hfind : ∀ (ms : List MergedMember) (name : String),
      (MergedMember.find? ms name).isSome = decide (name ∈ ms.map MergedMember.name) := by
    intro ms name
    rw [Bool.eq_iff_iff]
    simp [MergedMember.find?]
  refine ⟨fun name => ?_, hexternals⟩
  rw [MergedModule.member?, MergedModule.member?, hfind, hfind, hnames]

/-- Recording a type changes no names. -/
theorem MergedModule.bindsAlike_recordTo (m : MergedModule) (path : List String)
    (place : HintPlace) (type : Option TypeRef) : (m.recordTo path place type).BindsAlike m := by
  match type, path with
  | none, _ | some _, [] => exact ⟨fun _ => rfl, rfl⟩
  | some type, name :: path =>
    have hname : ∀ item : MergedItem,
        (item.mapMember (MergedMember.resolveAt place type path)).member?.map MergedMember.name =
          item.member?.map MergedMember.name := by
      intro item
      cases item with
      | external name decl => rfl
      | member d => exact congrArg some (MergedMember.name_recordTo d path place (some type))
    refine MergedModule.bindsAlike_of_names ?_ (filterMap_modifyFirst (fun item => ?_) _ m.items)
    · rw [MergedModule.members, MergedModule.members, List.map_filterMap, List.map_filterMap]
      exact filterMap_modifyFirst hname _ m.items
    · cases item <;> rfl

namespace Analysis

variable {a b : Analysis}

/-- What a name refers to depends on the names that modules bind and the origins of imports. -/
theorem BindsAlike.evaluationsOf (h : a.BindsAlike b) (hlinks : a.links = b.links)
    (s : ModuleState) : a.evaluationsOf s = b.evaluationsOf s := by
  unfold Analysis.evaluationsOf
  cases s.merged with
  | none => rfl
  | some merged =>
    refine MergedMember.evaluationsList_congr (fun scope name => ?_) _ _ _
    simp only [TypeEnv.target, hlinks, funext h.knowsAlike.pathTarget]

/-- A module with the types of its annotations. -/
def evaluated (a : Analysis) (s : ModuleState) : ModuleState :=
  (a.evaluationsOf s).foldl applyEvaluation s

/-- Recording types changes the view and the reports of a module, and nothing else. -/
theorem foldl_applyEvaluation (es : List Evaluation) (s : ModuleState) :
    ∃ table, es.foldl applyEvaluation s =
      { s with
        merged := s.merged.map fun m =>
          es.foldl (fun (m : MergedModule) e => m.recordTo e.path e.place e.type) m
        nodeDiagnostics := table } := by
  induction es generalizing s with
  | nil => exact ⟨s.nodeDiagnostics, by simp⟩
  | cons e es ih =>
    obtain ⟨table, htable⟩ : ∃ table, applyEvaluation s e =
        { s with
          merged := s.merged.map fun m => m.recordTo e.path e.place e.type
          nodeDiagnostics := table } := by
      obtain ⟨_, _, _, merged, _, _⟩ := s
      unfold applyEvaluation
      cases merged <;> cases e.type <;> cases e.diagnostic? <;> exact ⟨_, rfl⟩
    obtain ⟨table', hfold⟩ := ih (applyEvaluation s e)
    refine ⟨table', ?_⟩
    rw [List.foldl_cons, hfold, htable, Option.map_map]
    rfl

/-- Recording types changes no names. -/
theorem bindsAlike_evaluated (a : Analysis) (s : ModuleState) : (a.evaluated s).BindsAlike s := by
  obtain ⟨table, htable⟩ := foldl_applyEvaluation (a.evaluationsOf s) s
  rw [evaluated, htable]
  refine ⟨rfl, ?_⟩
  cases s.merged with
  | none => exact .none
  | some m =>
    refine .some ?_
    -- by the types that are recorded, from the last to the first
    generalize a.evaluationsOf s = es
    induction es generalizing m with
    | nil => exact ⟨fun _ => rfl, rfl⟩
    | cons e es ih =>
      have hrest := ih (m.recordTo e.path e.place e.type)
      have hfirst := m.bindsAlike_recordTo e.path e.place e.type
      exact ⟨fun name => (hrest.1 name).trans (hfirst.1 name), hrest.2.trans hfirst.2⟩

/-- Evaluating changes nothing of a module's name. -/
theorem evaluated_name (a : Analysis) (s : ModuleState) : (a.evaluated s).name = s.name :=
  (a.bindsAlike_evaluated s).1

/-- It changes nothing of its number. -/
theorem evaluated_id (a : Analysis) (s : ModuleState) : (a.evaluated s).id = s.id := by
  obtain ⟨table, htable⟩ := foldl_applyEvaluation (a.evaluationsOf s) s
  rw [evaluated, htable]

/-- Modules are evaluated as if all were evaluated at once: that earlier modules have their types
    makes no difference. -/
theorem evaluateTypes_eq (a : Analysis) :
    a.evaluateTypes = { a with modules := a.modules.map a.evaluated } := by
  -- some modules at the beginning have their types
  have hfrom : ∀ before after : List ModuleState, a.modules = before ++ after →
      (List.range' before.length after.length).foldl evaluateModule
          { a with modules := before.map a.evaluated ++ after } =
        { a with modules := (before ++ after).map a.evaluated } := by
    intro before after
    induction after generalizing before with
    | nil => simp
    | cons s after ih =>
      intro hmodules
      have halike : BindsAlike { a with modules := before.map a.evaluated ++ s :: after } a := by
        refine ⟨rfl, rfl, rfl, ?_⟩
        rw [hmodules]
        refine List.rel_append ?_ ?_
        · exact List.forall₂_map_left_iff.mpr
            (List.forall₂_same.mpr fun t _ => a.bindsAlike_evaluated t)
        · refine List.forall₂_same.mpr fun t _ => ⟨rfl, ?_⟩
          cases t.merged with
          | none => exact .none
          | some m => exact .some ⟨fun _ => rfl, rfl⟩
      have hstep : evaluateModule { a with modules := before.map a.evaluated ++ s :: after }
          before.length =
          { a with modules := (before ++ [s]).map a.evaluated ++ after } := by
        have hlength : before.length = (before.map a.evaluated).length := by simp
        rw [evaluateModule, hlength, modify_concat, halike.evaluationsOf rfl, List.map_append,
          List.append_assoc]
        rfl
      have hrest := ih (before ++ [s]) (by rw [hmodules, List.append_assoc, List.singleton_append])
      rw [List.length_append, List.length_singleton, List.append_assoc,
        List.singleton_append] at hrest
      rw [List.length_cons, List.range'_succ, List.foldl_cons, hstep, hrest]
  rw [evaluateTypes, List.range_eq_range']
  exact hfrom [] a.modules rfl

end Analysis

/-! ### Reports -/

/-- What is to be reported of an annotation of a definition at a line: nothing, unless its type is a
    text that is kept for a failure. -/
def failureOf (line : Option Nat) (raw : String) : Option TypeRef → Option Diagnostic
  | some (.raw text reason links) =>
    if (TypeRef.raw text reason links).isFailure then
      some { finding := .annotationNotEvaluated raw reason, line := line }
    else none
  | _ => none

/-- The reports of a definition: one for each annotation that fails, in the order of the
    annotations. -/
def MemberNode.failures (env : TypeEnv) (n : MemberNode) : List Diagnostic :=
  n.member.shape.hints.filterMap fun (_, hint) =>
    failureOf n.member.knownLine hint.raw (env.evaluate n.scope hint.raw)

/-- What was reported of the definitions with a dotted path. -/
def ModuleState.reportsAt (s : ModuleState) (qualname : String) : List Diagnostic :=
  (Assoc.get? s.nodeDiagnostics qualname).getD []

/-- A report for a definition is added behind those that it has. -/
theorem reportsAt_reportNode (s : ModuleState) (qualname other : String) (d : Diagnostic) :
    (s.reportNode qualname d).reportsAt other =
      s.reportsAt other ++ if qualname = other then [d] else [] := by
  rw [ModuleState.reportsAt, ModuleState.reportNode, Assoc.get?_bind]
  split
  · rename_i h
    rw [h, ModuleState.reportsAt, Option.getD_some]
  · rw [ModuleState.reportsAt, List.append_nil]

/-- So is what an evaluation reports. -/
theorem reportsAt_applyEvaluation (s : ModuleState) (e : Evaluation) (qualname : String) :
    (Analysis.applyEvaluation s e).reportsAt qualname = s.reportsAt qualname ++
      ([e].filter fun e => dotted e.path = qualname).filterMap Evaluation.diagnostic? := by
  cases hd : e.diagnostic? with
  | none =>
    have hreport : (Analysis.applyEvaluation s e).reportsAt qualname = s.reportsAt qualname := by
      simp only [Analysis.applyEvaluation, hd]
      cases e.type <;> rfl
    by_cases hpath : dotted e.path = qualname <;> simp [hreport, hpath, hd]
  | some d =>
    have hreport : (Analysis.applyEvaluation s e).reportsAt qualname =
        (s.reportNode (dotted e.path) d).reportsAt qualname := by
      simp only [Analysis.applyEvaluation, hd]
      cases e.type <;> rfl
    rw [hreport, reportsAt_reportNode]
    by_cases hpath : dotted e.path = qualname <;> simp [hpath, hd]

/-- What is reported of the definitions with a dotted path while types are recorded. -/
theorem reportsAt_foldl_applyEvaluation (es : List Evaluation) (s : ModuleState)
    (qualname : String) :
    (es.foldl Analysis.applyEvaluation s).reportsAt qualname =
      s.reportsAt qualname ++
        (es.filter fun e => dotted e.path = qualname).filterMap Evaluation.diagnostic? := by
  induction es generalizing s with
  | nil => simp
  | cons e es ih =>
    rw [List.foldl_cons, ih, reportsAt_applyEvaluation, List.append_assoc, ← List.filterMap_append,
      ← List.filter_append, List.singleton_append]

/-- The evaluated annotations of a definition. -/
def MemberNode.evaluations (env : TypeEnv) (n : MemberNode) : List Evaluation :=
  n.member.shape.hints.map fun x =>
    ⟨n.path, n.member.knownLine, x.1, x.2.raw, env.evaluate n.scope x.2.raw⟩

mutual

/-- The annotations of a member are those of its nodes, in order. -/
theorem MergedMember.evaluations_eq (env : TypeEnv) : ∀ (m : MergedMember) (path : List String)
    (scope : Option ClassScope),
      m.evaluations env path scope = (m.nodes path scope).flatMap (MemberNode.evaluations env)
  | ⟨name, line, docstring, shape, members⟩, path, scope => by
    rw [evaluations_mk, nodes, List.flatMap_cons, evaluationsList_eq env members]
    rfl

/-- The annotations of a body are those of all definitions in it and below them. -/
theorem MergedMember.evaluationsList_eq (env : TypeEnv) : ∀ (ms : List MergedMember)
    (path : List String) (scope : Option ClassScope),
      evaluationsList env path scope ms =
        (nodesList path scope ms).flatMap (MemberNode.evaluations env)
  | [], _, _ => by simp [evaluationsList, nodesList]
  | m :: ms, path, scope => by
    rw [evaluationsList, nodesList, List.flatMap_append, evaluations_eq env m,
      evaluationsList_eq env ms]

end

/-- The reports of a definition are those of its evaluated annotations. -/
theorem MemberNode.failures_eq (env : TypeEnv) (n : MemberNode) :
    (n.evaluations env).filterMap Evaluation.diagnostic? = n.failures env := by
  rw [MemberNode.evaluations, MemberNode.failures, List.filterMap_map]
  refine List.filterMap_congr fun x _ => ?_
  simp only [Function.comp_apply, Evaluation.diagnostic?, Evaluation.failure?]
  cases env.evaluate n.scope x.2.raw with
  | none => rfl
  | some type =>
    match type with
    | .raw text reason links =>
      simp only [failureOf]
      split <;> rfl
    | .resolved _ | .generic _ _ | .union _ | .literal _ | .params _ | .ellipsis => rfl

/-- The annotations at a dotted path are those of the definitions with that path. -/
theorem filterMap_filter_evaluations (env : TypeEnv) (nodes : List MemberNode)
    (qualname : String) :
    ((nodes.flatMap (MemberNode.evaluations env)).filter
        fun e => dotted e.path = qualname).filterMap Evaluation.diagnostic? =
      (nodes.filter fun n => dotted n.path = qualname).flatMap (MemberNode.failures env) := by
  induction nodes with
  | nil => rfl
  | cons n nodes ih =>
    -- all annotations of a definition have its path
    have hown : (n.evaluations env).filter (fun e => dotted e.path = qualname) =
        if dotted n.path = qualname then n.evaluations env else [] := by
      split
      · rename_i hpath
        refine List.filter_eq_self.mpr fun e he => ?_
        obtain ⟨x, -, rfl⟩ := List.mem_map.mp he
        simpa using hpath
      · rename_i hpath
        refine List.filter_eq_nil_iff.mpr fun e he => ?_
        obtain ⟨x, -, rfl⟩ := List.mem_map.mp he
        simpa using hpath
    rw [List.flatMap_cons, List.filter_append, List.filterMap_append, ih, hown]
    by_cases hpath : dotted n.path = qualname
    · simp [hpath, MemberNode.failures_eq]
    · simp [hpath]

/-! ### The analysis -/

namespace Analysis

/-- The environment in which the annotations of a module are evaluated. -/
def envOf (a : Analysis) (s : ModuleState) (m : MergedModule) : TypeEnv :=
  ⟨a, s.id, s.name, m⟩

/-- What evaluation in `a` is to make of a module `s`. -/
structure Evaluated (a : Analysis) (s t : ModuleState) : Prop where
  /-- Nothing but the view and the reports of definitions changes. -/
  same : t = { s with merged := t.merged, nodeDiagnostics := t.nodeDiagnostics }
  /-- Every annotation has the type that its text is evaluated to. -/
  merged : t.merged = s.merged.map fun m => m.typed (a.envOf s m)
  /-- The type of an annotation is the whole text, or nothing failed in it. -/
  types : ∀ m ∈ s.merged, ∀ n ∈ m.nodes, ∀ x ∈ n.member.shape.hints, ∀ type,
    (a.envOf s m).evaluate n.scope x.2.raw = some type →
      (∃ reason, reason ≠ .alternateSyntax ∧ type = .raw (trimmed x.2.raw) reason []) ∨
        ∀ part ∈ type.parts, part.isFailure = false
  /-- The reports of the definitions with a dotted path are those of their annotations that
      failed. -/
  reports : ∀ qualname, t.reportsAt qualname = (s.merged.elim [] fun m =>
    (m.nodes.filter fun n => dotted n.path = qualname).flatMap (MemberNode.failures (a.envOf s m)))

/-- **Evaluation is complete and loses no failure.**  Every annotation of every module gets the type
    that its text is evaluated to before any annotation has one; a type is the whole text, or
    nothing failed in it; and at each dotted path stands one report for each annotation that
    failed. -/
theorem evaluateTypes_typed (root : String) (inputs : List ModuleInput) (config : Config)
    (hread : ∀ input ∈ inputs, input.IsRead)
    (hnames : ∀ input ∈ inputs, input.HasDistinctNames) :
    List.Forall₂ (linked root inputs config).Evaluated (linked root inputs config).modules
      (linked root inputs config).evaluateTypes.modules := by
  rw [evaluateTypes_eq]
  refine List.forall₂_map_right_iff.mpr (List.forall₂_same.mpr fun s hs => ?_)
  obtain ⟨table, htable⟩ := foldl_applyEvaluation ((linked root inputs config).evaluationsOf s) s
  rw [← evaluated] at htable
  refine ⟨by rw [htable], ?_, ?_, ?_⟩
  · rw [htable]
    cases hmerged : s.merged with
    | none => rfl
    | some m =>
      have hfresh := fresh_of_mem_linked hread hnames hs hmerged
      refine congrArg some ?_
      rw [evaluationsOf, hmerged]
      exact MergedModule.foldl_recordTo ((linked root inputs config).envOf s m) hfresh
  · intro m hm n hn x hx type htype
    obtain hbuilt | hraw := TypeEnv.evaluate_cases trivial (TypeEnv.yields_true_target _ _) htype
    · exact .inr hbuilt.not_isFailure
    · exact .inl hraw
  · intro qualname
    have hbefore : s.reportsAt qualname = [] := by
      rw [ModuleState.reportsAt, (stateAfter_linked s hs).nodeDiagnostics]
      rfl
    rw [evaluated, reportsAt_foldl_applyEvaluation, hbefore, List.nil_append, evaluationsOf]
    cases s.merged with
    | none => rfl
    | some m =>
      exact (congrArg (fun es : List Evaluation =>
        (es.filter fun e => dotted e.path = qualname).filterMap Evaluation.diagnostic?)
          (MergedMember.evaluationsList_eq _ _ _ _)).trans
        (filterMap_filter_evaluations _ m.nodes qualname)

/-- A package with an overloaded method of which two annotations name nothing. -/
def overloadedInputs : List ModuleInput := [
  { name := "pkg", isPackage := true, source := some (.parse "" "pkg" true) },
  { name := "pkg.m", source := some (.parse
      ("from typing import overload\n\nclass C:\n    @overload\n" ++
        "    def f(self, a: nope) -> C: ...\n    def f(self, a: int = 0) -> gone: ...\n")
      "pkg.m" false) }]

/-- Both annotations are reported at the method, that of the overload first. -/
theorem evaluateTypes_overloaded :
    (∀ input ∈ overloadedInputs, input.IsRead) ∧
    (∀ input ∈ overloadedInputs, input.HasDistinctNames) ∧
    List.Forall₂ (linked "pkg" overloadedInputs {}).Evaluated
      (linked "pkg" overloadedInputs {}).modules
      (linked "pkg" overloadedInputs {}).evaluateTypes.modules ∧
    ((linked "pkg" overloadedInputs {}).evaluateTypes.modules.map fun t => t.reportsAt "C.f") =
      [[], [
        { finding := .annotationNotEvaluated "nope" (.undefinedName "nope"), line := some 5 },
        { finding := .annotationNotEvaluated "gone" (.undefinedName "gone"), line := some 5 }]] := by
  have hread : ∀ input ∈ overloadedInputs, input.IsRead :=
    List.forall_mem_cons.mpr ⟨ModuleInput.isRead_of_source rfl rfl,
      List.forall_mem_cons.mpr ⟨ModuleInput.isRead_of_source rfl rfl, by simp⟩⟩
  have hnames : ∀ input ∈ overloadedInputs, input.HasDistinctNames := by
    simp [overloadedInputs, ModuleInput.HasDistinctNames, ImportOutcome.snapshot?]
  exact ⟨hread, hnames, evaluateTypes_typed "pkg" overloadedInputs {} hread hnames,
    by decide +kernel⟩

end Analysis
end PackageDoc
