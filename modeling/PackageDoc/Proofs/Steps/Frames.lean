import PackageDoc.Analysis.Rules
import PackageDoc.Proofs.Types.Completeness

namespace PackageDoc

/-!
# What the steps leave as it was

The steps after merging fill tables, report, and give types to annotations.  None of them touches
anything else.  Whatever steps are taken, in any order and more than once, with further modules added
in between, modules and index stay together.

* `MergedModule.untyped` — a view without the types of its annotations;
* `MergedModule.untyped_resolveAt` — recording a type changes nothing but types;
* `Analysis.LinksOnly`, `Analysis.TypesOnly` and `Analysis.RulesOnly` — what each step may change;
* `Analysis.linksOnly_resolveImports`, `Analysis.typesOnly_evaluateTypes` and
  `Analysis.rulesOnly_applyVisibility` — that it changes no more;
* `Analysis.Reached` — the analyses that the steps lead to;
* `Analysis.Reached.wellIndexed` — their modules have distinct names and stand where the index
  says.
-/

/-! ### Views without types -/

/-- The annotation as it was before it had a type. -/
def TypeHint.untyped (h : TypeHint) : TypeHint :=
  { h with resolved := none }

mutual

/-- A definition without the types of the annotations in it and below it. -/
def MergedMember.untyped : MergedMember → MergedMember
  | ⟨name, line, docstring, shape, members⟩ =>
    ⟨name, line, docstring, shape.mapHints TypeHint.untyped, MergedMember.untypedList members⟩

/-- Definitions without the types of the annotations in them and below them. -/
def MergedMember.untypedList : List MergedMember → List MergedMember
  | [] => []
  | m :: ms => m.untyped :: MergedMember.untypedList ms

end

/-- A view without the types of its annotations. -/
def MergedModule.untyped (m : MergedModule) : MergedModule :=
  { m with items := m.items.map (MergedItem.mapMember MergedMember.untyped) }

/-- Evaluating an annotation changes its type alone. -/
theorem TypeHint.untyped_resolve (type : TypeRef) (h : TypeHint) :
    (h.resolve type).untyped = h.untyped := rfl

/-- So it is where there may be none. -/
theorem map_untyped_resolve (type : TypeRef) (hint : Option TypeHint) :
    (hint.map (TypeHint.resolve · type)).map TypeHint.untyped = hint.map TypeHint.untyped := by
  cases hint <;> rfl

/-- Changing an element of a list in a way that `g` does not see. -/
theorem map_modify {α β : Type} {f : α → α} {g : α → β} (h : ∀ x, g (f x) = g x) (l : List α)
    (i : Nat) : (l.modify i f).map g = l.map g := by
  induction l generalizing i with
  | nil => cases i <;> rfl
  | cons x l ih =>
    cases i with
    | zero => simp [h]
    | succ i => simp [ih]

/-- What a change leaves alone is left alone in a list. -/
theorem map_modifyFirst {α β : Type} {p : α → Bool} {f : α → α} {g : α → β}
    (h : ∀ x, g (f x) = g x) (l : List α) : (modifyFirst p f l).map g = l.map g := by
  induction l with
  | nil => rfl
  | cons x l ih =>
    rw [modifyFirst]
    split
    · rw [List.map_cons, List.map_cons, h]
    · rw [List.map_cons, List.map_cons, ih]

/-- Evaluating a parameter changes types of a function alone. -/
theorem FunctionDecl.untyped_resolveParam (decl : FunctionDecl) (index : Nat) (type : TypeRef) :
    (decl.resolveParam index type).mapHints TypeHint.untyped = decl.mapHints TypeHint.untyped := by
  have hparams : (decl.params.modify index fun p =>
        { p with hint := p.hint.map (·.resolve type) }).map
          (fun p => { p with hint := p.hint.map TypeHint.untyped }) =
      decl.params.map fun p => { p with hint := p.hint.map TypeHint.untyped } := by
    refine map_modify (fun p => ?_) _ _
    rw [map_untyped_resolve]
  rw [FunctionDecl.mapHints, FunctionDecl.mapHints, FunctionDecl.resolveParam, hparams]

/-- So does evaluating what it returns. -/
theorem FunctionDecl.untyped_resolveReturns (decl : FunctionDecl) (type : TypeRef) :
    (decl.resolveReturns type).mapHints TypeHint.untyped = decl.mapHints TypeHint.untyped := by
  rw [FunctionDecl.mapHints, FunctionDecl.mapHints, FunctionDecl.resolveReturns, map_untyped_resolve]

/-- A change of one declaration of a function that is one of types only. -/
theorem MemberShape.untyped_modify {f : FunctionDecl → FunctionDecl}
    (h : ∀ decl, (f decl).mapHints TypeHint.untyped = decl.mapHints TypeHint.untyped)
    (group : FunctionGroup) (place : Nat) :
    (MemberShape.function (group.modify place f)).mapHints TypeHint.untyped =
      (MemberShape.function group).mapHints TypeHint.untyped := by
  obtain ⟨overloads, implementation⟩ := group
  rw [FunctionGroup.modify]
  split
  · rw [MemberShape.mapHints, MemberShape.mapHints, map_modify h]
  · cases implementation with
    | none => rfl
    | some decl =>
      rw [MemberShape.mapHints, MemberShape.mapHints, Option.map_some, Option.map_some,
        Option.map_some, h]

/-- Evaluating any annotation of a member changes its type alone. -/
theorem MemberShape.untyped_resolve (shape : MemberShape) (type : TypeRef) (place : HintPlace) :
    (shape.resolve type place).mapHints TypeHint.untyped = shape.mapHints TypeHint.untyped := by
  cases shape with
  | classDef bases decorators =>
    cases place with
    | base index =>
      rw [MemberShape.resolve, MemberShape.mapHints, MemberShape.mapHints,
        map_modify (TypeHint.untyped_resolve type)]
    | _ => rfl
  | function group =>
    cases place with
    | param decl index => exact untyped_modify (fun d => d.untyped_resolveParam index type) group decl
    | returns decl => exact untyped_modify (fun d => d.untyped_resolveReturns type) group decl
    | _ => rfl
  | «variable» hint value instanceVar typeChecking =>
    cases place with
    | type => rw [MemberShape.resolve, MemberShape.mapHints, MemberShape.mapHints, map_untyped_resolve]
    | _ => rfl

/-- Members are stripped of their types one by one. -/
theorem MergedMember.untypedList_eq_map (ms : List MergedMember) :
    untypedList ms = ms.map untyped := by
  induction ms with
  | nil => rfl
  | cons m ms ih => rw [untypedList, ih, List.map_cons]

/-- Evaluating an annotation at a path changes types alone. -/
theorem MergedMember.untyped_resolveAt (place : HintPlace) (type : TypeRef) (path : List String)
    (m : MergedMember) : (m.resolveAt place type path).untyped = m.untyped := by
  induction path generalizing m with
  | nil =>
    obtain ⟨name, line, docstring, shape, members⟩ := m
    rw [resolveAt, untyped, untyped, MemberShape.untyped_resolve]
  | cons name path ih =>
    obtain ⟨_, line, docstring, shape, members⟩ := m
    rw [resolveAt, untyped, untyped, untypedList_eq_map, untypedList_eq_map, map_modifyFirst ih]

/-- **Recording a type changes nothing but types.** -/
theorem MergedModule.untyped_resolveAt (m : MergedModule) (place : HintPlace) (type : TypeRef)
    (path : List String) : (m.resolveAt place type path).untyped = m.untyped := by
  cases path with
  | nil => rfl
  | cons name path =>
    have hitem : ∀ item : MergedItem,
        (item.mapMember (MergedMember.resolveAt place type path)).mapMember MergedMember.untyped =
          item.mapMember MergedMember.untyped := by
      intro item
      cases item with
      | member m => exact congrArg MergedItem.member (m.untyped_resolveAt place type path)
      | external name decl => rfl
    rw [MergedModule.resolveAt, MergedModule.untyped, MergedModule.untyped, map_modifyFirst hitem]

/-! ### What a step may change -/

/-- The same module but for what is reported of it. -/
def ModuleState.SameButReports (s t : ModuleState) : Prop :=
  t = { s with diagnostics := t.diagnostics }

namespace ModuleState.SameButReports

variable {s t : ModuleState}

theorem name (h : s.SameButReports t) : t.name = s.name :=
  (congrArg ModuleState.name h :)

theorem id (h : s.SameButReports t) : t.id = s.id :=
  (congrArg ModuleState.id h :)

theorem merged (h : s.SameButReports t) : t.merged = s.merged :=
  (congrArg ModuleState.merged h :)

/-- Further reports change nothing more. -/
theorem report (h : s.SameButReports t) (ds : List Diagnostic) : s.SameButReports (t.report ds) := by
  rw [SameButReports] at h ⊢
  rw [h]
  rfl

end ModuleState.SameButReports

/-- The same module but for the types of its annotations and what is reported of its definitions. -/
structure ModuleState.SameButTypes (s t : ModuleState) : Prop where
  rest : t = { s with merged := t.merged, nodeDiagnostics := t.nodeDiagnostics }
  merged : t.merged.map MergedModule.untyped = s.merged.map MergedModule.untyped

namespace Analysis

/-- The analyses differ in their links and in what is reported of modules. -/
structure LinksOnly (a b : Analysis) : Prop where
  rest : b = { a with modules := b.modules, links := b.links }
  modules : List.Forall₂ ModuleState.SameButReports a.modules b.modules

/-- The analyses differ in the types of annotations and in what is reported of definitions. -/
structure TypesOnly (a b : Analysis) : Prop where
  rest : b = { a with modules := b.modules }
  modules : List.Forall₂ ModuleState.SameButTypes a.modules b.modules

/-- The analyses differ in their rules and in what is reported of modules. -/
structure RulesOnly (a b : Analysis) : Prop where
  rest : b = { a with modules := b.modules, rules := b.rules, referenceRules := b.referenceRules }
  modules : List.Forall₂ ModuleState.SameButReports a.modules b.modules

/-- Resolving imports changes links and reports alone. -/
theorem linksOnly_resolveImports (a : Analysis) : a.LinksOnly a.resolveImports := by
  refine ⟨rfl, List.forall₂_map_right_iff.mpr (List.forall₂_same.mpr fun s _ => ?_)⟩
  rfl

/-- Applying an evaluation changes types and reports alone. -/
theorem sameButTypes_applyEvaluation (s : ModuleState) (e : Evaluation) :
    s.SameButTypes (applyEvaluation s e) := by
  obtain ⟨path, line, place, raw, type⟩ := e
  have hmerged : ∀ (merged : Option MergedModule) (type : TypeRef),
      (merged.map fun m => m.resolveAt place type path).map MergedModule.untyped =
        merged.map MergedModule.untyped := by
    intro merged type
    cases merged with
    | none => rfl
    | some m => exact congrArg some (m.untyped_resolveAt place type path)
  rw [applyEvaluation]
  cases type with
  | none => exact ⟨rfl, rfl⟩
  | some type =>
    dsimp only
    split
    · exact ⟨rfl, hmerged s.merged type⟩
    · exact ⟨rfl, hmerged s.merged type⟩

/-- So does applying several. -/
theorem sameButTypes_foldl (es : List Evaluation) (s : ModuleState) :
    s.SameButTypes (es.foldl applyEvaluation s) := by
  induction es generalizing s with
  | nil => exact ⟨rfl, rfl⟩
  | cons e es ih =>
    have hone := sameButTypes_applyEvaluation s e
    have hrest := ih (applyEvaluation s e)
    refine ⟨?_, hrest.merged.trans hone.merged⟩
    rw [List.foldl_cons]
    calc es.foldl applyEvaluation (applyEvaluation s e)
        = { applyEvaluation s e with
            merged := (es.foldl applyEvaluation (applyEvaluation s e)).merged
            nodeDiagnostics := (es.foldl applyEvaluation (applyEvaluation s e)).nodeDiagnostics } :=
          hrest.rest
      _ = { s with
            merged := (es.foldl applyEvaluation (applyEvaluation s e)).merged
            nodeDiagnostics := (es.foldl applyEvaluation (applyEvaluation s e)).nodeDiagnostics } := by
          rw [hone.rest]

/-- So does evaluating all. -/
theorem typesOnly_evaluateTypes (a : Analysis) : a.TypesOnly a.evaluateTypes := by
  rw [evaluateTypes_eq]
  refine ⟨rfl, List.forall₂_map_right_iff.mpr (List.forall₂_same.mpr fun s _ => ?_)⟩
  exact sameButTypes_foldl (a.evaluationsOf s) s

/-- Applying a rule changes the tables of rules and the reports alone. -/
theorem applyRule_rest (id : ModuleId) (a b : Analysis)
    (rule : String × RuleEffect × Except RuleError RuleTarget)
    (h : b = { a with rules := b.rules, referenceRules := b.referenceRules }) :
    applyRule id b rule = { a with
      rules := (applyRule id b rule).rules
      referenceRules := (applyRule id b rule).referenceRules } := by
  rw [h]
  obtain ⟨_, effect, _ | ⟨module, qualname⟩ | name⟩ := rule <;> rfl

/-- So does applying all of them. -/
theorem rulesOnly_applyVisibility (a : Analysis) : a.RulesOnly a.applyVisibility := by
  have hrest : a.modules.foldl (fun b s => (a.rulesOf s).foldl (applyRule s.id) b) a =
      { a with
        rules := a.applyVisibility.rules
        referenceRules := a.applyVisibility.referenceRules } := by
    let Keeps (b : Analysis) : Prop := b = { a with rules := b.rules, referenceRules := b.referenceRules }
    show Keeps (a.modules.foldl (fun b s => (a.rulesOf s).foldl (applyRule s.id) b) a)
    refine List.foldlRecOn _ _ rfl fun b hb s _ => ?_
    exact List.foldlRecOn _ _ hb fun b hb rule _ => applyRule_rest s.id a b rule hb
  refine ⟨?_, List.forall₂_map_right_iff.mpr (List.forall₂_same.mpr fun s _ => ?_)⟩
  · rw [Analysis.applyVisibility]
    dsimp only
    rw [hrest]
  · rfl

end Analysis

/-! ### The analyses that the steps lead to -/

namespace Analysis

/-- The analyses that the steps lead to from the beginning of one. -/
inductive Reached (root : String) (inputs : List ModuleInput) (config : Config) : Analysis → Prop
  | start : Reached root inputs config (Analysis.start root inputs config)
  | add {a : Analysis} (h : Reached root inputs config a) (input : ModuleInput) :
    Reached root inputs config { a with pending := a.pending ++ [input] }
  | register {a : Analysis} (h : Reached root inputs config a) : Reached root inputs config a.register
  | mergeModules {a : Analysis} (h : Reached root inputs config a) :
    Reached root inputs config a.mergeModules
  | resolveImports {a : Analysis} (h : Reached root inputs config a) :
    Reached root inputs config a.resolveImports
  | evaluateTypes {a : Analysis} (h : Reached root inputs config a) :
    Reached root inputs config a.evaluateTypes
  | applyVisibility {a : Analysis} (h : Reached root inputs config a) :
    Reached root inputs config a.applyVisibility

variable {a : Analysis} {root : String} {inputs : List ModuleInput} {config : Config}

/-- Evaluating types keeps the index and the arena in agreement. -/
theorem WellIndexed.evaluateTypes (h : a.WellIndexed) : a.evaluateTypes.WellIndexed := by
  rw [evaluateTypes_eq]
  exact h.map rfl rfl a.evaluated_name a.evaluated_id

/-- So does applying the rules of visibility. -/
theorem WellIndexed.applyVisibility (h : a.WellIndexed) : a.applyVisibility.WellIndexed :=
  h.map rfl (congrArg Analysis.moduleIndex a.rulesOnly_applyVisibility.rest :) (fun _ => rfl)
    fun _ => rfl

/-- **Modules and index fit together**, whatever steps were taken. -/
theorem Reached.wellIndexed (h : Reached root inputs config a) : a.WellIndexed := by
  induction h with
  | start => exact .start root inputs config
  | add _ _ ih => exact ⟨ih.names, ih.numbered, ih.index⟩
  | register _ ih => exact ih.register
  | mergeModules _ ih => exact ih.mergeModules
  | resolveImports _ ih => exact ih.resolveImports
  | evaluateTypes _ ih => exact ih.evaluateTypes
  | applyVisibility _ ih => exact ih.applyVisibility

end Analysis

end PackageDoc
