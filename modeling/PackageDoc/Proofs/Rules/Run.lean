import PackageDoc.Proofs.Rules.Verdicts
import PackageDoc.Proofs.Steps.Frames

namespace PackageDoc

/-!
# Rules are settled one after the other

Applying the rules of a package comes to the same as settling them one by one: each is recorded once,
or it is reported once in the module that declares it.

* `Analysis.RuleStep` and `Analysis.RuleRun` — what settling one rule does, and settling several;
* `Analysis.foldl_settle` — what settling several rules comes to;
* `Analysis.applyVisibility_eq` — it comes to what applying them does;
* `Analysis.RuleRun.sound` — what is recorded is about definitions and imports;
* `Analysis.rulesSettled_unruled` — rules are sound, accounted for, and independent of the module that
  hands a definition on.
-/

/-- A rule where it is declared. -/
structure DeclaredRule where
  module : ModuleState
  key : String
  effect : RuleEffect

theorem ModuleState.report_nil (s : ModuleState) : s.report [] = s := by
  rw [ModuleState.report, List.append_nil]

/-- Two reports are one of both. -/
theorem ModuleState.report_report (s : ModuleState) (ds ds' : List Diagnostic) :
    (s.report ds).report ds' = s.report (ds ++ ds') := by
  show ({ s with diagnostics := (s.diagnostics ++ ds) ++ ds' } : ModuleState) = _
  rw [List.append_assoc]
  rfl

/-- In a list without repetitions, where only one element gives anything. -/
theorem flatMap_only {α β : Type} {xs : List α} {x : α} {f : α → List β} (hx : x ∈ xs)
    (hnodup : xs.Nodup) (h : ∀ y ∈ xs, y ≠ x → f y = []) : xs.flatMap f = f x := by
  obtain ⟨front, back, rfl⟩ := List.append_of_mem hx
  obtain ⟨-, hback, hapart⟩ := List.nodup_append.mp hnodup
  have hfront : front.flatMap f = [] := List.flatMap_eq_nil_iff.mpr fun y hy =>
    h y (List.mem_append_left _ hy) fun heq => hapart y hy x (by simp) heq
  have hrest : back.flatMap f = [] := List.flatMap_eq_nil_iff.mpr fun y hy =>
    h y (by simp [hy]) fun heq => (List.nodup_cons.mp hback).1 (heq ▸ hy)
  rw [List.flatMap_append, List.flatMap_cons, hfront, hrest, List.nil_append, List.append_nil]

namespace Analysis

variable {a b c : Analysis} {s : ModuleState} {rule : DeclaredRule} {rules : List DeclaredRule}

/-! ### One rule -/

/-- The rules that a module declares, in order. -/
def declaredBy (s : ModuleState) : List DeclaredRule :=
  (s.merged.getD {}).autodoc.map fun r => ⟨s, r.1, .ofValue r.2⟩

/-- The rules of all modules, in order. -/
def declaredRules (a : Analysis) : List DeclaredRule :=
  a.modules.flatMap declaredBy

/-- Report something about the module with a number. -/
def reportTo (a : Analysis) (id : ModuleId) (d : Diagnostic) : Analysis :=
  { a with modules := a.modules.map fun s => if s.id = id then s.report [d] else s }

/-- A rule is settled: it is recorded for the one thing that it is about, and nothing is reported; or
    it is about nothing, which is reported once in its module, and nothing is recorded. -/
inductive RuleStep (rule : DeclaredRule) (b : Analysis) : Analysis → Prop
  | definition {module qualname : String}
    (h : b.ruleTarget rule.module rule.key rule.effect = .ok (.definition module qualname)) :
    RuleStep rule b { b with rules := Assoc.bind b.rules (module, qualname) rule.effect }
  | reference {name : String}
    (h : b.ruleTarget rule.module rule.key rule.effect = .ok (.reference name)) :
    RuleStep rule b
      { b with referenceRules := Assoc.bind b.referenceRules (rule.module.id, name) rule.effect }
  | rejected {error : RuleError} {d : Diagnostic}
    (h : b.ruleTarget rule.module rule.key rule.effect = .error error)
    (hfinding : d.finding = .ruleRejected rule.key error) (hkind : d.kind = .visibilityScope) :
    RuleStep rule b (b.reportTo rule.module.id d)

/-- Rules are settled one after the other. -/
inductive RuleRun : List DeclaredRule → Analysis → Analysis → Prop
  | nil (b : Analysis) : RuleRun [] b b
  | cons {rule : DeclaredRule} {rules : List DeclaredRule} {b c d : Analysis}
    (step : RuleStep rule b c) (rest : RuleRun rules c d) : RuleRun (rule :: rules) b d

/-- Settle a rule. -/
def settle (b : Analysis) (rule : DeclaredRule) : Analysis :=
  match b.ruleTarget rule.module rule.key rule.effect with
  | .ok (.definition module qualname) =>
    { b with rules := Assoc.bind b.rules (module, qualname) rule.effect }
  | .ok (.reference name) =>
    { b with referenceRules := Assoc.bind b.referenceRules (rule.module.id, name) rule.effect }
  | .error error => b.reportTo rule.module.id { finding := .ruleRejected rule.key error }

/-- Settling a rule is a step. -/
theorem ruleStep_settle (rule : DeclaredRule) (b : Analysis) : RuleStep rule b (b.settle rule) := by
  rw [settle]
  split
  · rename_i module qualname h
    exact .definition h
  · rename_i name h
    exact .reference h
  · rename_i error h
    exact .rejected h rfl rfl

/-- Settling rules in order is a run of steps. -/
theorem ruleRun_foldl (rules : List DeclaredRule) (b : Analysis) :
    RuleRun rules b (rules.foldl settle b) := by
  induction rules generalizing b with
  | nil => exact .nil b
  | cons rule rules ih => exact .cons (ruleStep_settle rule b) (ih _)

/-! ### What settling rules leaves as it was -/

/-- No step changes nothing but rules. -/
theorem RulesOnly.refl (a : Analysis) : a.RulesOnly a :=
  ⟨rfl, List.forall₂_same.mpr fun _ _ => rfl⟩

/-- Nor does any step. -/
theorem RuleStep.rulesOnly (h : RuleStep rule b c) (hb : a.RulesOnly b) : a.RulesOnly c := by
  have hrest := hb.rest
  cases h with
  | definition => exact ⟨by rw [hrest], hb.modules⟩
  | reference => exact ⟨by rw [hrest], hb.modules⟩
  | rejected =>
    refine ⟨by rw [hrest]; rfl, List.forall₂_map_right_iff.mpr (hb.modules.imp fun s t hst => ?_)⟩
    split
    · exact hst.report _
    · exact hst

namespace RulesOnly

/-- Where only rules and reports change, modules are found as before. -/
theorem merged? (h : a.RulesOnly b) (module : String) : b.merged? module = a.merged? module := by
  have hindex : b.moduleIndex = a.moduleIndex := (congrArg Analysis.moduleIndex h.rest :)
  unfold Analysis.merged? Analysis.state? moduleId?
  rw [hindex]
  cases Assoc.get? a.moduleIndex module with
  | none => rfl
  | some id =>
    rw [Option.bind_some, Option.bind_some, stateAt?, stateAt?]
    rcases rel_cases (rel_getElem?_of_forall₂ h.modules id.index) with ⟨ha, hb⟩ | ⟨s, t, ha, hb, hst⟩
    · rw [ha, hb]
    · rw [ha, hb, Option.bind_some, Option.bind_some, hst.merged]

/-- The links are as before. -/
theorem links (h : a.RulesOnly b) : b.links = a.links :=
  (congrArg Analysis.links h.rest :)

/-- The bindings are as before. -/
theorem bindsAlike (h : a.RulesOnly b) : a.BindsAlike b := by
  refine ⟨(congrArg Analysis.root h.rest :).symm, (congrArg Analysis.config h.rest :).symm,
    (congrArg Analysis.moduleIndex h.rest :).symm, h.modules.imp fun s t hst => ⟨hst.name.symm, ?_⟩⟩
  rw [hst.merged]
  cases s.merged with
  | none => exact .none
  | some m => exact .some ⟨fun _ => rfl, rfl⟩

/-- Paths lead to the same definitions. -/
theorem definitionAt? (h : a.RulesOnly b) (module : String) (path : List String) :
    b.definitionAt? module path = a.definitionAt? module path := by
  induction path generalizing module with
  | nil => rfl
  | cons head rest ih =>
    simp only [Analysis.definitionAt?, h.bindsAlike.knowsAlike.originOf, h.merged?, ih]

/-- What a rule is about does not depend on other rules. -/
theorem ruleTarget (h : a.RulesOnly b) (s : ModuleState) (key : String) (effect : RuleEffect) :
    b.ruleTarget s key effect = a.ruleTarget s key effect := by
  simp only [Analysis.ruleTarget, Analysis.memberTarget, h.definitionAt?, h.links]

end RulesOnly

/-! ### What is recorded -/

/-- The rules that are recorded in `b` are about definitions and imports of `a`. -/
def RulesSound (a b : Analysis) : Prop :=
  (∀ e ∈ b.rules, a.HasDefinition e.1.1 e.1.2) ∧
    ∀ e ∈ b.referenceRules, a.Carries e.1.1 e.1.2 e.2

/-- **Settling a rule records only what is about a definition or an import.** -/
theorem RuleStep.sound (hindexed : a.WellIndexed) (hmem : rule.module ∈ a.modules)
    (hb : a.RulesOnly b) (hsound : a.RulesSound b) (h : RuleStep rule b c) : a.RulesSound c := by
  cases h with
  | definition h =>
    rw [hb.ruleTarget] at h
    refine ⟨fun e he => ?_, hsound.2⟩
    rcases Assoc.mem_of_mem_bind he with he | rfl
    · exact hsound.1 e he
    · exact ruleTarget_sound hindexed hmem h
  | reference h =>
    rw [hb.ruleTarget] at h
    refine ⟨hsound.1, fun e he => ?_⟩
    rcases Assoc.mem_of_mem_bind he with he | rfl
    · exact hsound.2 e he
    · exact ruleTarget_sound hindexed hmem h
  | rejected => exact hsound

/-- **So does settling several.** -/
theorem RuleRun.sound (hindexed : a.WellIndexed)
    (hmem : ∀ rule ∈ rules, rule.module ∈ a.modules) (hb : a.RulesOnly b) (hsound : a.RulesSound b)
    (h : RuleRun rules b c) : a.RulesSound c := by
  induction h with
  | nil => exact hsound
  | cons step _ ih =>
    obtain ⟨hrule, hrules⟩ := List.forall_mem_cons.mp hmem
    exact ih hrules (step.rulesOnly hb) (step.sound hindexed hrule hb hsound)

/-! ### What settling several rules comes to -/

/-- A rule with what it is about. -/
def verdict (a : Analysis) (rule : DeclaredRule) :
    String × RuleEffect × Except RuleError RuleTarget :=
  (rule.key, rule.effect, a.ruleTarget rule.module rule.key rule.effect)

/-- What is reported of several rules in the module with a number. -/
def reportsFor (a : Analysis) (id : ModuleId) (rules : List DeclaredRule) : List Diagnostic :=
  (rules.filter fun rule => rule.module.id = id).filterMap fun rule => ruleDiagnostic? (a.verdict rule)

/-- Record a declared rule. -/
def record (a b : Analysis) (rule : DeclaredRule) : Analysis :=
  applyRule rule.module.id b (a.verdict rule)

/-- A rule is recorded whatever the modules have been told. -/
theorem record_withModules (a b : Analysis) (modules : List ModuleState) (rule : DeclaredRule) :
    a.record { b with modules := modules } rule = { a.record b rule with modules := modules } := by
  rw [record, record]
  obtain ⟨_, effect, _ | ⟨module, qualname⟩ | name⟩ := a.verdict rule <;> rfl

/-- One rule is reported in the module that declares it, if it is rejected. -/
theorem reportsFor_singleton (a : Analysis) (id : ModuleId) (rule : DeclaredRule) :
    a.reportsFor id [rule] =
      if id = rule.module.id then (ruleDiagnostic? (a.verdict rule)).toList else [] := by
  rw [reportsFor]
  by_cases hid : id = rule.module.id
  · rw [if_pos hid, List.filter_cons_of_pos (by simpa using hid.symm), List.filter_nil,
      List.filterMap_cons]
    cases ruleDiagnostic? (a.verdict rule) <;> rfl
  · rw [if_neg hid, List.filter_cons_of_neg (by simpa using Ne.symm hid)]
    rfl

/-- Settling a rule records it and reports it in the module that declares it. -/
theorem settle_eq (hb : a.RulesOnly b) (rule : DeclaredRule) :
    b.settle rule = { a.record b rule with
      modules := b.modules.map fun s => s.report (a.reportsFor s.id [rule]) } := by
  have hverdict : a.verdict rule =
      (rule.key, rule.effect, b.ruleTarget rule.module rule.key rule.effect) := by
    rw [verdict, hb.ruleTarget]
  -- a verdict that is no error is not reported
  have hnone : ∀ v, ruleDiagnostic? v = none → a.verdict rule = v →
      b.modules.map (fun s => s.report (a.reportsFor s.id [rule])) = b.modules := by
    rintro v hv rfl
    refine (List.map_congr_left fun s _ => ?_).trans (List.map_id _)
    rw [reportsFor_singleton, hv, Option.toList_none, ite_self, ModuleState.report_nil]
    rfl
  rw [settle, record]
  cases htarget : b.ruleTarget rule.module rule.key rule.effect with
  | ok target =>
    rw [htarget] at hverdict
    rw [hnone _ (by cases target <;> rfl) hverdict, hverdict]
    cases target <;> rfl
  | error error =>
    rw [htarget] at hverdict
    have hmodules : (b.modules.map fun s => s.report (a.reportsFor s.id [rule])) =
        b.modules.map fun s => if s.id = rule.module.id then
          s.report [{ finding := .ruleRejected rule.key error }] else s := by
      refine List.map_congr_left fun s _ => ?_
      rw [reportsFor_singleton, hverdict]
      split
      · rfl
      · exact s.report_nil
    rw [hmodules, hverdict]
    rfl

/-- What rules report in a module is reported rule by rule. -/
theorem reportsFor_cons (a : Analysis) (id : ModuleId) (rule : DeclaredRule)
    (rules : List DeclaredRule) :
    a.reportsFor id (rule :: rules) = a.reportsFor id [rule] ++ a.reportsFor id rules := by
  rw [reportsFor, reportsFor, reportsFor, ← List.filterMap_append, ← List.filter_append,
    List.singleton_append]

/-- **Settling rules records each that is about something and reports the others**, each in its
    module. -/
theorem foldl_settle (hb : a.RulesOnly b) (rules : List DeclaredRule) :
    rules.foldl settle b = { rules.foldl a.record b with
      modules := b.modules.map fun s => s.report (a.reportsFor s.id rules) } := by
  induction rules generalizing b with
  | nil =>
    have hmodules : (b.modules.map fun s => s.report (a.reportsFor s.id [])) = b.modules :=
      (List.map_congr_left fun s _ => s.report_nil).trans (List.map_id _)
    rw [List.foldl_nil, List.foldl_nil, hmodules]
  | cons rule rules ih =>
    -- recording a rule looks at no module, and reports change only the modules
    have hfold : ∀ (modules : List ModuleState) (c : Analysis),
        rules.foldl a.record { c with modules := modules } =
          { rules.foldl a.record c with modules := modules } := fun modules c =>
      List.foldl_hom (fun c : Analysis => { c with modules := modules })
        fun c rule => a.record_withModules c modules rule
    have hmodules : (b.modules.map fun s => s.report (a.reportsFor s.id (rule :: rules))) =
        (b.modules.map fun s => s.report (a.reportsFor s.id [rule])).map
          fun s => s.report (a.reportsFor s.id rules) := by
      rw [List.map_map]
      refine List.map_congr_left fun s _ => ?_
      rw [reportsFor_cons, ← ModuleState.report_report]
      rfl
    rw [List.foldl_cons, List.foldl_cons, ih ((ruleStep_settle rule b).rulesOnly hb), settle_eq hb,
      hfold, hmodules]

/-! ### All rules -/

/-- The verdicts on the rules that a module declares are those that are applied. -/
theorem map_verdict_declaredBy (a : Analysis) (s : ModuleState) :
    (declaredBy s).map a.verdict = a.rulesOf s := by
  rw [declaredBy, rulesOf, List.map_map]
  cases s.merged <;> rfl

/-- A rule that a module declares is of that module. -/
theorem module_of_mem_declaredBy (h : rule ∈ declaredBy s) : rule.module = s := by
  obtain ⟨r, -, rfl⟩ := List.mem_map.mp h
  rfl

/-- Every declared rule is of a module of the analysis. -/
theorem module_of_mem_declaredRules (h : rule ∈ a.declaredRules) : rule.module ∈ a.modules := by
  obtain ⟨s, hs, hrule⟩ := List.mem_flatMap.mp h
  rwa [module_of_mem_declaredBy hrule]

/-- What is reported in a module is reported of its own rules. -/
theorem reportsFor_declaredRules (hids : (a.modules.map ModuleState.id).Nodup) (hs : s ∈ a.modules) :
    a.reportsFor s.id a.declaredRules = (a.rulesOf s).filterMap ruleDiagnostic? := by
  have hown : a.declaredRules.filter (fun rule => rule.module.id = s.id) = declaredBy s := by
    rw [declaredRules, List.filter_flatMap]
    refine (flatMap_only hs (.of_map _ hids) fun t ht hne => ?_).trans ?_
    · refine List.filter_eq_nil_iff.mpr fun rule hrule hid => hne ?_
      rw [module_of_mem_declaredBy hrule] at hid
      exact List.inj_on_of_nodup_map hids ht hs (by simpa using hid)
    · refine List.filter_eq_self.mpr fun rule hrule => ?_
      rw [module_of_mem_declaredBy hrule]
      simp
  rw [reportsFor, hown, ← map_verdict_declaredBy, List.filterMap_map]
  rfl

/-- **Applying rules comes to settling them one by one.** -/
theorem applyVisibility_eq (hids : (a.modules.map ModuleState.id).Nodup) :
    a.applyVisibility = a.declaredRules.foldl settle a := by
  have htables : a.declaredRules.foldl a.record a =
      a.modules.foldl (fun b s => (a.rulesOf s).foldl (applyRule s.id) b) a := by
    rw [declaredRules, List.foldl_flatMap]
    refine List.foldl_ext _ _ _ fun b s _ => ?_
    rw [← map_verdict_declaredBy, List.foldl_map]
    refine List.foldl_ext _ _ _ fun c rule hrule => ?_
    rw [record, module_of_mem_declaredBy hrule]
  have hreports : a.modules.map (fun s => s.report (a.reportsFor s.id a.declaredRules)) =
      a.modules.map fun s => s.report ((a.rulesOf s).filterMap ruleDiagnostic?) :=
    List.map_congr_left fun s hs => by rw [reportsFor_declaredRules hids hs]
  rw [foldl_settle (.refl a), htables, hreports, applyVisibility]

/-- Before the rules are applied there are none. -/
theorem rules_unruled (root : String) (inputs : List ModuleInput) (config : Config) :
    (unruled root inputs config).rules = [] ∧ (unruled root inputs config).referenceRules = [] := by
  have hrest := (start root inputs config).register_rest
  rw [unruled, evaluateTypes_eq]
  exact ⟨(congrArg Analysis.rules hrest :), (congrArg Analysis.referenceRules hrest :)⟩

/-- Rules are sound, accounted for, and independent of the module that hands a definition on. -/
structure RulesSettled (a : Analysis) : Prop where
  /-- What has a rule is a definition. -/
  definitions : ∀ key ∈ Assoc.keys a.applyVisibility.rules,
    a.applyVisibility.HasDefinition key.1 key.2
  /-- Or it is an import that can carry it. -/
  references : ∀ e ∈ a.applyVisibility.referenceRules,
    a.applyVisibility.Carries e.1.1 e.1.2 e.2
  /-- Each declared rule is recorded once, or it is reported once in its module. -/
  settled : RuleRun a.declaredRules a a.applyVisibility
  /-- A number is that of one module. -/
  distinct : (a.modules.map ModuleState.id).Nodup
  /-- A rule for a member of an import is one for the member where it is defined. -/
  members : ∀ s ∈ a.modules, ∀ m, s.merged = some m → ∀ name, (m.external? name).isSome = true →
    ∀ d x, a.originOf s.name name = .definition d x → ∃ t ∈ a.modules, t.name = d ∧
      ∀ rest ≠ [], ∀ key key', segments key = name :: rest → segments key' = x :: rest →
        a.SameVerdict s key t key' (.definition d (dotted (x :: rest)))

/-- **Rules are sound, accounted for, and independent of the module that hands a definition on.** -/
theorem rulesSettled_unruled (root : String) (inputs : List ModuleInput) (config : Config) :
    (unruled root inputs config).RulesSettled := by
  have hreached := reached_unruled root inputs config
  have hlinks := linksFollowed_unruled root inputs config
  obtain ⟨hrules, hreferences⟩ := rules_unruled root inputs config
  generalize unruled root inputs config = a at hreached hlinks hrules hreferences
  have hindexed := hreached.wellIndexed
  have hids := hindexed.numbered.nodup_ids
  have hrun : RuleRun a.declaredRules a a.applyVisibility := by
    rw [applyVisibility_eq hids]
    exact ruleRun_foldl a.declaredRules a
  have hbefore : a.RulesSound a := ⟨by simp [hrules], by simp [hreferences]⟩
  obtain ⟨hdefinitions, himports⟩ := hrun.sound hindexed (fun rule => module_of_mem_declaredRules)
    (.refl a) hbefore
  have hafter := a.rulesOnly_applyVisibility
  refine ⟨fun key hkey => ?_, fun e he => ?_, hrun, hids, fun s hs m hm name hexternal d x horigin =>
    ruleTarget_reexported hlinks hindexed hs hm hexternal horigin⟩
  · obtain ⟨e, he, rfl⟩ := List.mem_map.mp hkey
    obtain ⟨m, hm, hlookup⟩ := hdefinitions e he
    exact ⟨m, (hafter.merged? _).trans hm, hlookup⟩
  · obtain ⟨s, hs, hid, m, hm, hexternal, origin, hlink, htakes⟩ := himports e he
    obtain ⟨t, ht, hst⟩ := exists_of_forall₂ hafter.modules hs
    exact ⟨t, ht, hst.id.trans hid, m, hst.merged.trans hm, hexternal, origin,
      hafter.links ▸ hlink, htakes⟩

/-- A package that hands a class of one module on and imports a name from outside. -/
def handingOn : List ModuleInput := [
  { name := "pkg", isPackage := true
    source := some (.parse ("from .m import C as D\nfrom os import path\n\n" ++
      "__autodoc__ = \x7b'D': True, 'D.f': False, 'D.g': True, 'path': True, 'path.join': 'Join.'\x7d\n")
      "pkg" true) },
  { name := "pkg.m"
    source := some (.parse "class C:\n    def f(): ...\n\n__autodoc__ = \x7b'C.f': 'F.', 'C.g': True\x7d\n"
      "pkg.m" false) }]

/-- The rules for the method are for one definition, of which the later counts; those for a method that
    is not there are reported in both modules. -/
theorem rulesSettled_handingOn : (unruled "pkg" handingOn {}).RulesSettled ∧
    (unruled "pkg" handingOn {}).applyVisibility.rules = [(("pkg.m", "C.f"), .documented "F.")] ∧
    ((unruled "pkg" handingOn {}).applyVisibility.referenceRules.map fun e => (e.1.2, e.2)) =
      [("D", .shown)] ∧
    ((unruled "pkg" handingOn {}).applyVisibility.modules.map fun s =>
      (s.name, s.diagnostics.map Diagnostic.finding)) = [
        ("pkg", [.ruleRejected "D.g" (.unreachable "D.g" "D"),
          .ruleRejected "path" (.libraryName "path" "os"),
          .ruleRejected "path.join" (.libraryMember "path" "os")]),
        ("pkg.m", [.ruleRejected "C.g" (.noSuchMember "pkg.m" "C" "C.g")])] :=
  ⟨rulesSettled_unruled "pkg" handingOn {}, by decide +kernel⟩

end Analysis
end PackageDoc
