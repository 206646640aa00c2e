import PackageDoc.Proofs.Order.Shuffled

namespace PackageDoc

/-!
# Every step treats the same modules alike

* `Analysis.Shuffled.mergeModules`, `Analysis.Shuffled.resolveImports`,
  `Analysis.Shuffled.evaluateTypes` — these steps leave analyses of the same modules;
* `Analysis.RulesApart` — no definition has rules from two modules;
* `Analysis.Shuffled.applyVisibility` — then so does the step that records the rules.
-/

/-! ### Tables that are filled entry by entry -/

/-- The value of a key behind some entries, of which those with the key set it. -/
def lastValue {ε κ α : Type} [DecidableEq κ] (key? : ε → Option κ) (value : ε → α) (key : κ)
    (before : Option α) (entries : List ε) : Option α :=
  entries.foldl (fun v e => if key? e = some key then some (value e) else v) before

/-- Entries for other keys leave a value as it was. -/
theorem lastValue_of_forall {ε κ α : Type} [DecidableEq κ] {key? : ε → Option κ} {value : ε → α}
    {key : κ} {entries : List ε} (h : ∀ e ∈ entries, key? e ≠ some key) (before : Option α) :
    lastValue key? value key before entries = before := by
  induction entries generalizing before with
  | nil => rfl
  | cons e entries ih =>
    obtain ⟨he, hentries⟩ := List.forall_mem_cons.mp h
    rw [lastValue, List.foldl_cons, if_neg he]
    exact ih hentries before

/-- What a fold does to the value of a key is a fold of what its steps do to it. -/
theorem get?_foldl {ε κ α τ : Type} [DecidableEq κ] {step : τ → ε → τ} (table : τ → List (κ × α))
    (key : κ) {effect : Option α → ε → Option α}
    (h : ∀ x e, Assoc.get? (table (step x e)) key = effect (Assoc.get? (table x) key) e)
    (es : List ε) (x : τ) :
    Assoc.get? (table (es.foldl step x)) key = es.foldl effect (Assoc.get? (table x) key) :=
  (List.foldl_hom (fun x => Assoc.get? (table x) key) fun x e => (h x e).symm).symm

/-- When only one element of a list changes the state, the fold is its change. -/
theorem foldl_only {α β : Type} {xs : List α} {x : α} {f : β → α → β} (hx : x ∈ xs)
    (hnodup : xs.Nodup) (h : ∀ y ∈ xs, y ≠ x → ∀ v, f v y = v) (v : β) : xs.foldl f v = f v x := by
  have hrest : ∀ ys : List α, (∀ y ∈ ys, ∀ v, f v y = v) → ∀ v, ys.foldl f v = v := by
    intro ys
    induction ys with
    | nil => exact fun _ _ => rfl
    | cons y ys ih =>
      intro hys v
      obtain ⟨hy, hys⟩ := List.forall_mem_cons.mp hys
      rw [List.foldl_cons, hy, ih hys]
  obtain ⟨front, back, rfl⟩ := List.append_of_mem hx
  obtain ⟨-, hback, hapart⟩ := List.nodup_append.mp hnodup
  rw [List.foldl_append, List.foldl_cons]
  rw [hrest front fun y hy => h y (by simp [hy]) fun heq => hapart y hy x (by simp) heq]
  refine hrest back (fun y hy => h y (by simp [hy]) ?_) _
  rintro rfl
  exact (List.nodup_cons.mp hback).1 hy

namespace Analysis

variable {a b : Analysis} {s t : ModuleState}

/-! ### Merging -/

/-- A module is merged whatever its number is. -/
theorem merge_withId (s : ModuleState) (id : ModuleId) :
    { s.merge with id := id } = { s with id := id }.merge := by
  unfold ModuleState.merge
  dsimp only
  cases s.input.merge.2 <;> rfl

/-- Merging keeps the modules the same. -/
theorem Shuffled.mergeModules (h : a.Shuffled b) : a.mergeModules.Shuffled b.mergeModules := by
  refine h.map h.root h.config rfl rfl h.left.mergeModules h.right.mergeModules
    (fun s _ t _ hst => ⟨?_, ?_, ?_⟩) h.rules
  · rw [ModuleState.merge_id, merge_withId, hst.state]
  · rw [ModuleState.merge_id, ModuleState.merge_id]
    exact hst.links
  · rw [ModuleState.merge_id, ModuleState.merge_id]
    exact hst.referenceRules

/-! ### Imports -/

/-- The same module has the same links. -/
theorem Shuffled.linksOf (h : a.Shuffled b) (hst : SameModule a b s t) : a.linksOf s = b.linksOf t := by
  simp only [Analysis.linksOf, hst.merged, hst.name, h.knowsAlike.originOf]

/-- A table whose keys begin with the numbers of modules has of a module what is recorded for it. -/
theorem foldl_lastValue {ε α : Type} (hids : (a.modules.map ModuleState.id).Nodup)
    (hs : s ∈ a.modules) (entries : ModuleState → List ε) (key? : ε → Option String) (value : ε → α)
    (name : String) (before : Option α) :
    a.modules.foldl (fun v s' => lastValue (fun e => (key? e).map fun k => (s'.id, k)) value
      (s.id, name) v (entries s')) before = lastValue key? value name before (entries s) := by
  rw [foldl_only hs (List.Nodup.of_map _ hids)]
  · unfold lastValue
    congr 1
    funext v e
    have hkey : (key? e).map (fun k => (s.id, k)) = some (s.id, name) ↔ key? e = some name := by
      cases key? e <;> simp
    exact if_congr hkey rfl rfl
  · intro s' hs' hne v
    refine lastValue_of_forall (fun e _ heq => hne ?_) v
    obtain ⟨k, -, hk⟩ := Option.map_eq_some_iff.mp heq
    exact List.inj_on_of_nodup_map hids hs' hs (Prod.mk.inj hk).1

/-- What the table has of a name that a module imports. -/
theorem get?_links (hids : (a.modules.map ModuleState.id).Nodup) (hs : s ∈ a.modules) (name : String) :
    Assoc.get? a.resolveImports.links (s.id, name) =
      lastValue (fun l => some l.1) (fun l => l.2.2) name (Assoc.get? a.links (s.id, name))
        (a.linksOf s) := by
  rw [← foldl_lastValue hids hs]
  refine get?_foldl (fun links => links) _ (fun links s' => ?_) _ _
  refine get?_foldl (fun links => links) _ (fun links l => ?_) _ _
  rw [Assoc.get?_bind]
  simp

/-- Resolving imports keeps the modules the same. -/
theorem Shuffled.resolveImports (h : a.Shuffled b) :
    a.resolveImports.Shuffled b.resolveImports := by
  refine h.map h.root h.config rfl rfl h.left.resolveImports h.right.resolveImports
    (fun s hs t ht hst => ⟨?_, fun name => ?_, hst.referenceRules⟩) h.rules
  · rw [h.linksOf hst, ← hst.state]
    rfl
  · change Assoc.get? a.resolveImports.links (s.id, name) =
      Assoc.get? b.resolveImports.links (t.id, name)
    rw [get?_links h.left.numbered.nodup_ids hs, get?_links h.right.numbered.nodup_ids ht, h.linksOf hst, hst.links]

/-! ### Types -/

/-- The same module has the same types to be evaluated. -/
theorem Shuffled.evaluationsOf (h : a.Shuffled b) (hst : SameModule a b s t) :
    a.evaluationsOf s = b.evaluationsOf t := by
  unfold Analysis.evaluationsOf
  rw [hst.merged]
  cases t.merged with
  | none => rfl
  | some m =>
    refine MergedMember.evaluationsList_congr (fun scope name => ?_) _ _ _
    simp only [TypeEnv.target, hst.links, hst.name, funext h.knowsAlike.pathTarget]

/-- An evaluation is applied whatever the number of the module is. -/
theorem applyEvaluation_withId (s : ModuleState) (e : Evaluation) (id : ModuleId) :
    applyEvaluation { s with id := id } e = { applyEvaluation s e with id := id } := by
  unfold applyEvaluation
  cases e.type <;> cases e.diagnostic? <;> rfl

/-- So are all of them. -/
theorem evaluated_withId (h : a.evaluationsOf s = b.evaluationsOf { s with id := t.id }) :
    { a.evaluated s with id := t.id } = b.evaluated { s with id := t.id } := by
  rw [evaluated, evaluated, ← h]
  exact (List.foldl_hom (fun s : ModuleState => { s with id := t.id })
    fun s e => applyEvaluation_withId s e t.id).symm

/-- Evaluating types keeps the modules the same. -/
theorem Shuffled.evaluateTypes (h : a.Shuffled b) : a.evaluateTypes.Shuffled b.evaluateTypes := by
  have hleft := h.left.evaluateTypes
  have hright := h.right.evaluateTypes
  rw [evaluateTypes_eq] at hleft hright
  rw [evaluateTypes_eq, evaluateTypes_eq]
  refine h.map h.root h.config rfl rfl hleft hright (fun s _ t _ hst => ⟨?_, ?_, ?_⟩) h.rules
  · have hevaluations := h.evaluationsOf hst
    rw [evaluated_id, ← hst.state] at *
    exact evaluated_withId hevaluations
  · rw [evaluated_id, evaluated_id]
    exact hst.links
  · rw [evaluated_id, evaluated_id]
    exact hst.referenceRules

/-! ### Rules -/

/-- The definition that an accepted rule is about, by its module and its dotted path. -/
def definitionKey? : String × RuleEffect × Except RuleError RuleTarget → Option (String × String)
  | (_, _, .ok (.definition module qualname)) => some (module, qualname)
  | _ => none

/-- The imported name that an accepted rule is about. -/
def referenceKey? : String × RuleEffect × Except RuleError RuleTarget → Option String
  | (_, _, .ok (.reference name)) => some name
  | _ => none

/-- A module states a rule about a definition that is accepted. -/
def StatesRule (a : Analysis) (s : ModuleState) (key : String × String) : Prop :=
  ∃ rule ∈ a.rulesOf s, definitionKey? rule = some key

/-- No definition has accepted rules from two modules. -/
def RulesApart (a : Analysis) : Prop :=
  ∀ s ∈ a.modules, ∀ t ∈ a.modules, ∀ key, a.StatesRule s key → a.StatesRule t key → s.name = t.name

instance (a : Analysis) : Decidable a.RulesApart :=
  decidable_of_iff (∀ s ∈ a.modules, ∀ t ∈ a.modules, ∀ rule ∈ a.rulesOf s, ∀ rule' ∈ a.rulesOf t,
      (definitionKey? rule).isSome → definitionKey? rule' = definitionKey? rule → s.name = t.name) <| by
    constructor
    · rintro h s hs t ht key ⟨rule, hrule, hkey⟩ ⟨rule', hrule', hkey'⟩
      exact h s hs t ht rule hrule rule' hrule' (by simp [hkey]) (hkey'.trans hkey.symm)
    · intro h s hs t ht rule hrule rule' hrule' hsome heq
      obtain ⟨key, hkey⟩ := Option.isSome_iff_exists.mp hsome
      exact h s hs t ht key ⟨rule, hrule, hkey⟩ ⟨rule', hrule', heq.trans hkey⟩

/-- A path leads to the same definition in both analyses. -/
theorem Shuffled.definitionAt? (h : a.Shuffled b) (module : String) (path : List String) :
    a.definitionAt? module path = b.definitionAt? module path := by
  induction path generalizing module with
  | nil => rfl
  | cons head rest ih => simp only [Analysis.definitionAt?, h.knowsAlike.originOf, h.merged?, ih]

/-- The same module has the same rules with the same verdicts. -/
theorem Shuffled.rulesOf (h : a.Shuffled b) (hst : SameModule a b s t) :
    a.rulesOf s = b.rulesOf t := by
  simp only [Analysis.rulesOf, Analysis.ruleTarget, Analysis.memberTarget, hst.merged, hst.name,
    hst.links, h.definitionAt?]

/-- A rule that is applied is the one for its definition from then on. -/
theorem get?_rules_applyRule (id : ModuleId) (c : Analysis)
    (rule : String × RuleEffect × Except RuleError RuleTarget) (key : String × String) :
    Assoc.get? (applyRule id c rule).rules key =
      if definitionKey? rule = some key then some rule.2.1 else Assoc.get? c.rules key := by
  obtain ⟨_, effect, _ | ⟨module, qualname⟩ | name⟩ := rule
  · simp [applyRule, definitionKey?]
  · simp [applyRule, definitionKey?, Assoc.get?_bind]
  · simp [applyRule, definitionKey?]

/-- A rule for an import is the one for that import of its module. -/
theorem get?_referenceRules_applyRule (id : ModuleId) (c : Analysis)
    (rule : String × RuleEffect × Except RuleError RuleTarget) (key : ModuleId × String) :
    Assoc.get? (applyRule id c rule).referenceRules key =
      if (referenceKey? rule).map (fun name => (id, name)) = some key then some rule.2.1
      else Assoc.get? c.referenceRules key := by
  obtain ⟨_, effect, _ | ⟨module, qualname⟩ | name⟩ := rule
  · simp [applyRule, referenceKey?]
  · simp [applyRule, referenceKey?]
  · simp [applyRule, referenceKey?, Assoc.get?_bind]

/-- The rule for a definition is the last that is accepted. -/
theorem get?_rules (a : Analysis) (key : String × String) :
    Assoc.get? a.applyVisibility.rules key = a.modules.foldl (fun v s =>
      lastValue definitionKey? (fun rule => rule.2.1) key v (a.rulesOf s)) (Assoc.get? a.rules key) :=
  get?_foldl Analysis.rules key (fun c s => get?_foldl Analysis.rules key
    (fun c rule => get?_rules_applyRule s.id c rule key) (a.rulesOf s) c) a.modules a

/-- The rule for an import is the last that its module states. -/
theorem get?_referenceRules (hids : (a.modules.map ModuleState.id).Nodup) (hs : s ∈ a.modules)
    (name : String) : Assoc.get? a.applyVisibility.referenceRules (s.id, name) =
      lastValue referenceKey? (fun rule => rule.2.1) name (Assoc.get? a.referenceRules (s.id, name))
        (a.rulesOf s) := by
  rw [← foldl_lastValue hids hs]
  exact get?_foldl Analysis.referenceRules (s.id, name)
    (fun c s' => get?_foldl Analysis.referenceRules (s.id, name)
      (fun c rule => get?_referenceRules_applyRule s'.id c rule _) (a.rulesOf s') c) a.modules a

/-- With rules apart the rule for a definition does not depend on the order of modules. -/
theorem Shuffled.rules_applyVisibility (h : a.Shuffled b) (hrules : a.RulesApart)
    (key : String × String) :
    Assoc.get? a.applyVisibility.rules key = Assoc.get? b.applyVisibility.rules key := by
  obtain ⟨ts, hts, hsame⟩ := h.modules
  -- the modules of one analysis in the order of the other
  obtain ⟨ss, hss, hperm⟩ := List.perm_comp_forall₂ hts.symm hsame.flip
  have hfold : ss.foldl (fun v s =>
        lastValue definitionKey? (fun rule => rule.2.1) key v (a.rulesOf s)) (Assoc.get? a.rules key) =
      b.modules.foldl (fun v t =>
        lastValue definitionKey? (fun rule => rule.2.1) key v (b.rulesOf t)) (Assoc.get? b.rules key) :=
    List.rel_foldl (fun _ _ hv s t hst => by rw [hv, h.rulesOf hst]) (h.rules key) hss.flip
  rw [get?_rules, get?_rules, ← hfold]
  refine hperm.symm.foldl_eq' (fun s hs s' hs' v => ?_) _
  have hsilent : ∀ s, ¬ a.StatesRule s key → ∀ v : Option RuleEffect,
      lastValue definitionKey? (fun rule => rule.2.1) key v (a.rulesOf s) = v :=
    fun s hs v => lastValue_of_forall (fun rule hrule hkey => hs ⟨rule, hrule, hkey⟩) v
  by_cases hstates : a.StatesRule s key
  · by_cases hstates' : a.StatesRule s' key
    · rw [h.left.eq_of_name hs hs' (hrules s hs s' hs' key hstates hstates')]
    · rw [hsilent s' hstates', hsilent s' hstates']
  · rw [hsilent s hstates, hsilent s hstates]

/-- Applying rules that stand apart keeps the modules the same. -/
theorem Shuffled.applyVisibility (h : a.Shuffled b) (hrules : a.RulesApart) :
    a.applyVisibility.Shuffled b.applyVisibility := by
  have hrest := a.rulesOnly_applyVisibility.rest
  have hrest' := b.rulesOnly_applyVisibility.rest
  have hroot : a.applyVisibility.root = b.applyVisibility.root := by
    rw [hrest, hrest']
    exact h.root
  have hconfig : a.applyVisibility.config = b.applyVisibility.config := by
    rw [hrest, hrest']
    exact h.config
  refine h.map hroot hconfig rfl rfl h.left.applyVisibility h.right.applyVisibility
    (fun s hs t ht hst => ⟨?_, fun name => ?_, fun name => ?_⟩) (h.rules_applyVisibility hrules)
  · rw [h.rulesOf hst, ← hst.state]
    rfl
  · change Assoc.get? a.applyVisibility.links (s.id, name) =
      Assoc.get? b.applyVisibility.links (t.id, name)
    rw [hrest, hrest']
    exact hst.links name
  · change Assoc.get? a.applyVisibility.referenceRules (s.id, name) =
      Assoc.get? b.applyVisibility.referenceRules (t.id, name)
    rw [get?_referenceRules h.left.numbered.nodup_ids hs,
      get?_referenceRules h.right.numbered.nodup_ids ht, h.rulesOf hst, hst.referenceRules]

end Analysis
end PackageDoc
