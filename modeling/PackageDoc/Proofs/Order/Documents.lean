import PackageDoc.Proofs.Arena.Registration
import PackageDoc.Proofs.Order.Steps
import PackageDoc.Proofs.Tree.Assembly
import PackageDoc.Yaml.Value

namespace PackageDoc

/-!
# The order of modules does not change what is documented

* `Analysis.shuffled_register` — registering modules in two orders begins with the same modules;
* `Analysis.Shuffled.moduleOf` — the same modules are documented alike;
* `DocModule.SameTree` — two trees are equal up to the order of the modules below a module;
* `resolvePackage_perm` — modules given in two orders are documented in the same tree.
-/

/-! ### Trees up to order -/

/-- Two trees are equal up to the order of the modules below each module. -/
inductive DocModule.SameTree : DocModule → DocModule → Prop
  | intro {m m' : DocModule} {subs : List DocModule} (alone : m.alone = m'.alone)
    (below : List.Forall₂ SameTree m.submodules subs) (order : subs.Perm m'.submodules) :
    SameTree m m'

namespace Analysis

variable {a b : Analysis} {s t : ModuleState}

/-! ### Registration -/

/-- Registering modules in two orders begins with the same modules. -/
theorem shuffled_register (root : String) (config : Config) {inputs inputs' : List ModuleInput}
    (hperm : inputs.Perm inputs') (hnames : (inputs.map ModuleInput.name).Nodup)
    (hlength : inputs.length + 1 < UInt32.size) :
    (Analysis.start root inputs config).register.Shuffled
      (Analysis.start root inputs' config).register := by
  have hnames' : (inputs'.map ModuleInput.name).Nodup := (hperm.map _).nodup_iff.mp hnames
  have hlength' : inputs'.length + 1 < UInt32.size := hperm.length_eq ▸ hlength
  -- the modules that are registered second in the order of the first
  have hinputs : ((Analysis.start root inputs config).register.modules.map ModuleState.input).Perm
      ((Analysis.start root inputs' config).register.modules.map ModuleState.input) := by
    rw [inputs_register_of_nodup root config hnames hlength,
      inputs_register_of_nodup root config hnames' hlength']
    exact hperm.filter _
  obtain ⟨us, hus, horder⟩ := List.perm_comp_forall₂ (r := fun input t => input = t.input) hinputs
    (List.forall₂_map_left_iff.mpr (List.forall₂_same.mpr fun _ _ => rfl))
  have hrest := (Analysis.start root inputs config).register_rest
  have hrest' := (Analysis.start root inputs' config).register_rest
  refine ⟨?_, ?_, (WellIndexed.start root inputs config).register,
    (WellIndexed.start root inputs' config).register, ⟨us, horder, ?_⟩, fun _ => ?_⟩
  · rw [hrest, hrest']
    rfl
  · rw [hrest, hrest']
    rfl
  · refine (forall₂_mem (List.forall₂_map_left_iff.mp hus)).imp fun s t ⟨hs, ht, hinput⟩ =>
      ⟨?_, fun _ => ?_, fun _ => ?_⟩
    · rw [eq_of_mem_register hs, eq_of_mem_register (horder.mem_iff.mp ht), hinput]
    -- the tables are empty
    · rw [hrest, hrest']
      rfl
    · rw [hrest, hrest']
      rfl
  · rw [hrest, hrest']
    rfl

/-! ### Modules on their own -/

mutual

/-- The node of a definition depends on the rules and on what was reported of definitions. -/
theorem nodeOf_congr [YamlReader] (hrules : ∀ key, Assoc.get? a.rules key = Assoc.get? b.rules key)
    (hreports : s.nodeDiagnostics = t.nodeDiagnostics) :
    ∀ (m : MergedMember) (q : QualifiedName) (inherited : Bool),
      a.nodeOf s q inherited m = b.nodeOf t q inherited m
  | ⟨name, line, docstring, shape, members⟩, q, inherited => by
    simp only [nodeOf, isVisible, rawDocstring, hrules, hreports, nodesOf_congr hrules hreports members]

/-- The nodes of definitions come from the rules and the reports of their module alone. -/
theorem nodesOf_congr [YamlReader] (hrules : ∀ key, Assoc.get? a.rules key = Assoc.get? b.rules key)
    (hreports : s.nodeDiagnostics = t.nodeDiagnostics) :
    ∀ (ms : List MergedMember) (q : QualifiedName) (inherited : Bool),
      a.nodesOf s q inherited ms = b.nodesOf t q inherited ms
  | [], _, _ => by simp only [nodesOf]
  | m :: ms, q, inherited => by
    simp only [nodesOf, nodeOf_congr hrules hreports m, nodesOf_congr hrules hreports ms]

end

/-- An import of the same module has the same link. -/
theorem SameModule.linkOf (h : SameModule a b s t) (name : String) (decl : ExternalDecl) :
    a.linkOf s name decl = b.linkOf t name decl := by
  simp only [Analysis.linkOf, h.links]

namespace Shuffled

/-- An origin is of the same kind in analyses with the same modules. -/
theorem originKind (h : a.Shuffled b) (origin : Origin) : a.originKind origin = b.originKind origin := by
  cases origin <;> simp only [Analysis.originKind, h.merged?]

/-- An item of the same module has the same node. -/
theorem itemNode? [YamlReader] (h : a.Shuffled b) (hst : SameModule a b s t) (documented : Bool)
    (item : MergedItem) :
    a.itemNode? s documented item = b.itemNode? t documented item := by
  have hreports : s.nodeDiagnostics = t.nodeDiagnostics := by rw [← hst.state]
  cases item with
  | member m => simp only [Analysis.itemNode?, hst.name, nodeOf_congr h.rules hreports]
  | external name decl =>
    simp only [Analysis.itemNode?, referenceNode, hst.referenceRules, hst.linkOf, h.originKind, hst.name]

/-- The same modules are documented alike. -/
theorem moduleOf [YamlReader] (h : a.Shuffled b) (hst : SameModule a b s t) :
    a.moduleOf s = b.moduleOf t := by
  have hinput : s.input = t.input := by rw [← hst.state]
  have hstatus : s.status = t.status := by rw [← hst.state]
  have hdiagnostics : s.diagnostics = t.diagnostics := by rw [← hst.state]
  have hdocumented : a.isDocumented s = b.isDocumented t := by
    rw [isDocumented, isDocumented, hstatus, hst.name, h.config, h.root]
  have hentry : a.externalEntry s = b.externalEntry t := by
    funext ⟨name, decl⟩
    simp only [externalEntry, hst.linkOf]
  have hnode : a.itemNode? s (b.isDocumented t) = b.itemNode? t (b.isDocumented t) :=
    funext (h.itemNode? hst _)
  simp only [Analysis.moduleOf, hst.name, hst.merged, hinput, hstatus, hdiagnostics, hdocumented,
    hentry, hnode]

/-! ### Trees -/

/-- A module has the same parent in both analyses. -/
theorem parentOf (h : a.Shuffled b) (name : String) : a.parentOf name = b.parentOf name := by
  have hreg : a.isRegistered = b.isRegistered := funext h.knowsAlike.isRegistered
  rw [Analysis.parentOf, Analysis.parentOf, hreg, h.root]

/-- It has the same modules below it, in some order. -/
theorem childrenOf (h : a.Shuffled b) (name : String) :
    ∃ cs, List.Forall₂ (SameModule a b) (a.childrenOf name) cs ∧ cs.Perm (b.childrenOf name) := by
  obtain ⟨ts, hperm, hsame⟩ := h.modules
  refine ⟨ts.filter fun t => t.name != b.root && b.parentOf t.name == name,
    List.rel_filter (fun s t hst => ?_) hsame, hperm.filter _⟩
  simp only [hst.name, h.root, h.parentOf]

/-- The same modules have the same trees. -/
theorem sameTree_treeOf [YamlReader] (h : a.Shuffled b) (d : Nat) (hst : SameModule a b s t) :
    (a.treeOf d s).SameTree (b.treeOf d t) := by
  induction d generalizing s t with
  | zero =>
    refine .intro ?_ .nil (.refl [])
    rw [treeOf, treeOf, h.moduleOf hst]
  | succ d ih =>
    obtain ⟨cs, hsame, hperm⟩ := h.childrenOf s.name
    have hbelow : List.Forall₂ DocModule.SameTree ((a.childrenOf s.name).map (a.treeOf d))
        (cs.map (b.treeOf d)) :=
      List.forall₂_map_left_iff.mpr (List.forall₂_map_right_iff.mpr (hsame.imp fun _ _ => ih))
    rw [hst.name] at hperm
    refine .intro ?_ hbelow (hperm.map _)
    rw [treeOf, treeOf, h.moduleOf hst]
    rfl

/-- Why an analysis cannot go on does not depend on the order of its modules. -/
theorem fatal? (h : a.Shuffled b) : a.fatal? = b.fatal? := by
  unfold Analysis.fatal?
  rw [h.root]
  rcases rel_cases (h.state? b.root) with ⟨ha, hb⟩ | ⟨s, t, ha, hb, hst⟩
  · rw [ha, hb]
  · rw [ha, hb, ← hst.state]

end Shuffled
end Analysis

/-- Two packages are documented in the same tree, or there is the same reason why they are not. -/
inductive SameOutcome : Except FatalError DocModel → Except FatalError DocModel → Prop
  | fatal (error : FatalError) : SameOutcome (.error error) (.error error)
  | documented {linkMode : LinkMode} {tree tree' : DocModule} (h : tree.SameTree tree') :
    SameOutcome (.ok ⟨linkMode, tree⟩) (.ok ⟨linkMode, tree'⟩)

/-- **The order of modules does not change what is documented.**  Modules of distinct names, given
    in two orders, are documented in the same tree up to the order of the modules below a module,
    when no definition has accepted rules from two modules. -/
theorem resolvePackage_perm [YamlReader] (root : String) (config : Config)
    {inputs inputs' : List ModuleInput}
    (hperm : inputs.Perm inputs') (hnames : (inputs.map ModuleInput.name).Nodup)
    (hlength : inputs.length + 1 < UInt32.size)
    (hrules : (Analysis.start root inputs config).prepare.fatal? = none →
      (Analysis.start root inputs config).prepare.resolveImports.evaluateTypes.RulesApart) :
    SameOutcome (resolvePackage root inputs config) (resolvePackage root inputs' config) := by
  have hprepare : (Analysis.start root inputs config).prepare.Shuffled
      (Analysis.start root inputs' config).prepare :=
    (Analysis.shuffled_register root config hperm hnames hlength).mergeModules
  unfold resolvePackage Analysis.document
  dsimp only
  generalize (Analysis.start root inputs config).prepare = a at hprepare hrules
  generalize (Analysis.start root inputs' config).prepare = b at hprepare
  rw [← hprepare.fatal?]
  cases hfatal : a.fatal? with
  | some error => exact .fatal error
  | none =>
    have hcomplete : a.complete.Shuffled b.complete :=
      hprepare.resolveImports.evaluateTypes.applyVisibility (hrules hfatal)
    have hlength : a.complete.modules.length = b.complete.modules.length := by
      obtain ⟨ts, hts, hsame⟩ := hcomplete.modules
      exact hsame.length_eq.trans hts.length_eq
    unfold Analysis.assemble
    dsimp only
    rw [← hprepare.root, ← hprepare.config]
    rw [hcomplete.root]
    rcases rel_cases (hcomplete.state? b.complete.root) with ⟨ha, hb⟩ | ⟨s, t, ha, hb, hst⟩
    · rw [ha, hb]
      exact .fatal _
    · rw [ha, hb, Option.map_some, Option.map_some, hlength]
      exact .documented (hcomplete.sameTree_treeOf _ hst)

/-- Modules of which two state rules, each about a definition of its own, one by an import. -/
def twoRulers : List ModuleInput := [
  { name := "pkg", isPackage := true
    source := some (.parse "from .m import f\n\n__autodoc__ = \x7b'f': False, 'f.x': 'X.'\x7d\n" "pkg" true) },
  { name := "pkg.m"
    source := some (.parse "class f:\n    x = 1\n\ndef g(): ...\n\n__autodoc__ = \x7b'g': 'Get.'\x7d\n"
      "pkg.m" false) }]

/-- Two modules with rules give the same outcome in either order. -/
theorem resolvePackage_perm_twoRulers :
    twoRulers.Perm twoRulers.reverse ∧ (twoRulers.map ModuleInput.name).Nodup ∧
      twoRulers.length + 1 < UInt32.size ∧
      ((Analysis.start "pkg" twoRulers {}).prepare.fatal? = none →
        (Analysis.start "pkg" twoRulers {}).prepare.resolveImports.evaluateTypes.RulesApart) ∧
      SameOutcome (resolvePackage "pkg" twoRulers {}) (resolvePackage "pkg" twoRulers.reverse {}) := by
  have hperm : twoRulers.Perm twoRulers.reverse := (List.reverse_perm _).symm
  have hnames : (twoRulers.map ModuleInput.name).Nodup := by decide
  have hlength : twoRulers.length + 1 < UInt32.size := by decide
  have hrules : (Analysis.start "pkg" twoRulers {}).prepare.resolveImports.evaluateTypes.RulesApart := by
    decide +kernel
  exact ⟨hperm, hnames, hlength, fun _ => hrules,
    resolvePackage_perm "pkg" {} hperm hnames hlength fun _ => hrules⟩

end PackageDoc
