import PackageDoc.Analysis.Links
import PackageDoc.Analysis.Target
import PackageDoc.Proofs.Imports.Origins
import Mathlib.Data.List.Forall2

namespace PackageDoc

/-!
# Analyses that bind the same names

Where a name comes from depends on which names the modules define and import, and on nothing else
that is known of them.

* `Analysis.BindsAlike` — the modules of two analyses define and import the same names, and are in
  one order;
* `Analysis.KnowsAlike` — the modules of a name define and import the same names;
* `Analysis.KnowsAlike.originOf` — origins are the same;
* `Analysis.KnowsAlike.pathTarget` — the targets of paths are the same;
* `Analysis.bindsAlike_resolveImports` — recording the origins of imports changes no origin.
-/

/-- Related options are both none or both values that are related. -/
theorem rel_cases {α β : Type} {r : α → β → Prop} {x : Option α} {y : Option β}
    (h : Option.Rel r x y) :
    (x = none ∧ y = none) ∨ ∃ v w, x = some v ∧ y = some w ∧ r v w := by
  cases h with
  | none => exact .inl ⟨rfl, rfl⟩
  | some h => exact .inr ⟨_, _, rfl, rfl, h⟩

/-- Related lists have related elements at every place. -/
theorem rel_getElem?_of_forall₂ {α β : Type} {r : α → β → Prop} {xs : List α} {ys : List β}
    (h : List.Forall₂ r xs ys) (i : Nat) : Option.Rel r xs[i]? ys[i]? := by
  induction h generalizing i with
  | nil => exact .none
  | cons hxy _ ih =>
    cases i with
    | zero => exact .some hxy
    | succ i => exact ih i

/-- An element of a list is related to one of a list of related elements. -/
theorem exists_of_forall₂ {α β : Type} {R : α → β → Prop} {xs : List α} {ys : List β} {x : α}
    (h : List.Forall₂ R xs ys) (hx : x ∈ xs) : ∃ y ∈ ys, R x y := by
  obtain ⟨i, hi⟩ := List.getElem?_of_mem hx
  rcases rel_cases (rel_getElem?_of_forall₂ h i) with ⟨hnone, -⟩ | ⟨x', y, hx', hy, hxy⟩
  · exact absurd (hi.symm.trans hnone) (Option.some_ne_none x)
  · obtain rfl := Option.some.inj (hi.symm.trans hx')
    exact ⟨y, List.mem_of_getElem? hy, hxy⟩

/-- Two views define the same names and have the same imports. -/
def MergedModule.BindsAlike (m n : MergedModule) : Prop :=
  (∀ name, (m.member? name).isSome = (n.member? name).isSome) ∧ m.externals = n.externals

/-- Two modules have the same name and views that bind alike. -/
def ModuleState.BindsAlike (s t : ModuleState) : Prop :=
  s.name = t.name ∧ Option.Rel MergedModule.BindsAlike s.merged t.merged

/-- The names that the module imports, with the imports, in order. -/
def ModuleState.imports (s : ModuleState) : List (String × ExternalDecl) :=
  (s.merged.map MergedModule.externals).getD []

/-- The imports of a merged module are those bound in it. -/
theorem ModuleState.imports_of_merged {s : ModuleState} {m : MergedModule} (h : s.merged = some m) :
    s.imports = m.externals := by
  rw [ModuleState.imports, h, Option.map_some, Option.getD_some]

namespace Analysis

/-- Two analyses of the same package have modules that bind alike, in the same order. -/
structure BindsAlike (a b : Analysis) : Prop where
  root : a.root = b.root
  config : a.config = b.config
  moduleIndex : a.moduleIndex = b.moduleIndex
  modules : List.Forall₂ ModuleState.BindsAlike a.modules b.modules

/-- Two analyses of the same package know modules of the same names, which bind alike, whatever the
    order. -/
structure KnowsAlike (a b : Analysis) : Prop where
  root : a.root = b.root
  config : a.config = b.config
  isRegistered : ∀ module, a.isRegistered module = b.isRegistered module
  merged? : ∀ module, Option.Rel MergedModule.BindsAlike (a.merged? module) (b.merged? module)
  importCount : a.importCount = b.importCount

variable {a b : Analysis}

namespace KnowsAlike

/-- Analyses that know alike find the same submodules. -/
theorem submoduleOr (h : a.KnowsAlike b) (module name : String)
    (failure : ChainFailure) : a.submoduleOr module name failure =
      b.submoduleOr module name failure := by
  simp only [Analysis.submoduleOr, h.isRegistered]

/-- They have the same import edges. -/
theorem edge? (h : a.KnowsAlike b) (module name : String) :
    a.edge? module name = b.edge? module name := by
  unfold Analysis.edge?
  rcases rel_cases (h.merged? module) with ⟨ha, hb⟩ | ⟨m, n, ha, hb, hmn⟩
  · rw [ha, hb]
  · simp only [ha, hb, Option.bind_eq_bind, Option.bind_some, MergedModule.external?, hmn.1 name,
      hmn.2]

/-- Their chains end alike. -/
theorem chainEnd (h : a.KnowsAlike b) (module name : String) :
    a.chainEnd module name = b.chainEnd module name := by
  cases hreg : a.isRegistered module with
  | false =>
    have hinside : (a.isInternal module && !a.config.isSkipped module) =
        (b.isInternal module && !b.config.isSkipped module) := by
      rw [isInternal, isInternal, h.root, h.config]
    rw [chainEnd_of_not_registered (p := (module, name)) hreg,
      chainEnd_of_not_registered (p := (module, name)) (h.isRegistered module ▸ hreg)]
    dsimp only
    rw [hinside]
  | true =>
    rw [chainEnd_of_registered (p := (module, name)) hreg,
      chainEnd_of_registered (p := (module, name)) (h.isRegistered module ▸ hreg)]
    rcases rel_cases (h.merged? module) with ⟨ha, hb⟩ | ⟨m, n, ha, hb, hmn⟩
    · simp only [ha, hb]
    · simp only [ha, hb, hmn.1 name, h.submoduleOr]

/-- Their chains are followed alike. -/
theorem follow (h : a.KnowsAlike b) (steps : Nat) (visited : List (String × String))
    (module name : String) :
    a.follow steps visited module name = b.follow steps visited module name := by
  induction steps generalizing visited module name with
  | zero => simp only [Analysis.follow, h.submoduleOr]
  | succ steps ih => simp only [Analysis.follow, h.submoduleOr, h.edge?, h.chainEnd, ih]

/-- Origins depend on the names that modules bind. -/
theorem originOf (h : a.KnowsAlike b) (module name : String) :
    a.originOf module name = b.originOf module name := by
  simp only [Analysis.originOf, h.importCount, h.follow]

/-- Knowing alike goes both ways. -/
theorem symm (h : a.KnowsAlike b) : b.KnowsAlike a := by
  refine ⟨h.root.symm, h.config.symm, fun module => (h.isRegistered module).symm,
    fun module => ?_, h.importCount.symm⟩
  rcases rel_cases (h.merged? module) with ⟨ha, hb⟩ | ⟨m, n, ha, hb, hmn⟩
  · rw [ha, hb]
    exact .none
  · rw [ha, hb]
    exact .some ⟨fun name => (hmn.1 name).symm, hmn.2.symm⟩

/-! ### Paths -/

/-- Analyses that know alike find the same longest module in a path. -/
theorem longestModule? (h : a.KnowsAlike b) (before rest : List String) :
    a.longestModule? before rest = b.longestModule? before rest := by
  induction rest generalizing before with
  | nil => rfl
  | cons part rest ih => simp only [Analysis.longestModule?, ih, h.isRegistered]

/-- They look a path up alike, given the paths behind it. -/
theorem targetOnce (h : a.KnowsAlike b)
    (onPath : List String → Option (Except RawReason Target)) (path : List String) :
    a.targetOnce onPath path = b.targetOnce onPath path := by
  simp only [Analysis.targetOnce, h.longestModule?, h.originOf]

/-- A path that has a target in one has it in the other. -/
theorem pathTarget_eq_some (h : a.KnowsAlike b) {path : List String}
    {outcome : Except RawReason Target} (hpath : a.pathTarget path = some outcome) :
    b.pathTarget path = some outcome := by
  refine pathTarget.partial_correctness a (fun path outcome => b.pathTarget path = some outcome) ?_
    path outcome hpath
  intro onPath ih path outcome honce
  rw [h.targetOnce] at honce
  rw [pathTarget]
  -- a round finds no less when more is found for the path that is put in
  exact targetOnce_congr b (r := fun x y => x = some outcome → y = some outcome)
    (fun _ hx => hx) (fun next hnext => ih next outcome hnext) path honce

/-- The targets of paths depend on the names that modules bind. -/
theorem pathTarget (h : a.KnowsAlike b) (path : List String) :
    a.pathTarget path = b.pathTarget path := by
  cases ha : a.pathTarget path with
  | some outcome => exact (h.pathTarget_eq_some ha).symm
  | none =>
    cases hb : b.pathTarget path with
    | none => rfl
    | some outcome => exact absurd (h.symm.pathTarget_eq_some hb) (by simp [ha])

end KnowsAlike

/-- The index leads to modules that bind alike. -/
theorem BindsAlike.state? (h : a.BindsAlike b) (module : String) :
    Option.Rel ModuleState.BindsAlike (a.state? module) (b.state? module) := by
  unfold Analysis.state? moduleId?
  rw [h.moduleIndex]
  cases Assoc.get? b.moduleIndex module with
  | none => exact .none
  | some id => exact rel_getElem?_of_forall₂ h.modules id.index

/-- Analyses that bind alike have modules that bind alike. -/
theorem BindsAlike.merged? (h : a.BindsAlike b) (module : String) :
    Option.Rel MergedModule.BindsAlike (a.merged? module) (b.merged? module) := by
  unfold Analysis.merged?
  rcases rel_cases (h.state? module) with ⟨ha, hb⟩ | ⟨s, t, ha, hb, -, hst⟩
  · rw [ha, hb]
    exact .none
  · rw [ha, hb]
    exact hst

/-- Modules that bind alike have the same imports. -/
theorem importsOf_eq_of_rel {module : String}
    (h : Option.Rel MergedModule.BindsAlike (a.merged? module) (b.merged? module)) :
    a.importsOf module = b.importsOf module := by
  rw [importsOf, importsOf]
  rcases rel_cases h with ⟨ha, hb⟩ | ⟨m, n, ha, hb, hmn⟩
  · rw [ha, hb]
  · rw [ha, hb, Option.map_some, Option.map_some, hmn.2]

/-- They have as many imports. -/
theorem BindsAlike.importCount (h : a.BindsAlike b) : a.importCount = b.importCount := by
  have himports : a.importsOf = b.importsOf :=
    funext fun module => importsOf_eq_of_rel (h.merged? module)
  rw [Analysis.importCount, Analysis.importCount, registeredNames, registeredNames, h.moduleIndex,
    himports]

/-- They know alike. -/
theorem BindsAlike.knowsAlike (h : a.BindsAlike b) : a.KnowsAlike b := by
  refine ⟨h.root, h.config, fun module => ?_, h.merged?, h.importCount⟩
  rw [isRegistered, isRegistered, h.moduleIndex]

/-! ### Links -/

/-- Resolving the imports leaves bindings as they are. -/
theorem bindsAlike_resolveImports (a : Analysis) : a.resolveImports.BindsAlike a := by
  refine ⟨rfl, rfl, rfl, List.forall₂_map_left_iff.mpr (List.forall₂_same.mpr fun s _ => ⟨rfl, ?_⟩)⟩
  change Option.Rel _ s.merged s.merged
  cases s.merged with
  | none => exact .none
  | some m => exact .some ⟨fun _ => rfl, rfl⟩

/-- The links of a module are its imports with their origins. -/
theorem linksOf_eq (a : Analysis) (s : ModuleState) :
    a.linksOf s = s.imports.map fun e => (e.1, e.2.line, a.originOf s.name e.1) := by
  rw [linksOf, ModuleState.imports]
  cases s.merged <;> rfl

/-- The links are recorded one by one, module by module. -/
theorem links_resolveImports (a : Analysis) : a.resolveImports.links =
    (a.modules.flatMap fun s =>
      s.imports.map fun e => ((s.id, e.1), a.originOf s.name e.1)).foldl
        (fun links e => Assoc.bind links e.1 e.2) a.links := by
  rw [List.foldl_flatMap]
  refine List.foldl_ext _ _ _ fun links s _ => ?_
  rw [linksOf_eq, List.foldl_map, List.foldl_map]

/-- Every origin that is recorded is that of a name. -/
theorem exists_originOf_of_mem_links (hlinks : a.links = [])
    {key : ModuleId × String} {origin : Origin} (h : (key, origin) ∈ a.resolveImports.links) :
    ∃ module name, origin = a.originOf module name := by
  rw [links_resolveImports, hlinks] at h
  rcases Assoc.mem_of_mem_foldl_bind h with h | h
  · exact absurd h (by simp)
  · obtain ⟨s, -, hmem⟩ := List.mem_flatMap.mp h
    obtain ⟨e, -, heq⟩ := List.mem_map.mp hmem
    exact ⟨s.name, e.1, (Prod.mk.inj heq).2.symm⟩

end Analysis
end PackageDoc
