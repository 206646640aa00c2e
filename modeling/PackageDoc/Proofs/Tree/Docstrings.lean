import PackageDoc.Analysis.Run
import PackageDoc.Proofs.Steps.Frames
import PackageDoc.Proofs.Tree.Nodes
import PackageDoc.Yaml.Value

namespace PackageDoc

open DocModule

/-!
# Docstrings stay as merging bound them

No step after merging touches a docstring: what a node shows is the docstring of its definition,
unless a rule gives another.

* `MergedModule.docs_untyped` — the docstrings of a view do not depend on its types;
* `Analysis.exists_sameDocs_complete` — the steps keep the docstrings of every view;
* `Analysis.documents_moduleOf` — a module documents the definitions of its view;
* `Analysis.docstrings_kept` — what the nodes of the documentation show.
-/

/-! ### Docstrings of views -/

/-- The path of a definition and its docstring. -/
def MemberNode.doc (n : MemberNode) : List String × Option String :=
  (n.path, n.member.docstring)

mutual

/-- The docstrings below a member are the same without its types. -/
theorem MergedMember.docs_untyped : ∀ (m : MergedMember) (path : List String)
    (scope scope' : Option ClassScope),
      (m.untyped.nodes path scope').map MemberNode.doc = (m.nodes path scope).map MemberNode.doc
  | ⟨name, line, docstring, shape, members⟩, path, scope, scope' => by
    rw [untyped, nodes, nodes, List.map_cons, List.map_cons, docsList_untyped members path]
    rfl

/-- Docstrings do not depend on types. -/
theorem MergedMember.docsList_untyped : ∀ (ms : List MergedMember) (path : List String)
    (scope scope' : Option ClassScope),
      (nodesList path scope' (untypedList ms)).map MemberNode.doc =
        (nodesList path scope ms).map MemberNode.doc
  | [], _, _, _ => rfl
  | m :: ms, path, scope, scope' => by
    have hname : m.untyped.name = m.name := by
      obtain ⟨_, _, _, _, _⟩ := m
      rw [untyped]
    rw [untypedList, nodesList, nodesList, List.map_append, List.map_append, hname,
      docs_untyped m _ scope, docsList_untyped ms path scope]

end

/-- So are those of a module. -/
theorem MergedModule.docs_untyped (m : MergedModule) :
    m.untyped.nodes.map MemberNode.doc = m.nodes.map MemberNode.doc := by
  have hmembers : m.untyped.members = MergedMember.untypedList m.members := by
    rw [MergedMember.untypedList_eq_map, members, members, untyped, List.filterMap_map,
      List.map_filterMap]
    refine List.filterMap_congr fun item _ => ?_
    cases item <;> rfl
  rw [nodes, nodes, hmembers]
  exact MergedMember.docsList_untyped m.members [] none none

/-! ### Docstrings of nodes -/

namespace Analysis

/-- The docstring that the node of a definition is to show: that of a rule, or else that of the
    definition, without its indentation. -/
def docstringAt (a : Analysis) (module : String) (n : MemberNode) : Option String :=
  match Assoc.get? a.rules (module, dotted n.path) with
  | some (.documented text) => some (cleanDoc text)
  | _ => n.member.docstring.map cleanDoc

/-- The node documents a definition of the module. -/
structure Documents (a : Analysis) (module : String) (n : MemberNode) (x : PlacedNode) : Prop where
  path : x.path = n.path
  name : x.node.qualifiedName = ⟨module, dotted n.path⟩
  docstring : x.node.docstring = a.docstringAt module n

variable {a : Analysis} {s t : ModuleState}

/-- The node of a member has the docstring that is chosen for it. -/
theorem docstring_nodeOf [YamlReader] (n : MemberNode) (inherited : Bool) :
    (a.nodeOf s ⟨s.name, dotted n.path⟩ inherited n.member).docstring = a.docstringAt s.name n := by
  rw [nodeOf_docstring, rawDocstring, docstringAt]
  cases Assoc.get? a.rules (s.name, dotted n.path) with
  | none => rfl
  | some effect => cases effect <;> rfl

/-- A module documents the definitions of any view with the same docstrings at the same paths. -/
theorem documents_moduleOf [YamlReader] {ns : List MemberNode}
    (h : (t.merged.getD {}).nodes.map MemberNode.doc = ns.map MemberNode.doc) :
    List.Forall₂ (a.Documents t.name) ns (a.moduleOf t).definitions := by
  have hdocs : List.Forall₂ (fun n n' => n.doc = n'.doc) ns (t.merged.getD {}).nodes := by
    have hall : List.Forall₂ (· = ·) (ns.map MemberNode.doc)
        ((t.merged.getD {}).nodes.map MemberNode.doc) := by
      rw [List.forall₂_eq_eq_eq]
      exact h.symm
    exact List.forall₂_map_right_iff.mp (List.forall₂_map_left_iff.mp hall)
  rw [definitions_moduleOf]
  refine List.forall₂_map_right_iff.mpr (hdocs.imp fun n n' hdoc => ?_)
  obtain ⟨hpath, hdocstring⟩ := Prod.mk.inj hdoc
  have hname : (a.placedNode t (a.isDocumented t) n').node.qualifiedName = ⟨t.name, dotted n'.path⟩ :=
    nodeOf_qualifiedName _ _ _
  refine ⟨hpath.symm, hpath ▸ hname, ?_⟩
  show (a.nodeOf t ⟨t.name, dotted n'.path⟩ _ n'.member).docstring = _
  rw [docstring_nodeOf, docstringAt, docstringAt, hpath, hdocstring]

/-- The steps after merging keep the name of a module and the docstrings of its view. -/
def SameDocs (s t : ModuleState) : Prop :=
  t.name = s.name ∧ (t.merged.getD {}).nodes.map MemberNode.doc =
    (s.merged.getD {}).nodes.map MemberNode.doc

/-- Reports change no docstring. -/
theorem SameDocs.of_reports (h : s.SameButReports t) : SameDocs s t :=
  ⟨h.name, by rw [h.merged]⟩

/-- Nor do types. -/
theorem SameDocs.of_types (h : s.SameButTypes t) : SameDocs s t := by
  have hname : t.name = s.name := by rw [h.rest]; rfl
  refine ⟨hname, ?_⟩
  have hmerged := h.merged
  cases hs : s.merged with
  | none =>
    have ht : t.merged = none := by simpa [hs] using hmerged
    rw [ht]
  | some m =>
    obtain ⟨m', ht, hm⟩ := Option.map_eq_some_iff.mp (hs ▸ hmerged)
    rw [ht, Option.getD_some, Option.getD_some, ← m'.docs_untyped, hm, m.docs_untyped]

theorem SameDocs.trans {u : ModuleState} (h : SameDocs s t) (h' : SameDocs t u) : SameDocs s u :=
  ⟨h'.1.trans h.1, h'.2.trans h.2⟩

/-- The steps after merging keep all docstrings. -/
theorem exists_sameDocs_complete (hs : s ∈ a.modules) : ∃ t ∈ a.complete.modules, SameDocs s t := by
  obtain ⟨s₁, hs₁, hlinked⟩ := exists_of_forall₂ a.linksOnly_resolveImports.modules hs
  obtain ⟨s₂, hs₂, htyped⟩ := exists_of_forall₂ a.resolveImports.typesOnly_evaluateTypes.modules hs₁
  obtain ⟨t, ht, hruled⟩ :=
    exists_of_forall₂ a.resolveImports.evaluateTypes.rulesOnly_applyVisibility.modules hs₂
  exact ⟨t, ht, (SameDocs.of_reports hlinked).trans
    ((SameDocs.of_types htyped).trans (SameDocs.of_reports hruled))⟩

/-- **Docstrings stay as merging bound them.**  Following imports changes only links and reports,
    evaluating annotations only their types and reports, and applying rules only rules and reports.
    So in the documentation of a package there is, for every definition of every module, a node at
    its path that shows the docstring of a rule for it, or else the one that merging bound. -/
theorem docstrings_kept [YamlReader] :
    (∀ a : Analysis, a.LinksOnly a.resolveImports ∧ a.TypesOnly a.evaluateTypes ∧
      a.RulesOnly a.applyVisibility) ∧
    ∀ (root : String) (inputs : List ModuleInput) (config : Config) (model : DocModel),
      resolvePackage root inputs config = .ok model →
      ∀ s ∈ (start root inputs config).prepare.modules,
        ∃ d ∈ model.modules, model.module? s.name = some d ∧
          List.Forall₂ ((start root inputs config).prepare.complete.Documents s.name)
            (s.merged.getD {}).nodes d.definitions := by
  refine ⟨fun a => ⟨a.linksOnly_resolveImports, a.typesOnly_evaluateTypes,
    a.rulesOnly_applyVisibility⟩, fun root inputs config model hmodel s hs => ?_⟩
  have hreached : Reached root inputs config (start root inputs config).prepare.complete :=
    .applyVisibility (.evaluateTypes (.resolveImports (.mergeModules (.register .start))))
  -- the documentation is the tree of the complete analysis
  obtain ⟨tree, htree, rfl⟩ : ∃ tree, (start root inputs config).prepare.complete.assemble = some tree ∧
      model = ⟨(start root inputs config).prepare.config.linkMode, tree⟩ := by
    rw [resolvePackage, document] at hmodel
    split at hmodel
    · exact absurd hmodel (by simp)
    · split at hmodel
      · rename_i tree htree
        exact ⟨tree, htree, (Except.ok.inj hmodel).symm⟩
      · exact absurd hmodel (by simp)
  obtain ⟨t, ht, hname, hdocs⟩ := exists_sameDocs_complete hs
  obtain ⟨d, hd, hfind, halone⟩ := exists_module_of_mem hreached.wellIndexed htree ht
  refine ⟨d, hd, hname ▸ hfind, ?_⟩
  rw [← hname, ← definitions_alone, halone]
  exact documents_moduleOf hdocs

/-- A class whose methods have docstrings, to one of which another module gives a new one. -/
def redocumented : List ModuleInput := [
  { name := "pkg", isPackage := true
    source := some (.parse "from .m import C\n\n__autodoc__ = \x7b'C.f': 'Given.'\x7d\n" "pkg" true) },
  { name := "pkg.m"
    source := some (.parse ("class C:\n    'Own.'\n\n    def f(x: int):\n        'Written.'\n\n" ++
      "    def g():\n        'Left.'\n\n    h = 1\n") "pkg.m" false) }]

/-- The rule's docstring stands in the place of the method's; nothing else is new. -/
theorem docstrings_kept_redocumented : ∃ model, resolvePackage "pkg" redocumented {} = .ok model ∧
    (∀ s ∈ (start "pkg" redocumented {}).prepare.modules,
      ∃ d ∈ model.modules, model.module? s.name = some d ∧
        List.Forall₂ ((start "pkg" redocumented {}).prepare.complete.Documents s.name)
          (s.merged.getD {}).nodes d.definitions) ∧
    (model.modules.map fun d => d.definitions.map fun x => (x.path, x.node.docstring)) =
      [[], [(["C"], some "Own."), (["C", "f"], some "Given."), (["C", "g"], some "Left."),
        (["C", "h"], none)]] := by
  have hdocs : (resolvePackage "pkg" redocumented {}).toOption.map (fun model =>
      model.modules.map fun d => d.definitions.map fun x => (x.path, x.node.docstring)) =
      some [[], [(["C"], some "Own."), (["C", "f"], some "Given."), (["C", "g"], some "Left."),
        (["C", "h"], none)]] := by
    decide +kernel
  cases hmodel : resolvePackage "pkg" redocumented {} with
  | error e =>
    rw [hmodel] at hdocs
    exact absurd hdocs (by simp [Except.toOption])
  | ok model =>
    rw [hmodel] at hdocs
    exact ⟨model, rfl, docstrings_kept.2 "pkg" redocumented {} model hmodel, Option.some.inj hdocs⟩

end Analysis
end PackageDoc
