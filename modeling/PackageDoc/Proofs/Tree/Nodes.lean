import PackageDoc.Proofs.Merge.Nodes
import PackageDoc.Proofs.Tree.Assembly

namespace PackageDoc

open DocModule

/-!
# The nodes of a module

A documented module has a node for each definition of its view, below one another as the definitions
are, and one for each import that a rule is about.

* `DocModule.nodes` — all nodes of a module, each with the names that lead to it;
* `Analysis.isShownTo` — a definition and every class around it are visible;
* `Analysis.definitions_moduleOf` — the nodes of definitions, one for each definition of the view;
* `Analysis.reference_of_mem_nodes` — the other nodes are those of imports with a rule;
* `Analysis.exists_module_of_mem` and `Analysis.state_of_mem_walk` — the modules of the tree are those
  registered.
-/

/-! ### Modules below modules -/

namespace DocModule

mutual

/-- What is below a module of a tree is in the tree. -/
theorem walk_subset {m below : DocModule} :
    ∀ tree : DocModule, m ∈ tree.walk → below ∈ m.walk → below ∈ tree.walk
  | ⟨a, b, c, d, e, f, g, h, i, subs, j⟩, hm, hbelow => by
    rw [walk] at hm ⊢
    rcases List.mem_cons.mp hm with rfl | hm
    · rwa [walk] at hbelow
    · exact List.mem_cons_of_mem _ (walkList_subset subs hm hbelow)

/-- What stands below a module of a tree is in the tree. -/
theorem walkList_subset {m below : DocModule} :
    ∀ trees : List DocModule, m ∈ walkList trees → below ∈ m.walk → below ∈ walkList trees
  | [], hm, _ => absurd hm (by simp [walkList])
  | tree :: trees, hm, hbelow => by
    rw [walkList] at hm ⊢
    rcases List.mem_append.mp hm with hm | hm
    · exact List.mem_append_left _ (walk_subset tree hm hbelow)
    · exact List.mem_append_right _ (walkList_subset trees hm hbelow)

end

/-- What a module covers is the module or inside it. -/
theorem inside_of_covers {around name : String} (h : covers around name = true) :
    name = around ∨ Inside around name := by
  rcases Bool.or_eq_true_iff.mp h with h | h
  · exact .inl (by simpa using h)
  · obtain ⟨rest, hrest⟩ := List.isPrefixOf_iff_prefix.mp h
    refine .inr ⟨String.ofList rest, String.toList_inj.mp ?_⟩
    simp only [← hrest, String.toList_append, String.toList_ofList]

end DocModule

/-! ### Nodes where they stand -/

/-- A node where it stands. -/
structure PlacedNode where
  /-- The names that lead to it from the module. -/
  path : List String
  node : DocNode

namespace DocNode

mutual

/-- A node, to which `path` leads, and all nodes below it. -/
def placed (path : List String) : DocNode → List PlacedNode
  | ⟨a, b, c, d, e, f, g, h, i, j, k, l, m, n, members, o⟩ =>
    ⟨path, ⟨a, b, c, d, e, f, g, h, i, j, k, l, m, n, members, o⟩⟩ :: placedList path members

/-- The nodes in the body that `path` leads to, and all nodes below them. -/
def placedList (path : List String) : List DocNode → List PlacedNode
  | [] => []
  | n :: ns => n.placed (path ++ [n.name]) ++ placedList path ns

end

/-- A node is placed in front of its members. -/
theorem placed_eq (path : List String) (n : DocNode) :
    n.placed path = ⟨path, n⟩ :: placedList path n.members := by
  obtain ⟨_, _, _, _, _, _, _, _, _, _, _, _, _, _, members, _⟩ := n
  rw [placed]

/-- Nodes are placed each under its own name. -/
theorem placedList_eq_flatMap (path : List String) (ns : List DocNode) :
    placedList path ns = ns.flatMap fun n => n.placed (path ++ [n.name]) := by
  induction ns with
  | nil => rfl
  | cons n ns ih => rw [placedList, ih, List.flatMap_cons]

end DocNode

namespace DocModule

/-- All nodes of a module, each before those below it. -/
def nodes (m : DocModule) : List PlacedNode :=
  DocNode.placedList [] m.members

/-- The nodes of definitions. -/
def definitions (m : DocModule) : List PlacedNode :=
  m.nodes.filter fun x => x.node.origin.isNone

/-- A module by itself has the same nodes. -/
theorem nodes_alone (m : DocModule) : m.alone.nodes = m.nodes := rfl

/-- So it has the same definitions. -/
theorem definitions_alone (m : DocModule) : m.alone.definitions = m.definitions := rfl

end DocModule

mutual

/-- The path of a node ends with the name of its member. -/
theorem MergedMember.path_of_mem_nodes : ∀ (m : MergedMember) (front : List String)
    (scope : Option ClassScope), ∀ n ∈ m.nodes (front ++ [m.name]) scope,
      n.path = n.path.dropLast ++ [n.member.name]
  | ⟨name, line, docstring, shape, members⟩, front, scope, n, hn => by
    rw [nodes] at hn
    rcases List.mem_cons.mp hn with rfl | hn
    · rw [List.dropLast_concat]
    · exact path_of_mem_nodesList members _ _ n hn

/-- The path of a definition ends with its name. -/
theorem MergedMember.path_of_mem_nodesList : ∀ (ms : List MergedMember) (path : List String)
    (scope : Option ClassScope), ∀ n ∈ nodesList path scope ms,
      n.path = n.path.dropLast ++ [n.member.name]
  | [], _, _, n, hn => absurd hn (by simp [nodesList])
  | m :: ms, path, scope, n, hn => by
    rw [nodesList] at hn
    rcases List.mem_append.mp hn with hn | hn
    · exact path_of_mem_nodes m path scope n hn
    · exact path_of_mem_nodesList ms path scope n hn

end

namespace Analysis

variable {a : Analysis} {s : ModuleState}

/-! ### Nodes of definitions -/

/-- The definition at a path and every class around it are visible. -/
def isShownTo (a : Analysis) (module : String) (path : List String) : Bool :=
  (beginnings path).all fun front => a.isVisible ⟨module, dotted front⟩ (front.getLast?.getD "")

/-- A node is shown where the one around it is shown and it is visible. -/
theorem isShownTo_concat (a : Analysis) (module : String) (path : List String) (name : String) :
    a.isShownTo module (path ++ [name]) =
      (a.isShownTo module path && a.isVisible ⟨module, dotted (path ++ [name])⟩ name) := by
  rw [isShownTo, beginnings_concat, List.all_cons, Bool.and_comm]
  simp [isShownTo]

/-- The node of a definition where it stands in a module, of which `documented` tells whether it is
    documented. -/
def placedNode [YamlReader] (a : Analysis) (s : ModuleState) (documented : Bool) (n : MemberNode) :
    PlacedNode :=
  ⟨n.path, a.nodeOf s ⟨s.name, dotted n.path⟩
    (documented && a.isShownTo s.name n.path.dropLast) n.member⟩

theorem nodeOf_name [YamlReader] (q : QualifiedName) (inherited : Bool) (m : MergedMember) :
    (a.nodeOf s q inherited m).name = m.name := by
  obtain ⟨_, _, _, shape, _⟩ := m
  rw [nodeOf]
  cases shape <;> rfl

theorem nodeOf_qualifiedName [YamlReader] (q : QualifiedName) (inherited : Bool) (m : MergedMember) :
    (a.nodeOf s q inherited m).qualifiedName = q := by
  obtain ⟨_, _, _, shape, _⟩ := m
  rw [nodeOf]
  cases shape <;> rfl

theorem nodeOf_origin [YamlReader] (q : QualifiedName) (inherited : Bool) (m : MergedMember) :
    (a.nodeOf s q inherited m).origin = none := by
  obtain ⟨_, _, _, shape, _⟩ := m
  rw [nodeOf]
  cases shape <;> rfl

/-- A node is documented where those around it are and it is visible. -/
theorem nodeOf_documented [YamlReader] (q : QualifiedName) (inherited : Bool) (m : MergedMember) :
    (a.nodeOf s q inherited m).documented = (inherited && a.isVisible q m.name) := by
  obtain ⟨_, _, _, shape, _⟩ := m
  rw [nodeOf]
  cases shape <;> rfl

/-- Its docstring is the chosen one, cleaned. -/
theorem nodeOf_docstring [YamlReader] (q : QualifiedName) (inherited : Bool) (m : MergedMember) :
    (a.nodeOf s q inherited m).docstring = (a.rawDocstring q m.docstring).map cleanDoc := by
  obtain ⟨_, line, docstring, shape, _⟩ := m
  have htext : ∀ raw, (Documentation.of shape.docstringKind (line.bind knownLine) raw).text =
      raw.map cleanDoc := by
    intro raw
    cases raw <;> rfl
  rw [nodeOf, ← htext]
  cases shape <;> rfl

/-- Its members are documented no more than it is. -/
theorem nodeOf_members [YamlReader] (q : QualifiedName) (inherited : Bool) (m : MergedMember) :
    (a.nodeOf s q inherited m).members =
      a.nodesOf s q (inherited && a.isVisible q m.name) m.members := by
  obtain ⟨_, _, _, shape, _⟩ := m
  rw [nodeOf]
  cases shape <;> rfl

mutual

/-- The node of a definition and the nodes below it, each where its definition stands. -/
theorem placed_nodeOf [YamlReader] (documented : Bool) (front : List String)
    (scope : Option ClassScope) :
    ∀ m : MergedMember,
      (a.nodeOf s ⟨s.name, dotted (front ++ [m.name])⟩ (documented && a.isShownTo s.name front)
        m).placed (front ++ [m.name]) =
      (m.nodes (front ++ [m.name]) scope).map (a.placedNode s documented)
  | ⟨name, line, docstring, shape, members⟩ => by
    have hbelow := placedList_nodesOf documented (front ++ [name]) (by simp)
      (some ⟨dotted (front ++ [name]), members⟩) members
    rw [DocNode.placed_eq, MergedMember.nodes, List.map_cons, ← hbelow, nodeOf_members,
      isShownTo_concat, Bool.and_assoc, placedNode, List.dropLast_concat]

/-- The nodes of a body, to which `path` leads. -/
theorem placedList_nodesOf [YamlReader] (documented : Bool) (path : List String) (hpath : path ≠ [])
    (scope : Option ClassScope) :
    ∀ ms : List MergedMember,
      DocNode.placedList path
        (a.nodesOf s ⟨s.name, dotted path⟩ (documented && a.isShownTo s.name path) ms) =
      (MergedMember.nodesList path scope ms).map (a.placedNode s documented)
  | [] => rfl
  | m :: ms => by
    have hchild : QualifiedName.child ⟨s.name, dotted path⟩ m.name =
        ⟨s.name, dotted (path ++ [m.name])⟩ := by
      rw [QualifiedName.child, dotted_append hpath (by simp)]
      simp [dotted, Text.join]
    rw [nodesOf, DocNode.placedList, MergedMember.nodesList, List.map_append, nodeOf_name, hchild,
      placed_nodeOf documented path scope m, placedList_nodesOf documented path hpath scope ms]

end

/-! ### Nodes of a module -/

/-- The node of an import has no members. -/
theorem placed_referenceNode [YamlReader] (name : String) (decl : ExternalDecl) (origin : Origin)
    (effect : RuleEffect) (inherited : Bool) (path : List String) :
    (a.referenceNode s name decl origin effect inherited).placed path =
      [⟨path, a.referenceNode s name decl origin effect inherited⟩] := by
  rw [DocNode.placed_eq]
  rfl

/-- The node of a definition of a module and the nodes below it. -/
theorem placed_nodeOf_top [YamlReader] (a : Analysis) (s : ModuleState) (documented : Bool)
    (m : MergedMember) :
    (a.nodeOf s ⟨s.name, m.name⟩ documented m).placed [m.name] =
      (m.nodes [m.name] none).map (a.placedNode s documented) := by
  have hone : dotted [m.name] = m.name := by simp [dotted, Text.join]
  have hnodes := placed_nodeOf (a := a) (s := s) documented [] none m
  -- nothing is around it that could be hidden
  have hshown : a.isShownTo s.name [] = true := rfl
  rwa [List.nil_append, hshown, Bool.and_true, hone] at hnodes

/-- **A module has a node for each definition of its view**, where the definition stands. -/
theorem definitions_moduleOf [YamlReader] (a : Analysis) (s : ModuleState) :
    (a.moduleOf s).definitions =
      (s.merged.getD {}).nodes.map (a.placedNode s (a.isDocumented s)) := by
  show (DocNode.placedList []
      ((s.merged.getD {}).items.filterMap (a.itemNode? s (a.isDocumented s)))).filter
        (fun x => x.node.origin.isNone) =
    (MergedMember.nodesList [] none ((s.merged.getD {}).items.filterMap MergedItem.member?)).map
      (a.placedNode s (a.isDocumented s))
  induction (s.merged.getD {}).items with
  | nil => rfl
  | cons item items ih =>
    cases item with
    | member m =>
      have hnode : a.itemNode? s (a.isDocumented s) (.member m) =
          some (a.nodeOf s ⟨s.name, m.name⟩ (a.isDocumented s) m) := rfl
      have hmember : MergedItem.member? (.member m) = some m := rfl
      have hall : ∀ x ∈ (m.nodes [m.name] none).map (a.placedNode s (a.isDocumented s)),
          x.node.origin.isNone = true := by
        intro x hx
        obtain ⟨n, -, rfl⟩ := List.mem_map.mp hx
        rw [placedNode, nodeOf_origin, Option.isNone_none]
      rw [List.filterMap_cons_some hnode, List.filterMap_cons_some hmember, DocNode.placedList,
        List.filter_append, ih, nodeOf_name, List.nil_append, placed_nodeOf_top,
        List.filter_eq_self.mpr hall, MergedMember.nodesList, List.map_append, List.nil_append]
    | external name decl =>
      have hmember : MergedItem.member? (.external name decl) = none := rfl
      rw [List.filterMap_cons_none hmember]
      -- an import has a node only where there is a rule for it, and that node is no definition
      cases hrule : Assoc.get? a.referenceRules (s.id, name) with
      | none =>
        have hnode : a.itemNode? s (a.isDocumented s) (.external name decl) = none := by
          rw [itemNode?, hrule, Option.map_none]
        rwa [List.filterMap_cons_none hnode]
      | some effect =>
        have hnode : a.itemNode? s (a.isDocumented s) (.external name decl) =
            some (a.referenceNode s name decl (a.linkOf s name decl) effect (a.isDocumented s)) := by
          rw [itemNode?, hrule, Option.map_some]
        rw [List.filterMap_cons_some hnode, DocNode.placedList, placed_referenceNode,
          List.filter_append, ih]
        rfl

/-- The other nodes are those of imports that a rule is about. -/
theorem reference_of_mem_nodes [YamlReader] {x : PlacedNode} {origin : Origin}
    (hx : x ∈ (a.moduleOf s).nodes) (horigin : x.node.origin = some origin) :
    ∃ decl effect, MergedItem.external x.node.name decl ∈ (s.merged.getD {}).items ∧
      Assoc.get? a.referenceRules (s.id, x.node.name) = some effect ∧ x.path = [x.node.name] ∧
      x.node = a.referenceNode s x.node.name decl (a.linkOf s x.node.name decl) effect
        (a.isDocumented s) := by
  rw [nodes, DocNode.placedList_eq_flatMap, List.mem_flatMap] at hx
  obtain ⟨node, hnode, hx⟩ := hx
  obtain ⟨item, hitem, hnode⟩ := List.mem_filterMap.mp hnode
  cases item with
  | member m =>
    -- what stands in a definition is a definition
    obtain rfl := Option.some.inj hnode
    rw [List.nil_append, nodeOf_name, placed_nodeOf_top] at hx
    obtain ⟨n, -, rfl⟩ := List.mem_map.mp hx
    rw [placedNode, nodeOf_origin] at horigin
    exact absurd horigin (by simp)
  | external name decl =>
    obtain ⟨effect, heffect, rfl⟩ := Option.map_eq_some_iff.mp hnode
    rw [placed_referenceNode, List.mem_singleton] at hx
    subst hx
    exact ⟨decl, effect, hitem, heffect, rfl, rfl⟩

/-- A definition is documented if its module is and it is shown with every class around it. -/
theorem documented_of_mem_definitions [YamlReader] {x : PlacedNode}
    (hx : x ∈ (a.moduleOf s).definitions) :
    x.node.qualifiedName = ⟨s.name, dotted x.path⟩ ∧
      x.node.documented = (a.isDocumented s && a.isShownTo s.name x.path) := by
  rw [definitions_moduleOf] at hx
  obtain ⟨n, hn, rfl⟩ := List.mem_map.mp hx
  have hpath := MergedMember.path_of_mem_nodesList _ _ _ n hn
  refine ⟨nodeOf_qualifiedName _ _ _, ?_⟩
  show (a.nodeOf s ⟨s.name, dotted n.path⟩ _ n.member).documented = _
  have hshown := a.isShownTo_concat s.name n.path.dropLast n.member.name
  rw [← hpath] at hshown
  rw [nodeOf_documented, Bool.and_assoc, ← hshown]
  rfl

/-! ### Modules of the tree -/

/-- Below a registered module stand registered modules. -/
theorem mem_of_mem_modulesBelow {t : ModuleState} {d : Nat} (hs : s ∈ a.modules)
    (ht : t ∈ a.modulesBelow d s) : t ∈ a.modules := by
  induction d generalizing s with
  | zero => rwa [List.mem_singleton.mp ht]
  | succ d ih =>
    rcases List.mem_cons.mp ht with rfl | ht
    · exact hs
    · obtain ⟨c, hc, ht⟩ := List.mem_flatMap.mp ht
      exact ih (mem_childrenOf.mp hc).1 ht

/-- Every module of the tree is a registered module, as it is documented on its own. -/
theorem state_of_mem_walk [YamlReader] {tree m : DocModule} (htree : a.assemble = some tree)
    (hm : m ∈ tree.walk) :
    ∃ s ∈ a.modules, m.alone = a.moduleOf s := by
  obtain ⟨root, hroot, rfl⟩ := Option.map_eq_some_iff.mp htree
  have halone := List.mem_map_of_mem (f := alone) hm
  rw [walk_treeOf] at halone
  obtain ⟨s, hs, hmodule⟩ := List.mem_map.mp halone
  exact ⟨s, mem_of_mem_modulesBelow (mem_of_state? hroot) hs, hmodule.symm⟩

/-- Every registered module is found in the tree, as it is documented on its own. -/
theorem exists_module_of_mem [YamlReader] {tree : DocModule} (hindexed : a.WellIndexed)
    (htree : a.assemble = some tree) (hs : s ∈ a.modules) :
    ∃ m ∈ tree.walk, tree.findModule? s.name = some m ∧ m.alone = a.moduleOf s := by
  have htree' := htree
  obtain ⟨root, hroot, rfl⟩ := Option.map_eq_some_iff.mp htree
  have hregistered := isRegistered_of_state? hroot
  obtain ⟨hmem, hname⟩ := hindexed.state?_eq_some_iff.mp hroot
  have hbelow := (perm_modulesBelow_root hindexed hregistered hmem hname).symm.subset hs
  obtain ⟨m, hm⟩ := Option.isSome_iff_exists.mp
    (isSome_findModule?_treeOf hindexed hregistered hmem hbelow)
  obtain ⟨hwalk, hmname⟩ := mem_of_findModule? _ hm
  obtain ⟨t, ht, halone⟩ := state_of_mem_walk htree' hwalk
  -- no other registered module has the name
  have htname : t.name = s.name := by
    rw [← hmname]
    exact (congrArg DocModule.name halone).symm
  obtain rfl := hindexed.eq_of_name ht hs htname
  exact ⟨m, hwalk, hm, halone⟩

end Analysis
end PackageDoc
