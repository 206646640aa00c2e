import PackageDoc.Proofs.Syntax.Reading
import PackageDoc.Proofs.Tree.Nodes
import PackageDoc.Yaml.Value

namespace PackageDoc

open DocModule

/-!
# What is documented

Whether a module is documented is told by its name and its status, whatever stands around it; a
definition of it is documented if every class around it is visible, and it is itself.

* `Analysis.IsMarked` — a pattern or a leading underscore leaves a module out, and with it the modules
  inside it (`Analysis.IsMarked.inside`);
* `Analysis.Shows` — what a rule, or else the name, says of a definition;
* `Analysis.isShownTo_iff` — a definition is visible if it and the classes around it are shown;
* `Analysis.assemble_flags` — what is documented in the tree.
-/

variable {root name around : String}

/-! ### Names -/

/-- The name has a leading underscore. -/
def IsPrivate (name : String) : Prop :=
  ∃ rest, name = "_" ++ rest

/-- A name is taken for private exactly when it is. -/
theorem isPrivateName_iff : isPrivateName name = true ↔ IsPrivate name := by
  rw [isPrivateName, beq_iff_eq]
  constructor
  · intro h
    obtain ⟨cs, hcs⟩ : ∃ cs, name.toList = '_' :: cs := by
      cases hlist : name.toList with
      | nil => simp [hlist] at h
      | cons c cs =>
        obtain rfl : c = '_' := by simpa [hlist] using h
        exact ⟨cs, rfl⟩
    have hname : name.toList = ("_" ++ String.ofList cs).toList := by
      rw [hcs, String.toList_append, String.toList_ofList, String.toList_ofList]
      rfl
    exact ⟨String.ofList cs, String.toList_inj.mp hname⟩
  · rintro ⟨rest, rfl⟩
    rw [String.toList_append]
    rfl

/-- Below the root the name of the module has a part with a leading underscore. -/
def HasPrivatePart (root name : String) : Prop :=
  ∃ rest, name = root ++ "." ++ rest ∧ ∃ part ∈ segments rest, IsPrivate part

/-- A module is private exactly when a part of its name below the root is. -/
theorem Analysis.isPrivateModule_iff :
    Analysis.isPrivateModule root name = true ↔ HasPrivatePart root name := by
  have hname : ∀ rest : List Char, name.toList = (root ++ ".").toList ++ rest ↔
      name = root ++ "." ++ String.ofList rest := by
    intro rest
    rw [← String.toList_inj]
    simp only [String.toList_append, String.toList_ofList]
  have hany : ∀ rest : String, (segments rest).any isPrivateName = true ↔
      ∃ part ∈ segments rest, IsPrivate part := by
    intro rest
    simp only [List.any_eq_true, isPrivateName_iff]
  rw [Analysis.isPrivateModule]
  cases hstrip : Text.stripStart? (root ++ ".").toList name.toList with
  | none =>
    refine ⟨fun h => absurd h (by simp), ?_⟩
    rintro ⟨rest, hrest, -⟩
    have hlist := (hname rest.toList).mpr (by rwa [String.ofList_toList])
    rw [stripStart?_eq_some.mpr hlist] at hstrip
    exact absurd hstrip (by simp)
  | some rest =>
    have hrest := (hname rest).mp (stripStart?_eq_some.mp hstrip)
    refine (hany _).trans ⟨fun h => ⟨_, hrest, h⟩, ?_⟩
    rintro ⟨rest', hrest', h⟩
    -- a name is continued in one way only
    have heq : String.ofList rest = rest' := by
      have hlists := congrArg String.toList (hrest.symm.trans hrest')
      simp only [String.toList_append] at hlists
      exact String.toList_inj.mp (List.append_cancel_left hlists)
    rwa [heq]

/-- What is inside a private module is private. -/
theorem HasPrivatePart.inside (h : HasPrivatePart root around) (hinside : Inside around name) :
    HasPrivatePart root name := by
  obtain ⟨rest, rfl, part, hpart, hprivate⟩ := h
  obtain ⟨more, rfl⟩ := hinside
  refine ⟨rest ++ "." ++ more, by simp only [String.append_assoc], part, ?_, hprivate⟩
  rw [segments_inside]
  exact List.mem_append_left _ hpart

/-- The names around a module are its own and those that it is inside. -/
theorem mem_enclosingNames : around ∈ enclosingNames name ↔ around = name ∨ Inside around name := by
  obtain ⟨front, part, hparts⟩ := (List.eq_nil_or_concat' _).resolve_left (segments_ne_nil name)
  have hnames : enclosingNames name = name :: (enclosingNames name).drop 1 := by
    have hself : dotted (front ++ [part]) = name := by rw [← hparts, dotted_segments]
    rw [enclosingNames, hparts, beginnings_concat, List.map_cons, List.drop_one, List.tail_cons,
      hself]
  rw [hnames, List.mem_cons, mem_drop_enclosingNames]

/-- A pattern leaves the module, or a package around it, out of the documentation. -/
def Config.Undocuments (config : Config) (name : String) : Prop :=
  ∃ around, (around = name ∨ Inside around name) ∧
    ∃ pattern ∈ config.undoc.patterns, globMatches pattern around = true

/-- A name is left out exactly when a setting leaves it out. -/
theorem Config.isUndocumented_iff (config : Config) :
    config.isUndocumented name = true ↔ config.Undocuments name := by
  simp only [Config.isUndocumented, PatternSet.matches?, List.any_eq_true, mem_enclosingNames,
    Config.Undocuments]

/-- What is inside a name that is left out is left out. -/
theorem Config.Undocuments.inside {config : Config} (h : config.Undocuments around)
    (hinside : Inside around name) : config.Undocuments name := by
  obtain ⟨outer, houter, hpattern⟩ := h
  refine ⟨outer, .inr ?_, hpattern⟩
  rcases houter with rfl | houter
  · exact hinside
  · exact houter.trans hinside

namespace Analysis

variable {a : Analysis} {s : ModuleState} {module : String} {path : List String}

/-! ### Modules -/

/-- A pattern or a leading underscore leaves the module out of the documentation. -/
def IsMarked (a : Analysis) (name : String) : Prop :=
  a.config.Undocuments name ∨ HasPrivatePart a.root name

/-- What is inside a module that is left out is left out. -/
theorem IsMarked.inside (h : a.IsMarked around) (hinside : Inside around name) : a.IsMarked name :=
  h.imp (fun h => h.inside hinside) fun h => h.inside hinside

/-- A module is documented when it is resolved and nothing marks it. -/
theorem isDocumented_iff (a : Analysis) (s : ModuleState) :
    a.isDocumented s = true ↔ s.status.isResolved = true ∧ ¬ a.IsMarked s.name := by
  rw [isDocumented, IsMarked, ← Config.isUndocumented_iff, ← isPrivateModule_iff]
  simp [and_assoc]

/-- What stands below a module in the tree is a module of the tree that the same module roots. -/
theorem exists_treeOf_of_mem_walk [YamlReader] {d : Nat} {m : DocModule} (hs : s ∈ a.modules)
    (hm : m ∈ (a.treeOf d s).walk) : ∃ t ∈ a.modules, ∃ depth, m = a.treeOf depth t := by
  induction d generalizing s with
  | zero => exact ⟨s, hs, 0, List.mem_singleton.mp hm⟩
  | succ d ih =>
    have hsubs : (a.treeOf (d + 1) s).submodules = (a.childrenOf s.name).map (a.treeOf d) := rfl
    rw [walk_eq, hsubs, walkList_eq_flatMap, List.flatMap_map] at hm
    rcases List.mem_cons.mp hm with rfl | hm
    · exact ⟨s, hs, d + 1, rfl⟩
    · obtain ⟨c, hc, hm⟩ := List.mem_flatMap.mp hm
      exact ih (mem_childrenOf.mp hc).1 hm

/-- What stands below a module of the tree is inside it, unless it is the root. -/
theorem inside_of_mem_walk [YamlReader] {tree m below : DocModule} (hindexed : a.WellIndexed)
    (htree : a.assemble = some tree) (hm : m ∈ tree.walk) (hbelow : below ∈ m.walk)
    (hroot : m.name ≠ a.root) : below.name = m.name ∨ Inside m.name below.name := by
  obtain ⟨s, hstate, rfl⟩ := Option.map_eq_some_iff.mp htree
  obtain ⟨t, ht, depth, rfl⟩ := exists_treeOf_of_mem_walk (mem_of_state? hstate) hm
  have hname := List.mem_map_of_mem (f := DocModule.name) hbelow
  rw [names_walk_treeOf] at hname
  obtain ⟨u, hu, huname⟩ := List.mem_map.mp hname
  rw [treeOf_name] at hroot ⊢
  obtain ⟨-, n, -, hclimbs⟩ := (mem_modulesBelow hindexed (isRegistered_of_state? hstate) ht).mp hu
  rw [← huname]
  exact hclimbs.inside hroot

/-! ### Definitions -/

/-- What a rule says of the definition at the path `front ++ [name]`, or, without one, its name: the
    rule does not hide it, or the name has no leading underscore. -/
def Shows (a : Analysis) (module : String) (front : List String) (name : String) : Prop :=
  match Assoc.get? a.rules (module, dotted (front ++ [name])) with
  | some effect => effect ≠ .hidden
  | none => ¬ IsPrivate name

/-- Every rule but one that hides includes its name. -/
theorem includes_iff (effect : RuleEffect) : effect.includes = true ↔ effect ≠ .hidden := by
  cases effect <;> simp [RuleEffect.includes]

/-- A definition is visible exactly when it is shown. -/
theorem isVisible_iff (front : List String) :
    a.isVisible ⟨module, dotted (front ++ [name])⟩ name = true ↔ a.Shows module front name := by
  rw [isVisible, Shows]
  cases Assoc.get? a.rules (module, dotted (front ++ [name])) with
  | some effect => exact includes_iff effect
  | none =>
    show (!isPrivateName name) = true ↔ ¬ IsPrivate name
    rw [← isPrivateName_iff, Bool.not_eq_true', Bool.not_eq_true]

/-- **A definition is visible if every class around it is shown, and it is itself.** -/
theorem isShownTo_iff : a.isShownTo module path = true ↔
    ∀ front name, front ++ [name] <+: path → a.Shows module front name := by
  induction path using List.reverseRecOn with
  | nil =>
    refine ⟨fun _ front name h => ?_, fun _ => rfl⟩
    exact absurd (List.prefix_nil.mp h) (by simp)
  | append_singleton path last ih =>
    rw [isShownTo_concat, Bool.and_eq_true, ih, isVisible_iff]
    constructor
    · rintro ⟨haround, hself⟩ front name h
      rcases List.prefix_concat_iff.mp h with heq | h
      · obtain ⟨rfl, hlast⟩ := List.append_inj' heq rfl
        obtain rfl := List.singleton_inj.mp hlast
        exact hself
      · exact haround front name h
    · intro h
      exact ⟨fun front name hfront => h front name (hfront.trans (List.prefix_append _ _)),
        h path last (List.prefix_refl _)⟩

/-! ### The tree -/

/-- What tells whether the modules and the nodes of a tree are documented. -/
structure Flags (a : Analysis) (tree : DocModule) : Prop where
  modules : ∀ m ∈ tree.walk,
    (m.documented = true ↔ m.status.isResolved = true ∧ ¬ a.IsMarked m.name)
  /-- What leaves a module out leaves out what stands below it, except that modules outside the root
      package stand below the root. -/
  marked : ∀ m ∈ tree.walk, a.IsMarked m.name → ∀ below ∈ m.walk,
    (m.name = a.root → a.isInternal below.name = true) → below.documented = false
  /-- The nodes of definitions stand where the definitions of the view do. -/
  places : ∀ m ∈ tree.walk, ∃ s ∈ a.modules, s.name = m.name ∧
    m.definitions.map PlacedNode.path = (s.merged.getD {}).nodes.map MemberNode.path
  definitions : ∀ m ∈ tree.walk, ∀ x ∈ m.definitions,
    x.node.qualifiedName = ⟨m.name, dotted x.path⟩ ∧
    (x.node.documented = true ↔ m.documented = true ∧
      ∀ front name, front ++ [name] <+: x.path → a.Shows m.name front name)
  /-- The other nodes are those of imports, each with a rule. -/
  references : ∀ m ∈ tree.walk, ∀ x ∈ m.nodes, x ∉ m.definitions →
    ∃ s ∈ a.modules, s.name = m.name ∧ ∃ effect,
      Assoc.get? a.referenceRules (s.id, x.node.name) = some effect ∧
      (x.node.documented = true ↔ m.documented = true ∧ effect ≠ .hidden)

/-- **What is documented in the tree.**  A module is documented if it is resolved and neither a
    pattern nor a leading underscore leaves it out, or a package around it; a definition, if its
    module is documented and it and every class around it are shown; an import with a rule, if its
    module is documented and the rule does not hide it. -/
theorem assemble_flags [YamlReader] {root : String} {inputs : List ModuleInput} {config : Config}
    {tree : DocModule}
    (h : Reached root inputs config a) (htree : a.assemble = some tree) : a.Flags tree := by
  have hmodule : ∀ m ∈ tree.walk,
      (m.documented = true ↔ m.status.isResolved = true ∧ ¬ a.IsMarked m.name) := by
    intro m hm
    obtain ⟨s, -, halone⟩ := state_of_mem_walk htree hm
    show m.alone.documented = true ↔ m.alone.status.isResolved = true ∧ ¬ a.IsMarked m.alone.name
    rw [halone]
    exact a.isDocumented_iff s
  refine ⟨hmodule, fun m hm hmarked below hbelow hroot => ?_, fun m hm => ?_, fun m hm x hx => ?_,
    fun m hm x hx hother => ?_⟩
  · have hinside : below.name = m.name ∨ Inside m.name below.name := by
      by_cases hname : m.name = a.root
      · rw [hname]
        exact inside_of_covers (hroot hname)
      · exact inside_of_mem_walk h.wellIndexed htree hm hbelow hname
    have hout : a.IsMarked below.name := by
      rcases hinside with heq | hinside
      · rwa [heq]
      · exact hmarked.inside hinside
    rw [← Bool.not_eq_true, hmodule below (walk_subset tree hm hbelow)]
    exact fun hshown => hshown.2 hout
  · obtain ⟨s, hs, halone⟩ := state_of_mem_walk htree hm
    refine ⟨s, hs, (congrArg DocModule.name halone).symm, ?_⟩
    rw [← definitions_alone, halone, definitions_moduleOf, List.map_map]
    rfl
  · obtain ⟨s, -, halone⟩ := state_of_mem_walk htree hm
    rw [← definitions_alone, halone] at hx
    obtain ⟨hname, hdocumented⟩ := documented_of_mem_definitions hx
    have hmname : m.name = s.name := congrArg DocModule.name halone
    have hmdocumented : m.documented = a.isDocumented s := congrArg DocModule.documented halone
    rw [hmname, hmdocumented, hdocumented, Bool.and_eq_true, isShownTo_iff]
    exact ⟨hname, Iff.rfl⟩
  · obtain ⟨s, hs, halone⟩ := state_of_mem_walk htree hm
    have hmdocumented : m.documented = a.isDocumented s := congrArg DocModule.documented halone
    obtain ⟨origin, horigin⟩ : ∃ origin, x.node.origin = some origin := by
      refine Option.ne_none_iff_exists'.mp fun hnone => hother ?_
      exact List.mem_filter.mpr ⟨hx, by rw [hnone, Option.isNone_none]⟩
    rw [← nodes_alone, halone] at hx
    obtain ⟨decl, effect, -, heffect, -, hnode⟩ := reference_of_mem_nodes hx horigin
    refine ⟨s, hs, (congrArg DocModule.name halone).symm, effect, heffect, ?_⟩
    rw [hnode, hmdocumented, ← includes_iff, ← Bool.and_eq_true]
    exact Iff.rfl

/-- Modules of which a pattern leaves one out and an underscore another, and the rules of two. -/
def flaggedInputs : List ModuleInput := [
  { name := "pkg", isPackage := true
    source := some (.parse "from .m import C\n\n__autodoc__ = \x7b'C': False\x7d\n" "pkg" true) },
  { name := "pkg.m"
    source := some (.parse ("class C:\n    def f(): ...\n    def _g(): ...\n\n" ++
      "class _D:\n    x = 1\n\n__autodoc__ = \x7b'C._g': True, '_D.x': 'X.'\x7d\n") "pkg.m" false) },
  { name := "pkg._p", isPackage := true, source := some (.parse "y = 1\n" "pkg._p" true) },
  { name := "pkg._p.q", source := some (.parse "z = 1\n" "pkg._p.q" false) },
  { name := "pkg.old", source := some (.parse "w = 1\n" "pkg.old" false) }]

/-- Their analysis, with its rules. -/
def flagged : Analysis :=
  (Analysis.start "pkg" flaggedInputs { undoc := ⟨["*.old"]⟩ }).prepare.complete

/-- A rule shows a member; it does not show what is in a class that is hidden. -/
theorem assemble_flags_flagged : ∃ tree, flagged.assemble = some tree ∧ flagged.Flags tree ∧
    (tree.walk.map fun m => (m.name, m.documented),
      tree.walk.flatMap fun m => m.nodes.map fun x => (x.path, x.node.documented)) =
    ([("pkg", true), ("pkg.m", true), ("pkg._p", false), ("pkg._p.q", false), ("pkg.old", false)],
      [(["C"], false), (["C"], true), (["C", "f"], true), (["C", "_g"], true), (["_D"], false),
        (["_D", "x"], false), (["y"], false), (["z"], false), (["w"], false)]) := by
  have hreached : Reached "pkg" flaggedInputs { undoc := ⟨["*.old"]⟩ } flagged :=
    .applyVisibility (.evaluateTypes (.resolveImports (.mergeModules (.register .start))))
  have hflags : (flagged.assemble.map fun tree =>
      (tree.walk.map fun m => (m.name, m.documented),
        tree.walk.flatMap fun m => m.nodes.map fun x => (x.path, x.node.documented))) =
      some ([("pkg", true), ("pkg.m", true), ("pkg._p", false), ("pkg._p.q", false),
          ("pkg.old", false)],
        [(["C"], false), (["C"], true), (["C", "f"], true), (["C", "_g"], true), (["_D"], false),
          (["_D", "x"], false), (["y"], false), (["z"], false), (["w"], false)]) := by
    decide +kernel
  obtain ⟨tree, htree, hflags⟩ := Option.map_eq_some_iff.mp hflags
  exact ⟨tree, htree, assemble_flags hreached htree, hflags⟩

end Analysis
end PackageDoc
