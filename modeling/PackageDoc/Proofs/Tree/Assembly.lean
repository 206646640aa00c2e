import PackageDoc.Proofs.Tree.Parents
import PackageDoc.Proofs.Steps.Frames
import PackageDoc.Yaml.Value

namespace PackageDoc

/-!
# Assembly neither loses nor duplicates modules

* `Analysis.modulesBelow` — the modules in the tree below a module, parents first;
* `Analysis.perm_modulesBelow_root` — below the root every registered module stands once;
* `DocModule.mem_of_findModule?` and `Analysis.isSome_findModule?_treeOf` — the search for a module
  finds a module of the name, and leaves none out by its name;
* `Analysis.assemble_isTree` — the tree that is assembled has every module where it belongs.
-/

/-! ### Modules of a tree -/

namespace DocModule

/-- A module without the modules below it. -/
def alone (m : DocModule) : DocModule :=
  { m with submodules := [] }

/-- A walk over a module visits it and then those below. -/
theorem walk_eq (m : DocModule) : m.walk = m :: walkList m.submodules := by
  obtain ⟨_, _, _, _, _, _, _, _, _, subs, _⟩ := m
  rw [walk]

/-- Several modules are walked one after the other. -/
theorem walkList_eq_flatMap (ms : List DocModule) : walkList ms = ms.flatMap walk := by
  induction ms with
  | nil => rfl
  | cons m ms ih => rw [walkList, ih, List.flatMap_cons]

/-- A module is found at once if it has the name, or else below. -/
theorem findModule?_eq (name : String) (m : DocModule) :
    m.findModule? name = if m.name = name then some m else findModuleList? name m.submodules := by
  obtain ⟨_, _, _, _, _, _, _, _, _, subs, _⟩ := m
  rw [findModule?]

mutual

/-- What is found is a module of the tree that has the name. -/
theorem mem_of_findModule? {name : String} {found : DocModule} :
    ∀ m : DocModule, m.findModule? name = some found → found ∈ m.walk ∧ found.name = name
  | ⟨n, a, b, c, d, e, f, g, h, subs, i⟩, hfind => by
    rw [findModule?] at hfind
    rw [walk]
    split at hfind
    · rename_i hname
      obtain rfl := Option.some.inj hfind
      exact ⟨List.mem_cons_self, hname⟩
    · obtain ⟨hmem, hname⟩ := mem_of_findModuleList? subs hfind
      exact ⟨List.mem_cons_of_mem _ hmem, hname⟩

/-- What is found below has the name and is one of those. -/
theorem mem_of_findModuleList? {name : String} {found : DocModule} :
    ∀ ms : List DocModule, findModuleList? name ms = some found →
      found ∈ walkList ms ∧ found.name = name
  | [], hfind => by
    rw [findModuleList?] at hfind
    exact absurd hfind (by simp)
  | m :: ms, hfind => by
    rw [findModuleList?] at hfind
    rw [walkList]
    split at hfind
    · rename_i other hother
      obtain rfl := Option.some.inj hfind
      split at hother
      · obtain ⟨hmem, hname⟩ := mem_of_findModule? m hother
        exact ⟨List.mem_append_left _ hmem, hname⟩
      · exact absurd hother (by simp)
    · obtain ⟨hmem, hname⟩ := mem_of_findModuleList? ms hfind
      exact ⟨List.mem_append_right _ hmem, hname⟩

end

/-- A tree in which the name can be found and that covers it is not passed over. -/
theorem isSome_findModuleList? {name : String} {m : DocModule} {ms : List DocModule} (hm : m ∈ ms)
    (hcovers : covers m.name name = true) (hfind : (m.findModule? name).isSome = true) :
    (findModuleList? name ms).isSome = true := by
  induction ms with
  | nil => exact absurd hm (by simp)
  | cons m' ms ih =>
    rw [findModuleList?]
    split
    · rfl
    · rename_i hnone
      rcases List.mem_cons.mp hm with rfl | hm
      · rw [if_pos hcovers] at hnone
        rw [hnone] at hfind
        exact absurd hfind (by simp)
      · exact ih hm

/-- A module covers all that is inside it. -/
theorem covers_of_inside {around name : String} (h : name = around ∨ Inside around name) :
    covers around name = true := by
  rcases h with rfl | ⟨rest, rfl⟩
  · simp [covers]
  · have hwithin : (around ++ ".").toList.isPrefixOf (around ++ "." ++ rest).toList = true := by
      rw [List.isPrefixOf_iff_prefix]
      exact ⟨rest.toList, String.toList_append.symm⟩
    rw [covers, hwithin, Bool.or_true]

end DocModule

namespace Analysis

open DocModule

variable {a : Analysis} {s t c : ModuleState} {d : Nat}

/-! ### Modules below a module -/

/-- The modules below one are those whose parent it is. -/
theorem mem_childrenOf {name : String} :
    s ∈ a.childrenOf name ↔ s ∈ a.modules ∧ s.name ≠ a.root ∧ a.parentOf s.name = name := by
  simp [childrenOf]

/-- The modules in the tree below a module, down to `depth` levels, parents first. -/
def modulesBelow (a : Analysis) : (depth : Nat) → ModuleState → List ModuleState
  | 0, s => [s]
  | depth + 1, s => s :: (a.childrenOf s.name).flatMap (a.modulesBelow depth)

/-- A tree is named as its module. -/
theorem treeOf_name [YamlReader] (d : Nat) (s : ModuleState) : (a.treeOf d s).name = s.name := by
  cases d <;> rfl

/-- The modules of a tree are documented each on its own. -/
theorem walk_treeOf [YamlReader] (d : Nat) (s : ModuleState) :
    (a.treeOf d s).walk.map alone = (a.modulesBelow d s).map a.moduleOf := by
  induction d generalizing s with
  | zero => rfl
  | succ d ih =>
    have hsubs : (a.treeOf (d + 1) s).submodules = (a.childrenOf s.name).map (a.treeOf d) := rfl
    rw [walk_eq, hsubs, walkList_eq_flatMap, modulesBelow, List.map_cons, List.map_cons,
      List.flatMap_map, List.map_flatMap, List.map_flatMap]
    congr 1
    exact List.flatMap_congr fun c _ => ih c

/-- A walk over a tree visits the modules below, by name. -/
theorem names_walk_treeOf [YamlReader] (d : Nat) (s : ModuleState) :
    (a.treeOf d s).walk.map DocModule.name = (a.modulesBelow d s).map ModuleState.name := by
  have hwalk := congrArg (List.map DocModule.name) (a.walk_treeOf d s)
  rwa [List.map_map, List.map_map] at hwalk

/-- Children of one module are equally far from the root. -/
theorem climbs_root_of_mem_childrenOf {n : Nat} (hclimbs : a.Climbs s.name n a.root)
    (hc : c ∈ a.childrenOf s.name) : a.Climbs c.name (n + 1) a.root := by
  obtain ⟨-, hne, hparent⟩ := mem_childrenOf.mp hc
  exact .up hne (hparent ▸ hclimbs)

/-- Where no module is too far below, each module of a tree has all its children. -/
theorem submodules_of_mem_walk [YamlReader] (hs : s ∈ a.modules)
    (hdepth : ∀ t ∈ a.modules, ∀ n, a.Climbs t.name n s.name → n ≤ d) :
    ∀ m ∈ (a.treeOf d s).walk,
      m.submodules.map DocModule.name = (a.childrenOf m.name).map ModuleState.name := by
  induction d generalizing s with
  | zero =>
    intro m hm
    obtain rfl := List.mem_singleton.mp hm
    -- a child would be a level below `s`, which is too far
    have hnone : a.childrenOf s.name = [] := List.eq_nil_iff_forall_not_mem.mpr fun c hc => by
      obtain ⟨hc, hne, hparent⟩ := mem_childrenOf.mp hc
      exact absurd (hdepth c hc 1 (.up hne (hparent ▸ .here _))) (by omega)
    change [] = (a.childrenOf s.name).map ModuleState.name
    rw [hnone, List.map_nil]
  | succ d ih =>
    have hsubs : (a.treeOf (d + 1) s).submodules = (a.childrenOf s.name).map (a.treeOf d) := rfl
    intro m hm
    rw [walk_eq, hsubs, walkList_eq_flatMap, List.flatMap_map] at hm
    rcases List.mem_cons.mp hm with rfl | hm
    · rw [hsubs, List.map_map]
      exact List.map_congr_left fun c _ => treeOf_name d c
    · obtain ⟨c, hc, hm⟩ := List.mem_flatMap.mp hm
      obtain ⟨hc, hne, hparent⟩ := mem_childrenOf.mp hc
      refine ih hc (fun t ht n hclimbs => ?_) m hm
      exact Nat.le_of_succ_le_succ (hdepth t ht (n + 1) (hparent ▸ hclimbs.snoc hne))

section WellIndexed

variable (hindexed : a.WellIndexed) (hroot : a.isRegistered a.root = true)
include hindexed hroot

/-- Below a module stand those that lead upwards to it. -/
theorem mem_modulesBelow (hs : s ∈ a.modules) :
    t ∈ a.modulesBelow d s ↔ t ∈ a.modules ∧ ∃ n ≤ d, a.Climbs t.name n s.name := by
  have hself : t ∈ a.modules → a.Climbs t.name 0 s.name → t = s := fun ht hclimbs =>
    hindexed.eq_of_name ht hs (Climbs.eq_of_steps (.here _) hclimbs)
  induction d generalizing s with
  | zero =>
    rw [modulesBelow, List.mem_singleton]
    constructor
    · rintro rfl
      exact ⟨hs, 0, Nat.le_refl _, .here _⟩
    · rintro ⟨ht, n, hn, hclimbs⟩
      obtain rfl := Nat.le_zero.mp hn
      exact hself ht hclimbs
  | succ d ih =>
    have hchild : ∀ c ∈ a.modules, t ∈ a.modules → a.Climbs t.name 0 c.name → t = c :=
      fun c hc ht hclimbs => hindexed.eq_of_name ht hc (Climbs.eq_of_steps (.here _) hclimbs)
    -- a climb of `n + 1` steps ends with one from a child of `s`
    rw [modulesBelow, List.mem_cons, List.mem_flatMap]
    constructor
    · rintro (rfl | ⟨c, hc, ht⟩)
      · exact ⟨hs, 0, Nat.zero_le _, .here _⟩
      · obtain ⟨hc, hne, hparent⟩ := mem_childrenOf.mp hc
        obtain ⟨ht, n, hn, hclimbs⟩ := (ih hc (hchild c hc)).mp ht
        exact ⟨ht, n + 1, Nat.succ_le_succ hn, hparent ▸ hclimbs.snoc hne⟩
    · rintro ⟨ht, n, hn, hclimbs⟩
      cases n with
      | zero => exact .inl (hself ht hclimbs)
      | succ n =>
        obtain ⟨mid, hmid, hne, hparent⟩ := hclimbs.exists_snoc
        obtain ⟨c, hc, rfl⟩ := List.mem_map.mp
          (hindexed.isRegistered_iff.mp
            (hmid.isRegistered hroot (hindexed.isRegistered_of_mem ht)))
        exact .inr ⟨c, mem_childrenOf.mpr ⟨hc, hne, hparent⟩,
          (ih hc (hchild c hc)).mpr ⟨ht, n, Nat.le_of_succ_le_succ hn, hmid⟩⟩

/-- No module stands below another twice. -/
theorem nodup_modulesBelow (hs : s ∈ a.modules) : (a.modulesBelow d s).Nodup := by
  induction d generalizing s with
  | zero => exact List.nodup_singleton s
  | succ d ih =>
    obtain ⟨n, -, hclimbs⟩ := exists_climbs_lt hindexed hroot (hindexed.isRegistered_of_mem hs)
    have hmem : ∀ c ∈ a.childrenOf s.name, c ∈ a.modules := fun c hc => (mem_childrenOf.mp hc).1
    -- how far below a child a module stands follows from how far it is from the root
    have hsteps : ∀ c ∈ a.childrenOf s.name, ∀ t ∈ a.modulesBelow d c, ∀ k,
        a.Climbs t.name k a.root → ∃ j, k = j + (n + 1) ∧ a.Climbs t.name j c.name := by
      intro c hc t ht k hk
      obtain ⟨-, j, -, hj⟩ := (mem_modulesBelow hindexed hroot (hmem c hc)).mp ht
      obtain ⟨i, rfl, hi⟩ := hj.rest hk
      have heq := hi.eq_of_root (climbs_root_of_mem_childrenOf hclimbs hc)
      exact ⟨j, by omega, hj⟩
    rw [modulesBelow, List.nodup_cons, List.nodup_flatMap]
    refine ⟨fun hbelow => ?_, fun c hc => ih (hmem c hc), ?_⟩
    · obtain ⟨c, hc, ht⟩ := List.mem_flatMap.mp hbelow
      obtain ⟨j, heq, -⟩ := hsteps c hc s ht n hclimbs
      omega
    · have hnodup : (a.childrenOf s.name).Nodup := (List.Nodup.of_map _ hindexed.names).filter _
      refine hnodup.imp_of_mem fun {c c'} hc hc' hne t ht ht' => hne ?_
      obtain ⟨-, i, -, hi⟩ := (mem_modulesBelow hindexed hroot (hmem c hc)).mp ht
      obtain ⟨k, -, hk⟩ := exists_climbs_lt hindexed hroot (hindexed.isRegistered_of_mem
        ((mem_modulesBelow hindexed hroot (hmem c hc)).mp ht).1)
      obtain ⟨j, rfl, hj⟩ := hsteps c hc t ht k hk
      obtain ⟨j', heq, hj'⟩ := hsteps c' hc' t ht' _ hk
      obtain rfl : j = j' := by omega
      exact hindexed.eq_of_name (hmem c hc) (hmem c' hc') (hj.eq_of_steps hj')

/-- **Below the root every registered module stands once.** -/
theorem perm_modulesBelow_root (hs : s ∈ a.modules) (hname : s.name = a.root) :
    (a.modulesBelow a.modules.length s).Perm a.modules := by
  refine (List.perm_ext_iff_of_nodup (nodup_modulesBelow hindexed hroot hs)
    (List.Nodup.of_map _ hindexed.names)).mpr fun t => ?_
  rw [mem_modulesBelow hindexed hroot hs, hname]
  refine ⟨And.left, fun ht => ⟨ht, ?_⟩⟩
  obtain ⟨n, hn, hclimbs⟩ := exists_climbs_lt hindexed hroot (hindexed.isRegistered_of_mem ht)
  exact ⟨n, Nat.le_of_lt hn, hclimbs⟩

/-! ### The search for a module -/

/-- The modules of a tree are found by their names. -/
theorem isSome_findModule?_treeOf [YamlReader] (hs : s ∈ a.modules) (ht : t ∈ a.modulesBelow d s) :
    ((a.treeOf d s).findModule? t.name).isSome = true := by
  induction d generalizing s with
  | zero =>
    obtain rfl := List.mem_singleton.mp ht
    rw [findModule?_eq, if_pos (treeOf_name 0 t)]
    rfl
  | succ d ih =>
    have hsubs : (a.treeOf (d + 1) s).submodules = (a.childrenOf s.name).map (a.treeOf d) := rfl
    rw [findModule?_eq, hsubs]
    split
    · rfl
    · rename_i hname
      rcases List.mem_cons.mp ht with rfl | ht
      · exact absurd (treeOf_name (d + 1) t) hname
      · obtain ⟨c, hc, ht⟩ := List.mem_flatMap.mp ht
        obtain ⟨hmem, hne, -⟩ := mem_childrenOf.mp hc
        obtain ⟨-, n, -, hclimbs⟩ := (mem_modulesBelow hindexed hroot hmem).mp ht
        refine isSome_findModuleList? (List.mem_map_of_mem hc) ?_ (ih hmem ht)
        rw [treeOf_name]
        exact covers_of_inside (hclimbs.inside hne)

end WellIndexed

/-! ### The tree -/

/-- A tree has every registered module once, where it belongs. -/
structure IsTree [YamlReader] (a : Analysis) (tree : DocModule) : Prop where
  root : tree.name = a.root
  /-- The modules of the tree are those registered, as each is documented on its own. -/
  modules : (tree.walk.map alone).Perm (a.modules.map a.moduleOf)
  distinct : (tree.walk.map DocModule.name).Nodup
  /-- Directly below a module are the others whose parent it is. -/
  below : ∀ m ∈ tree.walk, ∀ name, name ∈ m.submodules.map DocModule.name ↔
    a.isRegistered name = true ∧ name ≠ a.root ∧ a.IsParent m.name name
  /-- They are in the order of registration. -/
  ordered : ∀ m ∈ tree.walk,
    (m.submodules.map DocModule.name).Sublist (a.modules.map ModuleState.name)

/-- **Assembly neither loses nor duplicates modules.**  When the root is registered, the tree has
    every registered module once, where it belongs, and the documentation finds by a name the module
    of the tree that has it, if one is registered. -/
theorem assemble_isTree [YamlReader] {root : String} {inputs : List ModuleInput} {config : Config}
    (h : Reached root inputs config a) (hroot : a.isRegistered a.root = true) :
    ∃ tree, a.assemble = some tree ∧ a.IsTree tree ∧ ∀ linkMode : LinkMode,
      (∀ name m, DocModel.module? ⟨linkMode, tree⟩ name = some m ↔ m ∈ tree.walk ∧ m.name = name) ∧
      (∀ name, (DocModel.module? ⟨linkMode, tree⟩ name).isSome = a.isRegistered name) ∧
      DocModel.moduleCount ⟨linkMode, tree⟩ = a.modules.length := by
  have hindexed := h.wellIndexed
  obtain ⟨s, hstate⟩ := hindexed.exists_state? hroot
  obtain ⟨hs, hname⟩ := hindexed.state?_eq_some_iff.mp hstate
  have hperm := perm_modulesBelow_root hindexed hroot hs hname
  have hwalk : ((a.treeOf a.modules.length s).walk.map DocModule.name).Perm
      (a.modules.map ModuleState.name) := names_walk_treeOf _ s ▸ hperm.map ModuleState.name
  have hdistinct := hwalk.nodup_iff.mpr hindexed.names
  have hchildren := a.submodules_of_mem_walk hs (d := a.modules.length) fun t ht n hclimbs => by
    obtain ⟨n', hlt, hclimbs'⟩ := exists_climbs_lt hindexed hroot (hindexed.isRegistered_of_mem ht)
    obtain rfl := (hname ▸ hclimbs).eq_of_root hclimbs'
    omega
  have hfind : ∀ name, ((a.treeOf a.modules.length s).findModule? name).isSome = a.isRegistered name := by
    intro name
    rw [Bool.eq_iff_iff, hindexed.isRegistered_iff]
    constructor
    · intro hsome
      obtain ⟨m, hm⟩ := Option.isSome_iff_exists.mp hsome
      obtain ⟨hmem, rfl⟩ := mem_of_findModule? _ hm
      exact hwalk.subset (List.mem_map_of_mem hmem)
    · intro hmem
      obtain ⟨t, ht, rfl⟩ := List.mem_map.mp hmem
      exact isSome_findModule?_treeOf hindexed hroot hs (hperm.mem_iff.mpr ht)
  refine ⟨a.treeOf a.modules.length s, by rw [assemble, hstate, Option.map_some],
    ⟨(treeOf_name _ s).trans hname, ?_, hdistinct, fun m hm name => ?_, fun m hm => ?_⟩,
    fun linkMode => ⟨fun name m => ⟨mem_of_findModule? _, ?_⟩, hfind, ?_⟩⟩
  · rw [walk_treeOf]
    exact hperm.map a.moduleOf
  · rw [hchildren m hm, List.mem_map, isParent_iff, hindexed.isRegistered_iff, List.mem_map]
    constructor
    · rintro ⟨c, hc, rfl⟩
      obtain ⟨hc, hne, hparent⟩ := mem_childrenOf.mp hc
      exact ⟨⟨c, hc, rfl⟩, hne, hparent.symm⟩
    · rintro ⟨⟨c, hc, rfl⟩, hne, hparent⟩
      exact ⟨c, mem_childrenOf.mpr ⟨hc, hne, hparent.symm⟩, rfl⟩
  · rw [hchildren m hm]
    exact List.filter_sublist.map _
  · rintro ⟨hmem, rfl⟩
    have hsome := (hfind m.name).trans
      (hindexed.isRegistered_iff.mpr (hwalk.subset (List.mem_map_of_mem hmem)))
    obtain ⟨m', hm'⟩ := Option.isSome_iff_exists.mp hsome
    obtain ⟨hmem', hname'⟩ := mem_of_findModule? _ hm'
    rw [← List.inj_on_of_nodup_map hdistinct hmem' hmem hname']
    exact hname' ▸ hm'
  · rw [DocModel.moduleCount, DocModel.modules]
    simpa using hwalk.length_eq

/-- Modules of which some are outside the root, and some registered before the packages around
    them. -/
def scattered : Analysis :=
  (Analysis.start "pkg.a" (["pkg.a.b.c", "other.x", "pkg", "pkg.a", "pkg.d", "other"].map fun name =>
    { name := name }) {}).register

/-- Modules with gaps between them make a tree. -/
theorem assemble_isTree_scattered : scattered.isRegistered scattered.root = true ∧
    ∃ tree, scattered.assemble = some tree ∧ scattered.IsTree tree ∧ ∀ linkMode : LinkMode,
      (∀ name m, DocModel.module? ⟨linkMode, tree⟩ name = some m ↔ m ∈ tree.walk ∧ m.name = name) ∧
      (∀ name, (DocModel.module? ⟨linkMode, tree⟩ name).isSome = scattered.isRegistered name) ∧
      DocModel.moduleCount ⟨linkMode, tree⟩ = scattered.modules.length := by
  have hroot : scattered.isRegistered scattered.root = true := by decide +kernel
  exact ⟨hroot, assemble_isTree (.register .start) hroot⟩

end Analysis
end PackageDoc
