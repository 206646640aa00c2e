import PackageDoc.Files.Discovery
import PackageDoc.Proofs.Tree.Documented

namespace PackageDoc

/-!
# Leaving modules out while looking for them

A directory whose module is left out is not looked into.  Nothing else is lost by that: what is found
is what would be found if nothing were left out, without the modules that are left out.

* `Assoc.filter_sorted` and `Assoc.map_sorted` — entries are dropped and changed before or after
  they are put in order;
* `Config.isSkipped_iff` — a module is left out with everything inside it;
* `inside_of_mem_modulesBelow` — the modules below a directory are inside its own;
* `modulesBelow_eq_filter` — one directory, by induction on the tree;
* `findPackage_pruned` — a whole package.
-/

/-! ### Entries in order -/

namespace Assoc

variable {κ α β : Type} [LT κ] [DecidableLT κ]

/-- Inserting an entry adds that one. -/
theorem mem_insertSorted {entry e : κ × α} {entries : List (κ × α)} :
    e ∈ insertSorted entry entries ↔ e = entry ∨ e ∈ entries := by
  induction entries with
  | nil => simp [insertSorted]
  | cons f entries ih =>
    rw [insertSorted]
    split
    · rw [List.mem_cons]
    · rw [List.mem_cons, ih, List.mem_cons, or_left_comm]

/-- Sorting loses and adds nothing. -/
theorem mem_sorted {e : κ × α} {entries : List (κ × α)} : e ∈ sorted entries ↔ e ∈ entries := by
  induction entries using List.reverseRecOn with
  | nil => rfl
  | append_singleton entries f ih =>
    rw [sorted, List.foldl_concat]
    change e ∈ insertSorted f (sorted entries) ↔ _
    rw [mem_insertSorted, ih, List.mem_append, List.mem_singleton, or_comm]

/-- Values may be changed before or after their entries are put in order. -/
theorem map_sorted (f : κ × α → β) (entries : List (κ × α)) :
    (sorted entries).map (fun e => (e.1, f e)) = sorted (entries.map fun e => (e.1, f e)) := by
  have hinsert : ∀ (entry : κ × α) (es : List (κ × α)),
      (insertSorted entry es).map (fun e => (e.1, f e)) =
        insertSorted (entry.1, f entry) (es.map fun e => (e.1, f e)) := by
    intro entry es
    induction es with
    | nil => rfl
    | cons e es ih =>
      rw [insertSorted, List.map_cons, insertSorted]
      split
      · rfl
      · rw [List.map_cons, ih]
  induction entries using List.reverseRecOn with
  | nil => rfl
  | append_singleton entries e ih =>
    rw [sorted, List.foldl_concat, List.map_append, List.map_singleton, sorted, List.foldl_concat]
    exact (hinsert e _).trans (congrArg _ ih)

/-- An entry in front of all others stands first. -/
theorem insertSorted_of_lt {entry : κ × α} {entries : List (κ × α)}
    (h : ∀ e ∈ entries, entry.1 < e.1) : insertSorted entry entries = entry :: entries := by
  cases entries with
  | nil => rfl
  | cons e entries => rw [insertSorted, if_pos (h e List.mem_cons_self)]

variable [LE κ] [Std.IsLinearOrder κ] [Std.LawfulOrderLT κ]

/-- Inserting keeps entries in order. -/
theorem pairwise_insertSorted (entry : κ × α) {entries : List (κ × α)}
    (h : entries.Pairwise fun e f => e.1 ≤ f.1) :
    (insertSorted entry entries).Pairwise fun e f => e.1 ≤ f.1 := by
  induction entries with
  | nil => exact List.pairwise_singleton _ _
  | cons e entries ih =>
    obtain ⟨hhead, htail⟩ := List.pairwise_cons.mp h
    rw [insertSorted]
    split
    · rename_i hlt
      refine List.pairwise_cons.mpr ⟨List.forall_mem_cons.mpr ⟨Std.le_of_lt hlt, fun f hf => ?_⟩, h⟩
      exact Std.le_trans (Std.le_of_lt hlt) (hhead f hf)
    · rename_i hge
      refine List.pairwise_cons.mpr ⟨fun f hf => ?_, ih htail⟩
      rcases mem_insertSorted.mp hf with rfl | hf
      · exact Std.not_lt.mp hge
      · exact hhead f hf

/-- Inserting and leaving out may change places. -/
theorem filter_insertSorted (p : κ × α → Bool) (entry : κ × α) {entries : List (κ × α)}
    (h : entries.Pairwise fun e f => e.1 ≤ f.1) :
    (insertSorted entry entries).filter p =
      if p entry then insertSorted entry (entries.filter p) else entries.filter p := by
  induction entries with
  | nil => cases hp : p entry <;> simp [insertSorted, hp]
  | cons e entries ih =>
    obtain ⟨hhead, htail⟩ := List.pairwise_cons.mp h
    rw [insertSorted]
    split
    · rename_i hlt
      -- the entry stands first, whichever of the others are dropped
      have hfirst : ∀ f ∈ (e :: entries).filter p, entry.1 < f.1 := fun f hf =>
        match List.mem_cons.mp (List.mem_of_mem_filter hf) with
        | .inl heq => heq ▸ hlt
        | .inr hf => Std.lt_of_lt_of_le hlt (hhead f hf)
      rw [insertSorted_of_lt hfirst, List.filter_cons]
    · rename_i hge
      cases he : p e with
      | true =>
        rw [List.filter_cons_of_pos he, ih htail, List.filter_cons_of_pos he, insertSorted,
          if_neg hge]
        split <;> rfl
      | false =>
        have hne : ¬ p e = true := by simp [he]
        rw [List.filter_cons_of_neg hne, ih htail, List.filter_cons_of_neg hne]

/-- Sorted entries are in order. -/
theorem pairwise_sorted (entries : List (κ × α)) :
    (sorted entries).Pairwise fun e f => e.1 ≤ f.1 := by
  induction entries using List.reverseRecOn with
  | nil => exact .nil
  | append_singleton entries e ih =>
    rw [sorted, List.foldl_concat]
    exact pairwise_insertSorted e ih

/-- Entries may be dropped before or after they are put in order. -/
theorem filter_sorted (p : κ × α → Bool) (entries : List (κ × α)) :
    (sorted entries).filter p = sorted (entries.filter p) := by
  induction entries using List.reverseRecOn with
  | nil => rfl
  | append_singleton entries e ih =>
    have hinsert := filter_insertSorted p e (pairwise_sorted entries)
    rw [sorted, List.foldl_concat]
    change (insertSorted e (sorted entries)).filter p = _
    rw [hinsert, ih, List.filter_append]
    cases he : p e with
    | true => simp [he, sorted, List.foldl_append]
    | false => simp [he]

end Assoc

/-! ### What is left out -/

namespace Config

/-- A pattern leaves the module, or a package around it, out altogether. -/
def Skips (config : Config) (name : String) : Prop :=
  ∃ pattern ∈ config.skip.patterns, globMatches pattern name = true ∨
    ∃ around, Inside around name ∧ globMatches pattern around = true

/-- What is skipped is what the patterns match. -/
theorem isSkipped_iff (config : Config) (name : String) :
    config.isSkipped name = true ↔ config.Skips name := by
  simp only [isSkipped, PatternSet.matches?, List.any_eq_true, mem_enclosingNames, Skips]
  constructor
  · rintro ⟨around, rfl | hinside, pattern, hpattern, hmatch⟩
    · exact ⟨pattern, hpattern, .inl hmatch⟩
    · exact ⟨pattern, hpattern, .inr ⟨around, hinside, hmatch⟩⟩
  · rintro ⟨pattern, hpattern, hmatch | ⟨around, hinside, hmatch⟩⟩
    · exact ⟨name, .inl rfl, pattern, hpattern, hmatch⟩
    · exact ⟨around, .inr hinside, pattern, hpattern, hmatch⟩

/-- What is inside a module that is left out is left out. -/
theorem isSkipped_of_inside {config : Config} {around name : String}
    (h : config.isSkipped around = true) (hinside : Inside around name) :
    config.isSkipped name = true := by
  obtain ⟨pattern, hpattern, hmatch⟩ := (config.isSkipped_iff around).mp h
  refine (config.isSkipped_iff name).mpr ⟨pattern, hpattern, .inr ?_⟩
  rcases hmatch with hmatch | ⟨outer, houter, hmatch⟩
  · exact ⟨around, hinside, hmatch⟩
  · exact ⟨outer, houter.trans hinside, hmatch⟩

/-- The same configuration with nothing left out. -/
def withoutSkip (config : Config) : Config :=
  { config with skip := {} }

/-- Nothing is skipped without patterns. -/
theorem isSkipped_withoutSkip (config : Config) (name : String) :
    config.withoutSkip.isSkipped name = false := by
  simp [withoutSkip, isSkipped, PatternSet.matches?]

end Config

/-- Is the module not left out? -/
def FoundModule.isKept (config : Config) (m : FoundModule) : Bool :=
  !config.isSkipped m.name

/-! ### Directories -/

/-- The modules of a directory are inside its package. -/
theorem inside_of_mem_leafModules {config : Config} {path package : String} {m : FoundModule}
    {entries : List (String × FileTree)} (h : m ∈ leafModules config path package entries) :
    Inside package m.name := by
  obtain ⟨stem, -, rfl⟩ := List.mem_map.mp (List.mem_of_mem_filter h)
  exact ⟨stem.1, rfl⟩

/-- Induction on a tree: a directory from everything in it. -/
@[elab_as_elim]
theorem FileTree.induction {motive : FileTree → Prop} (file : ∀ bytes, motive (.file bytes))
    (dir : ∀ entries, (∀ e ∈ entries, motive e.2) → motive (.dir entries)) : ∀ t, motive t
  | .file bytes => file bytes
  | .dir entries => dir entries fun e _ => FileTree.induction file dir e.2
termination_by t => sizeOf t
decreasing_by
  rename_i he
  have hsize := List.sizeOf_lt_of_mem he
  obtain ⟨name, t⟩ := e
  simp only [Prod.mk.sizeOf_spec, FileTree.dir.sizeOf_spec] at hsize ⊢
  omega

variable {config : Config} {path package : String} {m : FoundModule} {t : FileTree}

/-- Is the entry of a directory looked into, if it is not left out? -/
def isSearched (e : String × FileTree) : Bool :=
  e.2.isDir && isIdentifier e.1 && !excludedDirs.contains e.1

/-- The module that a directory is, if it is a package. -/
def ownModule (path module : String) (t : FileTree) : List FoundModule :=
  match Assoc.get? (moduleFilesIn path t.entries) "__init__" with
  | some files => [⟨module, true, files⟩]
  | none => []

/-- The modules that an entry of a directory gives. -/
def modulesAt (config : Config) (path package : String) (e : String × FileTree) : List FoundModule :=
  ownModule (joinPath path e.1) (package ++ "." ++ e.1) e.2 ++
    modulesBelow config (joinPath path e.1) (package ++ "." ++ e.1) e.2

/-- A package is found under its own name. -/
theorem name_of_mem_ownModule {module : String} (h : m ∈ ownModule path module t) :
    m.name = module := by
  unfold ownModule at h
  split at h
  · rw [List.mem_singleton.mp h]
  · exact absurd h List.not_mem_nil

/-- It is kept unless it is skipped. -/
theorem filter_ownModule {module : String} (h : config.isSkipped module = false) :
    (ownModule path module t).filter (·.isKept config) = ownModule path module t :=
  List.filter_eq_self.mpr fun m hm => by
    rw [FoundModule.isKept, name_of_mem_ownModule hm, h, Bool.not_false]

/-- The modules below a directory are those of the subdirectories that are searched. -/
theorem subdirModules_eq (config : Config) (path package : String)
    (entries : List (String × FileTree)) :
    subdirModules config path package entries =
      (entries.filter fun e => isSearched e && !config.isSkipped (package ++ "." ++ e.1)).map
        fun e => (e.1, modulesAt config path package e) := by
  induction entries with
  | nil => rw [subdirModules, List.filter_nil, List.map_nil]
  | cons e entries ih =>
    obtain ⟨name, t⟩ := e
    rw [subdirModules, ih, List.filter_cons]
    by_cases h : (isSearched (name, t) && !config.isSkipped (package ++ "." ++ name)) = true
    · rw [if_pos h, List.map_cons]
      exact if_pos h
    · rw [if_neg h]
      exact if_neg h

/-- What is found in a directory is inside its module. -/
theorem inside_of_mem_modulesBelow (h : m ∈ modulesBelow config path package t) :
    Inside package m.name := by
  induction t using FileTree.induction generalizing path package with
  | file bytes => exact absurd h (by simp [modulesBelow])
  | dir entries ih =>
    rw [modulesBelow] at h
    rcases List.mem_append.mp h with h | h
    · exact inside_of_mem_leafModules h
    · obtain ⟨d, hd, hm⟩ := List.mem_flatMap.mp h
      rw [Assoc.mem_sorted, subdirModules_eq] at hd
      obtain ⟨e, he, rfl⟩ := List.mem_map.mp hd
      have hdir : Inside package (package ++ "." ++ e.1) := ⟨e.1, rfl⟩
      rcases List.mem_append.mp hm with hm | hm
      · rwa [name_of_mem_ownModule hm]
      · exact hdir.trans (ih e (List.mem_of_mem_filter he) hm)

/-- Where a directory is left out, all that is found there is. -/
theorem filter_modulesAt_eq_nil {e : String × FileTree}
    (h : config.isSkipped (package ++ "." ++ e.1) = true) (config' : Config) :
    (modulesAt config' path package e).filter (·.isKept config) = [] := by
  refine List.filter_eq_nil_iff.mpr fun m hm => ?_
  have hskipped : config.isSkipped m.name = true := by
    rcases List.mem_append.mp hm with hm | hm
    · rwa [name_of_mem_ownModule hm]
    · exact Config.isSkipped_of_inside h (inside_of_mem_modulesBelow hm)
  simp [FoundModule.isKept, hskipped]

/-- Skipping modules of a directory is leaving them out of all. -/
theorem leafModules_eq_filter (config : Config) (path package : String)
    (entries : List (String × FileTree)) :
    leafModules config path package entries =
      (leafModules config.withoutSkip path package entries).filter (·.isKept config) := by
  simp [leafModules, Config.isSkipped_withoutSkip, FoundModule.isKept]

/-- Entries that give nothing may be dropped. -/
theorem flatMap_filter_of_eq_nil {α β : Type} {p : α → Bool} {f : α → List β} {xs : List α}
    (h : ∀ x ∈ xs, p x = false → f x = []) : (xs.filter p).flatMap f = xs.flatMap f := by
  induction xs with
  | nil => rfl
  | cons x xs ih =>
    obtain ⟨hx, hxs⟩ := List.forall_mem_cons.mp h
    rw [List.flatMap_cons, ← ih hxs]
    cases hp : p x with
    | true => rw [List.filter_cons_of_pos hp, List.flatMap_cons]
    | false => rw [List.filter_cons_of_neg (by simp [hp]), hx hp, List.nil_append]

/-- What is found below a directory is what would be found if nothing were left out, without the
    modules that are left out. -/
theorem modulesBelow_eq_filter (config : Config) (path package : String) (t : FileTree) :
    modulesBelow config path package t =
      (modulesBelow config.withoutSkip path package t).filter (·.isKept config) := by
  induction t using FileTree.induction generalizing path package with
  | file bytes => simp [modulesBelow]
  | dir entries ih =>
    -- of each directory that is looked into, the modules that are not left out are found
    have hsubdirs : subdirModules config path package entries =
        ((subdirModules config.withoutSkip path package entries).filter fun d =>
          !config.isSkipped (package ++ "." ++ d.1)).map
            fun d => (d.1, d.2.filter (·.isKept config)) := by
      rw [subdirModules_eq, subdirModules_eq, List.filter_map, List.map_map, List.filter_filter]
      simp only [Config.isSkipped_withoutSkip, Bool.not_false, Bool.and_true, Function.comp_def]
      rw [List.filter_congr fun e _ => Bool.and_comm _ _]
      refine List.map_congr_left fun e he => ?_
      obtain ⟨hmem, hkept⟩ := List.mem_filter.mp he
      have hname : config.isSkipped (package ++ "." ++ e.1) = false := by
        simpa using (Bool.and_eq_true_iff.mp hkept).1
      rw [modulesAt, modulesAt, List.filter_append, filter_ownModule hname, ih e hmem]
    have hdropped : ∀ d ∈ Assoc.sorted (subdirModules config.withoutSkip path package entries),
        (!config.isSkipped (package ++ "." ++ d.1)) = false → d.2.filter (·.isKept config) = [] := by
      intro d hd hskipped
      rw [Assoc.mem_sorted, subdirModules_eq] at hd
      obtain ⟨e, -, rfl⟩ := List.mem_map.mp hd
      exact filter_modulesAt_eq_nil (by simpa using hskipped) _
    rw [modulesBelow, modulesBelow, List.filter_append, ← leafModules_eq_filter, hsubdirs,
      ← Assoc.map_sorted, ← Assoc.filter_sorted, List.flatMap_map, List.filter_flatMap,
      flatMap_filter_of_eq_nil hdropped]

/-! ### Packages -/

/-- The root of what was found, and those of the modules below it that are not left out. -/
def keepBelowRoot (config : Config) : List FoundModule → List FoundModule
  | [] => []
  | root :: below => root :: below.filter fun m => !config.isSkipped m.name

/-- Skipping in one search directory is leaving out of what is found in it. -/
theorem findIn?_pruned (tree : FileTree) (config : Config) (root directory : String) :
    findIn? tree config root directory =
      (findIn? tree config.withoutSkip root directory).map (keepBelowRoot config) := by
  unfold findIn?
  dsimp only
  split
  · rw [Option.map_some, keepBelowRoot, modulesBelow_eq_filter]
    rfl
  · rw [Option.map_map]
    rfl

/-- **Leaving modules out while looking for them is leaving them out of what is found.**  The root
    is found all the same, and the modules below it are those that would be found if nothing were
    left out, in the same order, without the modules that a pattern matches by their own name or by
    that of a package around them. -/
theorem findPackage_pruned (tree : FileTree) (config : Config) (root : String)
    (searchPath : List String) :
    findPackage tree config root searchPath =
        (findPackage tree { config with skip := {} } root searchPath).map (keepBelowRoot config) ∧
      ∀ name, config.isSkipped name = true ↔ ∃ pattern ∈ config.skip.patterns,
        globMatches pattern name = true ∨
          ∃ around rest, name = around ++ "." ++ rest ∧ globMatches pattern around = true := by
  refine ⟨?_, fun name => ?_⟩
  · have hfirst : searchPath.findSome? (findIn? tree config root) =
        (searchPath.findSome? (findIn? tree { config with skip := {} } root)).map
          (keepBelowRoot config) := by
      rw [List.map_findSome?]
      exact congrArg (List.findSome? · searchPath) (funext (findIn?_pruned tree config root))
    unfold findPackage
    rw [hfirst]
    cases searchPath.findSome? (findIn? tree { config with skip := {} } root) <;> rfl
  · rw [config.isSkipped_iff name]
    simp only [Config.Skips, Inside, exists_and_right]

end PackageDoc
