import PackageDoc.Files.Session
import PackageDoc.Proofs.Arena.Registration
import PackageDoc.Proofs.Declaration.Bindings
import PackageDoc.Proofs.Files.Pruning

namespace PackageDoc

/-!
# Names of the modules that are found

The files of a module belong together by the name of the module, and a directory gives its name to
the package that it is.  The files and the directories of one directory are looked at on their own,
so a module and a package beside it may have the same name.

* `FileTree.Holds` — a directory has a file of a module (`isSome_moduleFiles_iff`);
* `partBelow` — where below a package a module stands, by its name;
* `FoundTwice` — a file and a package of one name, in a directory that is looked into;
* `nodup_map_modulesBelow_dir` — one directory: its modules differ if those of each subdirectory do,
  and from the files beside it;
* `findPackage_names_iff` — a whole package: no module is found twice as a file, or twice as a
  package; the names are distinct exactly when no name is found both ways, and exactly then are all
  modules registered.
-/

/-! ### Files of a directory -/

/-- The names in every directory are distinct. -/
inductive FileTree.Distinct : FileTree → Prop
  | file (bytes : List UInt8) : Distinct (.file bytes)
  | dir {entries : List (String × FileTree)} (names : (entries.map Prod.fst).Nodup)
    (each : ∀ e ∈ entries, Distinct e.2) : Distinct (.dir entries)

/-- The entries of a distinct directory have different names and are distinct. -/
theorem FileTree.Distinct.of_dir {entries : List (String × FileTree)}
    (h : (FileTree.dir entries).Distinct) :
    (entries.map Prod.fst).Nodup ∧ ∀ e ∈ entries, e.2.Distinct := by
  cases h with
  | dir names each => exact ⟨names, each⟩

/-- One of the entries is a file of the module `stem`. -/
def FileTree.Holds (entries : List (String × FileTree)) (stem : String) : Prop :=
  ∃ e ∈ entries, e.2.isDir = false ∧ ∃ kind, classifyFile? e.1 = some (stem, kind)

namespace Assoc

/-- Sorting entries only reorders them. -/
theorem perm_sorted {κ α : Type} [LT κ] [DecidableLT κ] (entries : List (κ × α)) :
    (sorted entries).Perm entries := by
  have hinsert : ∀ (e : κ × α) (es : List (κ × α)), (insertSorted e es).Perm (e :: es) := by
    intro e es
    induction es with
    | nil => exact .refl _
    | cons f es ih =>
      rw [insertSorted]
      split
      · exact .refl _
      · exact (ih.cons f).trans (.swap e f es)
  induction entries using List.reverseRecOn with
  | nil => exact .refl _
  | append_singleton entries e ih =>
    rw [sorted, List.foldl_concat]
    exact (hinsert e _).trans ((ih.cons e).trans (List.perm_append_singleton e entries).symm)

end Assoc

open FileTree (Holds Distinct)

variable {config : Config} {path package : String} {entries : List (String × FileTree)}
variable {t : FileTree} {m : FoundModule}

/-- Add a file to the modules found so far, if it is a file of a module. -/
def addFile (path : String) (found : List (String × ModuleFiles)) (e : String × FileTree) :
    List (String × ModuleFiles) :=
  match classifyFile? e.1 with
  | none => found
  | some (stem, kind) =>
    Assoc.bind found stem (((Assoc.get? found stem).getD {}).add kind (joinPath path e.1))

/-- The files of modules are collected in the order of their names. -/
theorem moduleFilesIn_eq (path : String) (entries : List (String × FileTree)) :
    moduleFilesIn path entries =
      ((Assoc.sorted entries).filter fun e => !e.2.isDir).foldl (addFile path) [] := rfl

/-- A file that is added is collected under its stem, once. -/
theorem keys_addFile (path : String) (found : List (String × ModuleFiles)) (e : String × FileTree)
    (h : (Assoc.keys found).Nodup) :
    (Assoc.keys (addFile path found e)).Nodup ∧ ∀ stem, stem ∈ Assoc.keys (addFile path found e) ↔
      stem ∈ Assoc.keys found ∨ ∃ kind, classifyFile? e.1 = some (stem, kind) := by
  unfold addFile
  cases hfile : classifyFile? e.1 with
  | none => exact ⟨h, by simp⟩
  | some file =>
    obtain ⟨name, kind⟩ := file
    dsimp only
    rw [Assoc.keys_bind]
    split
    -- another file of the module was found
    · refine ⟨h, fun stem => ⟨.inl, ?_⟩⟩
      rintro (hknown | ⟨_, ⟨⟩⟩)
      · exact hknown
      · assumption
    · rename_i hnew
      refine ⟨?_, fun stem => ?_⟩
      · rw [← List.concat_eq_append]
        exact h.concat hnew
      · simp [eq_comm]

/-- The modules that a directory has files of, each once. -/
theorem keys_moduleFilesIn (path : String) (entries : List (String × FileTree)) :
    (Assoc.keys (moduleFilesIn path entries)).Nodup ∧
      ∀ stem, stem ∈ Assoc.keys (moduleFilesIn path entries) ↔ Holds entries stem := by
  -- a file adds its stem unless the other kind of file has added it
  have hfold : ∀ (files : List (String × FileTree)) (found : List (String × ModuleFiles)),
      (Assoc.keys found).Nodup → (Assoc.keys (files.foldl (addFile path) found)).Nodup ∧
        ∀ stem, stem ∈ Assoc.keys (files.foldl (addFile path) found) ↔ stem ∈ Assoc.keys found ∨
          ∃ e ∈ files, ∃ kind, classifyFile? e.1 = some (stem, kind) := by
    intro files
    induction files with
    | nil => exact fun found hfound => ⟨hfound, by simp⟩
    | cons e files ih =>
      intro found hfound
      obtain ⟨hnodup, hkeys⟩ := keys_addFile path found e hfound
      obtain ⟨hall, hmem⟩ := ih _ hnodup
      refine ⟨hall, fun stem => (hmem stem).trans ?_⟩
      rw [hkeys, List.exists_mem_cons_iff, or_assoc]
  obtain ⟨hnodup, hkeys⟩ := hfold ((Assoc.sorted entries).filter fun e => !e.2.isDir) []
    List.nodup_nil
  rw [moduleFilesIn_eq]
  refine ⟨hnodup, fun stem => (hkeys stem).trans ?_⟩
  simp [Holds, Assoc.keys, List.mem_filter, Assoc.mem_sorted, and_assoc]

/-- Files are collected under a stem exactly when the directory holds some of it. -/
theorem isSome_moduleFiles_iff {stem : String} :
    (Assoc.get? (moduleFilesIn path entries) stem).isSome = true ↔ Holds entries stem := by
  rw [Assoc.isSome_get?_iff]
  exact (keys_moduleFilesIn path entries).2 stem

/-! ### Where below a package a module stands -/

/-- The part of a module's name that comes next behind that of a package. -/
def partBelow (package name : String) : List Char :=
  (name.toList.drop (package.toList.length + 1)).takeWhile (· != '.')

/-- The first part of a dotted name ends at the dot. -/
theorem takeWhile_dot {cs ds : List Char} (hcs : '.' ∉ cs) (hds : ∀ d ∈ ds.head?, d = '.') :
    (cs ++ ds).takeWhile (· != '.') = cs := by
  have hall : ∀ c ∈ cs, (c != '.') = true := fun c hc =>
    bne_iff_ne.mpr fun hdot => hcs (hdot ▸ hc)
  rw [List.takeWhile_append_of_pos hall]
  cases ds with
  | nil => rw [List.takeWhile_nil, List.append_nil]
  | cons d ds => rw [List.takeWhile_cons_of_neg (by simp [hds d rfl]), List.append_nil]

/-- The part of a name directly below a package is what stands behind the dot. -/
theorem partBelow_self {part : String} (h : '.' ∉ part.toList) :
    partBelow package (package ++ "." ++ part) = part.toList := by
  have hdrop : (package ++ "." ++ part).toList.drop (package.toList.length + 1) = part.toList ++ [] := by
    simp [String.toList_append, List.drop_append]
  rw [partBelow, hdrop, takeWhile_dot h (fun _ hd => by cases hd)]

/-- All names inside a part have it. -/
theorem partBelow_of_inside {part name : String} (h : '.' ∉ part.toList)
    (hinside : Inside (package ++ "." ++ part) name) : partBelow package name = part.toList := by
  obtain ⟨rest, rfl⟩ := hinside
  have hdrop : (package ++ "." ++ part ++ "." ++ rest).toList.drop (package.toList.length + 1) =
      part.toList ++ '.' :: rest.toList := by
    simp [String.toList_append, List.drop_append]
  rw [partBelow, hdrop, takeWhile_dot h (fun _ hd => by cases hd; rfl)]

/-- The name of a module has no dots in it. -/
theorem dot_notMem_of_isIdentifier {name : String} (h : isIdentifier name = true) :
    '.' ∉ name.toList := by
  unfold isIdentifier at h
  split at h
  · cases h
  · rename_i c cs hname
    rw [hname]
    simp only [Bool.and_eq_true, Bool.or_eq_true, decide_eq_true_eq, List.all_eq_true] at h
    intro hmem
    rcases List.mem_cons.mp hmem with rfl | hmem
    · exact absurd h.1 (by decide)
    · exact absurd (h.2 '.' hmem) (by decide)

/-! ### One directory -/

/-- The entries of a directory that are looked into. -/
def visited (config : Config) (package : String) (entries : List (String × FileTree)) :
    List (String × FileTree) :=
  entries.filter fun e => isSearched e && !config.isSkipped (package ++ "." ++ e.1)

/-- A directory is visited exactly when it may hold modules and is not skipped. -/
theorem mem_visited {e : String × FileTree} :
    e ∈ visited config package entries ↔
      e ∈ entries ∧ isSearched e = true ∧ config.isSkipped (package ++ "." ++ e.1) = false := by
  rw [visited, List.mem_filter, Bool.and_eq_true, Bool.not_eq_true']

/-- Only directories named as modules are visited. -/
theorem isIdentifier_of_isSearched {e : String × FileTree} (h : isSearched e = true) :
    isIdentifier e.1 = true := by
  simp only [isSearched, Bool.and_eq_true] at h
  exact h.1.2

/-- The modules of a directory are its stems that name one and are not skipped. -/
theorem mem_leafModules :
    m ∈ leafModules config path package entries ↔ ∃ stem files,
      (stem, files) ∈ moduleFilesIn path entries ∧ isIdentifier stem = true ∧
        stem ∉ excludedStems ∧ config.isSkipped (package ++ "." ++ stem) = false ∧
        m = ⟨package ++ "." ++ stem, false, files⟩ := by
  simp only [leafModules, List.mem_filter, List.mem_map, Assoc.mem_sorted, Prod.exists,
    Bool.and_eq_true, Bool.not_eq_true', List.contains_eq_mem, decide_eq_false_iff_not]
  constructor
  · rintro ⟨⟨stem, files, ⟨hmem, hname, hfree⟩, rfl⟩, hkept⟩
    exact ⟨stem, files, hmem, hname, hfree, hkept, rfl⟩
  · rintro ⟨stem, files, hmem, hname, hfree, hkept, rfl⟩
    exact ⟨⟨stem, files, ⟨hmem, hname, hfree⟩, rfl⟩, hkept⟩

/-- No two modules of one directory have one name. -/
theorem nodup_names_leafModules (config : Config) (path package : String)
    (entries : List (String × FileTree)) :
    ((leafModules config path package entries).map FoundModule.name).Nodup := by
  have hstems : (((moduleFilesIn path entries).filter fun m =>
      isIdentifier m.1 && !excludedStems.contains m.1).map Prod.fst).Nodup :=
    (keys_moduleFilesIn path entries).1.sublist (List.filter_sublist.map _)
  have hnames : (((Assoc.sorted ((moduleFilesIn path entries).filter fun m =>
      isIdentifier m.1 && !excludedStems.contains m.1)).map fun m =>
        (⟨package ++ "." ++ m.1, false, m.2⟩ : FoundModule)).map FoundModule.name).Nodup := by
    rw [List.map_map]
    apply ((Assoc.perm_sorted _).map _).nodup_iff.mpr
    have hmap := hstems.map (f := fun stem => package ++ "." ++ stem) fun _ _ => by simp
    rwa [List.map_map] at hmap
  exact hnames.sublist (List.filter_sublist.map _)

/-- A module of a subdirectory stands where the subdirectory does. -/
theorem partBelow_of_mem_modulesAt {e : String × FileTree} (he : isSearched e = true)
    (hm : m ∈ modulesAt config path package e) : partBelow package m.name = e.1.toList := by
  have hdot := dot_notMem_of_isIdentifier (isIdentifier_of_isSearched he)
  rcases List.mem_append.mp hm with hm | hm
  · rw [name_of_mem_ownModule hm]
    exact partBelow_self hdot
  · exact partBelow_of_inside hdot (inside_of_mem_modulesBelow hm)

section Map

variable {β : Type} {f : FoundModule → β}

/-- Whatever tells the names of modules apart is repeated no more than the names are. -/
theorem nodup_map_of_names {ms : List FoundModule} (hf : ∀ m m', f m = f m' → m.name = m'.name)
    (h : (ms.map FoundModule.name).Nodup) : (ms.map f).Nodup := by
  rw [List.Nodup, List.pairwise_map] at h ⊢
  exact h.imp fun hne heq => hne (hf _ _ heq)

/-- A package is not one of the modules below it. -/
theorem nodup_map_modulesAt (hf : ∀ m m', f m = f m' → m.name = m'.name) {e : String × FileTree} :
    ((modulesAt config path package e).map f).Nodup ↔
      ((modulesBelow config (joinPath path e.1) (package ++ "." ++ e.1) e.2).map f).Nodup := by
  rw [modulesAt, List.map_append, List.nodup_append]
  refine ⟨fun h => h.2.1, fun h => ⟨?_, h, ?_⟩⟩
  · unfold ownModule
    split
    · exact List.nodup_singleton _
    · exact List.nodup_nil
  · intro b hb b' hb' heq
    obtain ⟨own, hown, rfl⟩ := List.mem_map.mp hb
    obtain ⟨m, hm, rfl⟩ := List.mem_map.mp hb'
    have hlt := (inside_of_mem_modulesBelow hm).length_lt
    rw [← hf own m heq, name_of_mem_ownModule hown] at hlt
    exact absurd hlt (Nat.lt_irrefl _)

/-- **The modules of a directory differ** if those of each subdirectory do, and its files from
    those. -/
theorem nodup_map_modulesBelow_dir (hf : ∀ m m', f m = f m' → m.name = m'.name)
    (hnames : (entries.map Prod.fst).Nodup) :
    ((modulesBelow config path package (.dir entries)).map f).Nodup ↔
      (∀ e ∈ visited config package entries, ((modulesAt config path package e).map f).Nodup) ∧
        ∀ leaf ∈ leafModules config path package entries, ∀ e ∈ visited config package entries,
          ∀ m ∈ modulesAt config path package e, f leaf ≠ f m := by
  have hperm : ((Assoc.sorted (subdirModules config path package entries)).flatMap Prod.snd).Perm
      ((visited config package entries).flatMap (modulesAt config path package)) := by
    refine ((Assoc.perm_sorted _).flatMap_right _).trans (.of_eq ?_)
    rw [subdirModules_eq, List.flatMap_map]
    rfl
  have hleaves := nodup_map_of_names hf (nodup_names_leafModules config path package entries)
  -- two subdirectories have different names, and so have what is found in them
  have hapart : (visited config package entries).Pairwise fun e e' =>
      List.Disjoint ((modulesAt config path package e).map f)
        ((modulesAt config path package e').map f) := by
    have hdistinct : (visited config package entries).Pairwise fun e e' => e.1 ≠ e'.1 :=
      List.pairwise_map.mp (hnames.sublist (List.filter_sublist.map _))
    refine hdistinct.imp_of_mem fun he he' hne b hb hb' => hne ?_
    obtain ⟨m, hm, rfl⟩ := List.mem_map.mp hb
    obtain ⟨m', hm', heq⟩ := List.mem_map.mp hb'
    rw [← String.toList_inj, ← partBelow_of_mem_modulesAt (mem_visited.mp he).2.1 hm,
      ← partBelow_of_mem_modulesAt (mem_visited.mp he').2.1 hm', hf _ _ heq]
  rw [modulesBelow, ((hperm.append_left _).map f).nodup_iff, List.map_append, List.nodup_append,
    List.map_flatMap, List.nodup_flatMap]
  constructor
  · rintro ⟨-, ⟨hsubdirs, -⟩, hne⟩
    refine ⟨hsubdirs, fun leaf hleaf e he m hm => ?_⟩
    exact hne _ (List.mem_map_of_mem hleaf) _
      (List.mem_flatMap.mpr ⟨e, he, List.mem_map_of_mem hm⟩)
  · rintro ⟨hsubdirs, hne⟩
    refine ⟨hleaves, ⟨hsubdirs, hapart⟩, fun b hb b' hb' => ?_⟩
    obtain ⟨leaf, hleaf, rfl⟩ := List.mem_map.mp hb
    obtain ⟨e, he, hmem⟩ := List.mem_flatMap.mp hb'
    obtain ⟨m, hm, rfl⟩ := List.mem_map.mp hmem
    exact hne leaf hleaf e he m hm

end Map

/-! ### Modules and packages of one name -/

/-- In a directory that is looked into, a file and a package beside it are both the module of one
    name, which is not left out. -/
inductive FoundTwice (config : Config) : (package : String) → FileTree → Prop
  | here {package : String} {entries : List (String × FileTree)} {e : String × FileTree}
    (entry : e ∈ visited config package entries) (free : e.1 ∉ excludedStems)
    (file : Holds entries e.1) (own : Holds e.2.entries "__init__") :
    FoundTwice config package (.dir entries)
  | inside {package : String} {entries : List (String × FileTree)} {e : String × FileTree}
    (entry : e ∈ visited config package entries)
    (more : FoundTwice config (package ++ "." ++ e.1) e.2) : FoundTwice config package (.dir entries)

/-- Where a file has the name of a module in a subdirectory, the subdirectory is the package of that
    name. -/
theorem eq_of_mem_modulesAt {leaf : FoundModule} {e : String × FileTree}
    (hleaf : leaf ∈ leafModules config path package entries)
    (he : e ∈ visited config package entries) (hm : m ∈ modulesAt config path package e)
    (hname : leaf.name = m.name) :
    Holds entries e.1 ∧ e.1 ∉ excludedStems ∧ Holds e.2.entries "__init__" ∧ m.isPackage = true := by
  obtain ⟨stem, files, hfiles, hstem, hfree, -, rfl⟩ := mem_leafModules.mp hleaf
  have hdot := dot_notMem_of_isIdentifier hstem
  have hpart := partBelow_of_mem_modulesAt (mem_visited.mp he).2.1 hm
  rw [← hname, partBelow_self hdot, String.toList_inj] at hpart
  subst hpart
  have hholds : Holds entries e.1 :=
    ((keys_moduleFilesIn path entries).2 e.1).mp (List.mem_map_of_mem hfiles)
  rcases List.mem_append.mp hm with hown | hbelow
  · unfold ownModule at hown
    split at hown
    · rename_i files' hinit
      refine ⟨hholds, hfree, ?_, by rw [List.mem_singleton.mp hown]⟩
      exact isSome_moduleFiles_iff.mp (by rw [hinit]; rfl)
    · cases hown
  · -- what is below the subdirectory has a longer name
    have hlt := (inside_of_mem_modulesBelow hbelow).length_lt
    rw [← hname] at hlt
    exact absurd hlt (Nat.lt_irrefl _)

/-- A file and a package of one name are found, both. -/
theorem exists_leaf_of_holds {e : String × FileTree} (he : e ∈ visited config package entries)
    (hfree : e.1 ∉ excludedStems) (hfile : Holds entries e.1) (hown : Holds e.2.entries "__init__") :
    ∃ leaf ∈ leafModules config path package entries, ∃ m ∈ modulesAt config path package e,
      leaf.name = m.name := by
  obtain ⟨-, hsearched, hkept⟩ := mem_visited.mp he
  obtain ⟨⟨stem, files⟩, hfiles, rfl⟩ :=
    List.mem_map.mp (((keys_moduleFilesIn path entries).2 e.1).mpr hfile)
  obtain ⟨own, hinit⟩ := Option.isSome_iff_exists.mp
    (isSome_moduleFiles_iff.mpr hown :
      (Assoc.get? (moduleFilesIn (joinPath path e.1) e.2.entries) "__init__").isSome = true)
  refine ⟨⟨package ++ "." ++ e.1, false, files⟩, ?_, ⟨package ++ "." ++ e.1, true, own⟩, ?_, rfl⟩
  · apply mem_leafModules.mpr
    exact ⟨e.1, files, hfiles, isIdentifier_of_isSearched hsearched, hfree, hkept, rfl⟩
  · apply List.mem_append_left
    rw [ownModule, hinit]
    exact List.mem_singleton_self _

/-- **The names of the modules below a directory are distinct** unless a file and a package there
    have one name. -/
theorem nodup_names_modulesBelow_iff (h : t.Distinct) :
    ((modulesBelow config path package t).map FoundModule.name).Nodup ↔
      ¬ FoundTwice config package t := by
  induction t using FileTree.induction generalizing path package with
  | file bytes =>
    rw [modulesBelow]
    refine ⟨fun _ htwice => ?_, fun _ => List.nodup_nil⟩
    cases htwice
  | dir entries ih =>
    obtain ⟨hnames, heach⟩ := h.of_dir
    have hbelow : ∀ e ∈ visited config package entries,
        ((modulesAt config path package e).map FoundModule.name).Nodup ↔
          ¬ FoundTwice config (package ++ "." ++ e.1) e.2 := by
      intro e he
      have hmem := (mem_visited.mp he).1
      exact (nodup_map_modulesAt fun _ _ => id).trans (ih e hmem (heach e hmem))
    -- a name is there twice within one entry, or once as a file of the directory and once below it
    rw [nodup_map_modulesBelow_dir (fun _ _ => id) hnames]
    constructor
    · rintro ⟨hsubdirs, hne⟩ htwice
      cases htwice with
      | here he hfree hfile hown =>
        obtain ⟨leaf, hleaf, m, hm, heq⟩ := exists_leaf_of_holds he hfree hfile hown
        exact hne leaf hleaf _ he m hm heq
      | inside he hmore => exact (hbelow _ he).mp (hsubdirs _ he) hmore
    · intro hnone
      refine ⟨fun e he => (hbelow e he).mpr fun hmore => hnone (.inside he hmore), ?_⟩
      intro leaf hleaf e he m hm heq
      obtain ⟨hfile, hfree, hown, -⟩ := eq_of_mem_modulesAt hleaf he hm heq
      exact hnone (.here he hfree hfile hown)

/-- Below a directory no name is found twice as a file, or twice as a package. -/
theorem nodup_kinds_modulesBelow (h : t.Distinct) :
    ((modulesBelow config path package t).map fun m => (m.name, m.isPackage)).Nodup := by
  have hname : ∀ m m' : FoundModule, (m.name, m.isPackage) = (m'.name, m'.isPackage) →
      m.name = m'.name := fun m m' heq => (Prod.mk.inj heq).1
  induction t using FileTree.induction generalizing path package with
  | file bytes =>
    rw [modulesBelow]
    exact List.nodup_nil
  | dir entries ih =>
    obtain ⟨hnames, heach⟩ := h.of_dir
    refine (nodup_map_modulesBelow_dir hname hnames).mpr ⟨fun e he => ?_, ?_⟩
    · have hmem := (mem_visited.mp he).1
      exact (nodup_map_modulesAt hname).mpr (ih e hmem (heach e hmem))
    · intro leaf hleaf e he m hm heq
      obtain ⟨-, -, -, hpackage⟩ := eq_of_mem_modulesAt hleaf he hm (hname _ _ heq)
      obtain ⟨_, _, -, -, -, -, rfl⟩ := mem_leafModules.mp hleaf
      have hfalse : false = m.isPackage := (Prod.mk.inj heq).2
      rw [hpackage] at hfalse
      cases hfalse

/-! ### Packages -/

namespace FileTree.Distinct

/-- A child of a distinct tree is distinct. -/
theorem child? {name : String} {child : FileTree} (h : t.Distinct) (hchild : t.child? name = some child) :
    child.Distinct := by
  obtain ⟨e, he, rfl⟩ := Option.map_eq_some_iff.mp hchild
  have hmem := List.mem_of_find?_eq_some he
  cases h with
  | file => cases hmem
  | dir _ heach => exact heach e hmem

/-- So is what a path leads to. -/
theorem follow {above : List FileTree} {parts : List String} {found : FileTree}
    (habove : ∀ u ∈ above, u.Distinct) (h : t.Distinct)
    (hfound : FileTree.follow above t parts = some found) : found.Distinct := by
  induction parts generalizing above t with
  | nil =>
    obtain rfl := Option.some.inj hfound
    exact h
  | cons part parts ih =>
    unfold FileTree.follow at hfound
    split at hfound
    · cases hfound
    · split at hfound
      -- `.` leads nowhere, `..` one level up and any other part to a child
      · exact ih habove h hfound
      · split at hfound
        · split at hfound
          · cases hfound
          · obtain ⟨hparent, hothers⟩ := List.forall_mem_cons.mp habove
            exact ih hothers hparent hfound
        · obtain ⟨child, hchild, hmore⟩ := Option.bind_eq_some_iff.mp hfound
          exact ih (List.forall_mem_cons.mpr ⟨h, habove⟩) (h.child? hchild) hmore

/-- So is what is found at a path. -/
theorem at? {path : String} {found : FileTree} (h : t.Distinct) (hfound : t.at? path = some found) :
    found.Distinct := by
  unfold FileTree.at? at hfound
  split at hfound
  · cases hfound
  · exact follow (List.forall_mem_nil _) h hfound

end FileTree.Distinct

variable {tree : FileTree} {root directory : String} {found : List FoundModule}

/-- In the directory that the package is, if it is one, no name is found twice. -/
def NoneTwice (tree : FileTree) (config : Config) (root directory : String) : Prop :=
  ∀ t, tree.at? (joinPath directory (dottedPath (segments root))) = some t →
    Holds t.entries "__init__" → ¬ FoundTwice config root t

/-- A package with the modules below it is found, or a module on its own. -/
theorem findIn?_cases (h : findIn? tree config root directory = some found) :
    (∃ t files path, tree.at? (joinPath directory (dottedPath (segments root))) = some t ∧
        Holds t.entries "__init__" ∧ found = ⟨root, true, files⟩ :: modulesBelow config path root t) ∨
      (NoneTwice tree config root directory ∧ ∃ files, found = [⟨root, false, files⟩]) := by
  unfold findIn? at h
  dsimp only at h
  split at h
  · rename_i t files hdir hinit
    obtain ⟨hat, -⟩ := Option.filter_eq_some_iff.mp hdir
    rw [moduleFiles?, hat, Option.bind_some] at hinit
    have hholds : Holds t.entries "__init__" := isSome_moduleFiles_iff.mp (by rw [hinit]; rfl)
    exact .inl ⟨t, files, _, hat, hholds, (Option.some.inj h).symm⟩
  · rename_i hnone
    obtain ⟨files, -, rfl⟩ := Option.map_eq_some_iff.mp h
    refine .inr ⟨fun t hat hholds => ?_, files, rfl⟩
    -- a directory with such a file would have been found as a package
    have hdir : t.isDir = true := by
      obtain ⟨e, he, -⟩ := hholds
      cases t with
      | file => cases he
      | dir => rfl
    obtain ⟨init, hinit⟩ := Option.isSome_iff_exists.mp (isSome_moduleFiles_iff.mpr hholds)
    refine (hnone t init ?_ ?_).elim
    · exact Option.filter_eq_some_iff.mpr ⟨hat, hdir⟩
    · rw [moduleFiles?, hat, Option.bind_some]
      exact hinit

/-- The root of a package is not one of the modules below it. -/
theorem nodup_map_root {β : Type} {f : FoundModule → β} (hf : ∀ m m', f m = f m' → m.name = m'.name)
    (files : ModuleFiles) :
    ((⟨root, true, files⟩ :: modulesBelow config path root t).map f).Nodup ↔
      ((modulesBelow config path root t).map f).Nodup := by
  rw [List.map_cons, List.nodup_cons]
  refine and_iff_right fun hmem => ?_
  obtain ⟨m, hm, heq⟩ := List.mem_map.mp hmem
  have hlt := (inside_of_mem_modulesBelow hm).length_lt
  rw [hf _ _ heq] at hlt
  exact absurd hlt (Nat.lt_irrefl _)

/-- The modules that are found in one directory. -/
theorem nodup_findIn?_iff (htree : tree.Distinct) (h : findIn? tree config root directory = some found) :
    (found.map fun m => (m.name, m.isPackage)).Nodup ∧
      ((found.map FoundModule.name).Nodup ↔ NoneTwice tree config root directory) := by
  obtain ⟨t, files, path, hat, hholds, rfl⟩ | ⟨hnone, files, rfl⟩ := findIn?_cases h
  · have ht : t.Distinct := htree.at? hat
    have hiff : NoneTwice tree config root directory ↔ ¬ FoundTwice config root t := by
      refine ⟨fun hnone => hnone t hat hholds, fun hnot u hu _ => ?_⟩
      obtain rfl := Option.some.inj (hat.symm.trans hu)
      exact hnot
    constructor
    · apply (nodup_map_root (fun _ _ heq => (Prod.mk.inj heq).1) files).mpr
      exact nodup_kinds_modulesBelow ht
    · rw [nodup_map_root (fun _ _ => id), hiff]
      exact nodup_names_modulesBelow_iff ht
  · exact ⟨List.nodup_singleton _, fun _ => hnone, fun _ => List.nodup_singleton _⟩

/-! ### Registration -/

/-- No module that is found is skipped. -/
theorem isKept_of_mem_modulesBelow (h : m ∈ modulesBelow config path package t) :
    m.isKept config = true := by
  rw [modulesBelow_eq_filter] at h
  exact List.of_mem_filter h

/-- Only the root may be left out of what was found, and then nothing else was found. -/
theorem nodup_names_kept_iff (h : findIn? tree config root directory = some found) :
    ((found.filter (·.isKept config)).map FoundModule.name).Nodup ↔
      (found.map FoundModule.name).Nodup := by
  obtain ⟨t, files, path, -, -, rfl⟩ | ⟨-, files, rfl⟩ := findIn?_cases h
  · have hbelow : (modulesBelow config path root t).filter (·.isKept config) =
        modulesBelow config path root t :=
      List.filter_eq_self.mpr fun m hm => isKept_of_mem_modulesBelow hm
    by_cases hroot : config.isSkipped root = true
    · have hempty : modulesBelow config path root t = [] := by
        apply List.eq_nil_iff_forall_not_mem.mpr
        intro m hm
        have hkept := isKept_of_mem_modulesBelow hm
        rw [FoundModule.isKept, Config.isSkipped_of_inside hroot (inside_of_mem_modulesBelow hm)] at hkept
        cases hkept
      rw [hempty]
      exact ⟨fun _ => List.nodup_singleton _, fun hall => hall.sublist (List.filter_sublist.map _)⟩
    · rw [List.filter_cons_of_pos (by simp [FoundModule.isKept, hroot]), hbelow]
  · exact ⟨fun _ => List.nodup_singleton _, fun hall => hall.sublist (List.filter_sublist.map _)⟩

/-- Exactly when the names are distinct, registration drops nothing but what is left out. -/
theorem register_found_iff (s : Session) (h : findIn? tree config root directory = some found)
    (hlength : found.length + 1 < UInt32.size) :
    (Analysis.start root (found.map (s.prepare tree)) config).register.modules.map ModuleState.input =
        (found.filter (·.isKept config)).map (s.prepare tree) ↔
      (found.map FoundModule.name).Nodup := by
  have hnames (ms : List FoundModule) :
      (ms.map (s.prepare tree)).map ModuleInput.name = ms.map FoundModule.name := by
    rw [List.map_map]
    rfl
  constructor
  -- what is registered has distinct names, and those are the names of all that is kept
  · intro heq
    have hregistered :=
      (Analysis.WellIndexed.start root (found.map (s.prepare tree)) config).register.names
    have hinputs := congrArg (List.map ModuleInput.name) heq
    rw [List.map_map, hnames] at hinputs
    apply (nodup_names_kept_iff h).mp
    rw [← hinputs]
    exact hregistered
  · intro hnodup
    rw [Analysis.inputs_register_of_nodup root config (by rwa [hnames]) (by rwa [List.length_map]),
      List.filter_map]
    rfl

/-- **No module is found twice as a file, or twice as a package**, in a tree with distinct names.  The
    names of what is found are distinct exactly when no directory of the package that is looked into
    has a file and a package of one name, and exactly then registration drops nothing but what is
    left out. -/
theorem findPackage_names_iff (htree : tree.Distinct) {searchPath : List String}
    (h : findPackage tree config root searchPath = .ok found) :
    (found.map fun m => (m.name, m.isPackage)).Nodup ∧
      ∃ directory ∈ searchPath, findIn? tree config root directory = some found ∧
        ((found.map FoundModule.name).Nodup ↔ NoneTwice tree config root directory) ∧
        ∀ s : Session, found.length + 1 < UInt32.size →
          ((Analysis.start root (found.map (s.prepare tree)) config).register.modules.map
              ModuleState.input = (found.filter (·.isKept config)).map (s.prepare tree) ↔
            NoneTwice tree config root directory) := by
  unfold findPackage at h
  split at h
  · rename_i modules hfirst
    obtain rfl : modules = found := Except.ok.inj h
    obtain ⟨directory, hdirectory, hfound⟩ := List.exists_of_findSome?_eq_some hfirst
    obtain ⟨hkinds, hnames⟩ := nodup_findIn?_iff htree hfound
    refine ⟨hkinds, directory, hdirectory, hfound, hnames, fun s hlength => ?_⟩
    exact (register_found_iff s hfound hlength).trans hnames
  · cases h

/-- The directory of a package with nothing below it. -/
def emptyPackage : FileTree :=
  .dir [("__init__.py", .file [])]

/-- The names in an empty package are distinct. -/
theorem distinct_emptyPackage : emptyPackage.Distinct :=
  .dir (by decide) (List.forall_mem_singleton.mpr (.file []))

/-- A package with a module that has a source and an interface, and with a package beside it. -/
def pairedTree : FileTree :=
  .dir [("pkg", .dir [("__init__.py", .file []), ("a.py", .file []), ("a.pyi", .file []),
    ("b", emptyPackage)])]

/-- The names in the tree with the paired module are distinct. -/
theorem distinct_pairedTree : pairedTree.Distinct := by
  refine .dir (by decide) (List.forall_mem_singleton.mpr (.dir (by decide) ?_))
  simp only [List.forall_mem_cons]
  exact ⟨.file [], .file [], .file [], distinct_emptyPackage, List.forall_mem_nil _⟩

/-- In the tree with the paired module no name is found twice. -/
theorem findPackage_names_iff_pairedTree :
    ∃ found, findPackage pairedTree {} "pkg" ["."] = .ok found ∧
      found.map FoundModule.name = ["pkg", "pkg.a", "pkg.b"] ∧ pairedTree.Distinct ∧
      (found.map fun m => (m.name, m.isPackage)).Nodup ∧ NoneTwice pairedTree {} "pkg" "." := by
  have hnames : (findPackage pairedTree {} "pkg" ["."]).toOption.map (·.map FoundModule.name) =
      some ["pkg", "pkg.a", "pkg.b"] := by decide +kernel
  cases hfound : findPackage pairedTree {} "pkg" ["."] with
  | error e =>
    rw [hfound] at hnames
    cases hnames
  | ok found =>
    rw [hfound] at hnames
    have hlist := Option.some.inj hnames
    obtain ⟨hkinds, directory, hmem, -, hiff, -⟩ := findPackage_names_iff distinct_pairedTree hfound
    obtain rfl := List.mem_singleton.mp hmem
    refine ⟨found, rfl, hlist, distinct_pairedTree, hkinds, hiff.mp ?_⟩
    rw [show found.map FoundModule.name = ["pkg", "pkg.a", "pkg.b"] from hlist]
    decide

/-- A package with an interface `a.pyi` beside the package `a`. -/
def twofoldTree : FileTree :=
  .dir [("pkg", .dir [("__init__.py", .file []), ("a.pyi", .file []), ("a", emptyPackage)])]

/-- The module `pkg.a` is found as a file and as a package, and the package is not registered. -/
theorem findPackage_names_twofoldTree :
    twofoldTree.Distinct ∧
      (findPackage twofoldTree {} "pkg" ["."]).toOption.map (·.map fun m => (m.name, m.isPackage)) =
        some [("pkg", true), ("pkg.a", false), ("pkg.a", true)] ∧
      (findPackage twofoldTree {} "pkg" ["."]).toOption.map (fun found =>
        (Analysis.start "pkg" (found.map (({} : Session).prepare twofoldTree)) {}).register.modules.map
          fun m => (m.input.name, m.input.isPackage)) = some [("pkg", true), ("pkg.a", false)] := by
  refine ⟨?_, by decide +kernel, by decide +kernel⟩
  refine .dir (by decide) (List.forall_mem_singleton.mpr (.dir (by decide) ?_))
  simp only [List.forall_mem_cons]
  exact ⟨.file [], .file [], distinct_emptyPackage, List.forall_mem_nil _⟩

end PackageDoc
