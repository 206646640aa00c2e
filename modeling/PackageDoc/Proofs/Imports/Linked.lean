import PackageDoc.Analysis.Run
import PackageDoc.Proofs.Merge.Views
import PackageDoc.Proofs.Rules.Run
import PackageDoc.Yaml.Value

namespace PackageDoc

/-!
# Every import is linked

Once the modules of a package are registered and merged, following imports leaves a link for every
name that a module imports, and no other link.  The steps that come later find it there.

* `MergedModule.nodup_items_of_merge` — a view binds each name once;
* `Analysis.Prepared` — the analyses in which modules were registered and merged, and no more;
* `Analysis.FilledFrom` — the analyses that the steps behind the imports lead to;
* `Analysis.FilledFrom.linksFollowed` — in all of them the links are the ends of the chains;
* `Analysis.ImportsLinked` — what following imports does, and what is never seen behind it;
* `Analysis.Prepared.importsLinked` — it does so in every package.
-/

/-! ### Names that a view binds -/

/-- What is kept of a list, by names, is a part of the list of names. -/
theorem sublist_map_filterMap {α β γ : Type} {f : α → Option β} {g : β → γ} {h : α → γ}
    (hf : ∀ x y, f x = some y → g y = h x) (xs : List α) :
    ((xs.filterMap f).map g).Sublist (xs.map h) := by
  induction xs with
  | nil => exact .slnil
  | cons x xs ih =>
    cases hx : f x with
    | none => rw [List.filterMap_cons_none hx]; exact ih.cons _
    | some y => rw [List.filterMap_cons_some hx, List.map_cons, hf x y hx]; exact ih.cons_cons _

/-- An item has the name under which it is bound. -/
theorem name_of_mergeItem? {docs : DocSources} {entry : String × Binding} {item : MergedItem}
    (h : mergeItem? docs entry = some item) : item.name = entry.1 := by
  obtain ⟨name, b⟩ := entry
  by_cases hdef : b.isDefinition = true
  · rw [mergeItem?_of_isDefinition docs hdef] at h
    obtain ⟨m, hm, rfl⟩ := Option.map_eq_some_iff.mp h
    exact name_of_mergeBinding hm
  · cases b with
    | external decl =>
      obtain rfl := Option.some.inj h
      rfl
    | _ => exact absurd rfl hdef

/-- So it has in a snapshot. -/
theorem name_toItem (module : String) (m : SnapshotMember) : (m.toItem module).name = m.name := by
  unfold SnapshotMember.toItem
  split
  · split
    · rfl
    · exact name_toMember m
  · exact name_toMember m

/-- Members with distinct names have no name twice. -/
theorem SnapshotMember.DistinctNames.nodup {ms : List SnapshotMember}
    (h : SnapshotMember.DistinctNames ms) : (ms.map SnapshotMember.name).Nodup := by
  induction ms with
  | nil => exact List.nodup_nil
  | cons m ms ih =>
    rw [SnapshotMember.DistinctNames] at h
    refine List.nodup_cons.mpr ⟨fun hmem => ?_, ih h.2.2⟩
    obtain ⟨n, hn, hname⟩ := List.mem_map.mp hmem
    exact h.1 n hn hname

namespace MergedModule

variable {m : MergedModule}

/-- **A view binds each name once**, if the snapshot lists each name once.  The sources always do. -/
theorem nodup_items_of_merge {input : ModuleInput} (hnames : input.HasDistinctNames)
    (h : input.merge.2 = .ok m) :
    (m.items.map MergedItem.name).Nodup := by
  unfold ModuleInput.merge at h
  dsimp only at h
  split at h
  · rename_i table hinterface
    split at h
    · exact absurd h (by simp)
    · obtain rfl := Except.ok.inj h
      show ((input.mergeInterface table).2.items.map MergedItem.name).Nodup
      rw [items_mergeInterface]
      -- what is left of the items is in the order of the source
      refine table.scope.nodup_keys.sublist ((List.filter_sublist.map _).trans ?_)
      exact sublist_map_filterMap (fun entry item => name_of_mergeItem?) table.scope.toList
  · split at h
    · exact absurd h (by simp)
    · split at h
      · rename_i snapshot hsnapshot
        obtain rfl := Except.ok.inj h
        show ((Snapshot.toModule snapshot).items.map MergedItem.name).Nodup
        have hname : MergedItem.name ∘ SnapshotMember.toItem snapshot.name = SnapshotMember.name :=
          funext (name_toItem snapshot.name)
        rw [Snapshot.toModule, List.map_map, hname]
        exact (hnames snapshot hsnapshot).nodup.sublist (List.filter_sublist.map _)
      · exact absurd h (by simp)

/-- The imported names are some of the names that are bound. -/
theorem sublist_externals (m : MergedModule) :
    (m.externals.map Prod.fst).Sublist (m.items.map MergedItem.name) := by
  refine sublist_map_filterMap (fun item e he => ?_) m.items
  cases item with
  | member d => exact absurd he (by simp [MergedItem.external?])
  | external name decl =>
    obtain rfl := Option.some.inj he
    rfl

/-- A name is found among the imports exactly when it is listed. -/
theorem external?_isSome_iff {name : String} :
    (m.external? name).isSome = true ↔ name ∈ m.externals.map Prod.fst :=
  Assoc.isSome_get?_iff

end MergedModule

namespace Analysis

variable {a b c : Analysis} {s : ModuleState} {root : String} {config : Config}
  {inputs : List ModuleInput}

/-! ### Analyses before imports are followed -/

/-- The analyses that registering and merging lead to, with modules added in between. -/
inductive Prepared (root : String) (inputs : List ModuleInput) (config : Config) : Analysis → Prop
  | start : Prepared root inputs config (Analysis.start root inputs config)
  | add {a : Analysis} (h : Prepared root inputs config a) (input : ModuleInput) :
    Prepared root inputs config { a with pending := a.pending ++ [input] }
  | register {a : Analysis} (h : Prepared root inputs config a) :
    Prepared root inputs config a.register
  | mergeModules {a : Analysis} (h : Prepared root inputs config a) :
    Prepared root inputs config a.mergeModules

namespace Prepared

/-- What is prepared is reached. -/
theorem reached (h : Prepared root inputs config a) : Reached root inputs config a := by
  induction h with
  | start => exact .start
  | add _ input ih => exact ih.add input
  | register _ ih => exact ih.register
  | mergeModules _ ih => exact ih.mergeModules

/-- Nothing is linked yet, and the view of a module is what merging makes of its input. -/
theorem links_views (h : Prepared root inputs config a) :
    a.links = [] ∧ ∀ s ∈ a.modules, ∀ m, s.merged = some m → s.input.merge.2 = .ok m := by
  induction h with
  | start => exact ⟨rfl, by simp [Analysis.start]⟩
  | add _ _ ih => exact ih
  | @register b _ ih =>
    let Before (c : Analysis) : Prop :=
      c.links = [] ∧ ∀ s ∈ c.modules, ∀ m, s.merged = some m → s.input.merge.2 = .ok m
    -- a module that is registered is not merged yet
    refine List.foldlRecOn b.pending registerInput (motive := Before) ih fun c hc input _ => ?_
    rcases registerInput_cases c input with ⟨hsame, -⟩ | ⟨-, -, id, -, hadd⟩
    · rwa [hsame]
    · rw [hadd]
      refine ⟨hc.1, fun s hs m hm => ?_⟩
      rcases List.mem_append.mp hs with hs | hs
      · exact hc.2 s hs m hm
      · obtain rfl := List.mem_singleton.mp hs
        exact absurd hm (by simp)
  | mergeModules _ ih =>
    refine ⟨ih.1, fun s hs m hm => ?_⟩
    obtain ⟨t, ht, rfl⟩ := List.mem_map.mp hs
    rw [ModuleState.merge_input]
    exact (ModuleState.merged_merge_cases hm).elim id (ih.2 t ht m)

end Prepared

/-! ### Links -/

/-- What has a link is a name that a module imports. -/
theorem exists_import_of_mem_links (hlinks : a.links = []) {key : ModuleId × String} {origin : Origin}
    (h : (key, origin) ∈ a.resolveImports.links) :
    ∃ s ∈ a.modules, s.id = key.1 ∧ key.2 ∈ s.imports.map Prod.fst := by
  rw [links_resolveImports, hlinks] at h
  rcases Assoc.mem_of_mem_foldl_bind h with h | h
  · exact absurd h (by simp)
  · obtain ⟨s, hs, hmem⟩ := List.mem_flatMap.mp h
    obtain ⟨e, he, heq⟩ := List.mem_map.mp hmem
    obtain ⟨rfl, -⟩ := Prod.mk.inj heq
    exact ⟨s, hs, rfl, List.mem_map_of_mem he⟩

/-- The analyses that the steps behind the imports lead to from `b`. -/
inductive FilledFrom (b : Analysis) : Analysis → Prop
  | refl : FilledFrom b b
  | evaluateTypes {c : Analysis} (h : FilledFrom b c) : FilledFrom b c.evaluateTypes
  | applyVisibility {c : Analysis} (h : FilledFrom b c) : FilledFrom b c.applyVisibility

/-- Applying the rules of visibility changes no origin. -/
theorem originOf_applyVisibility (a : Analysis) (module name : String) :
    a.applyVisibility.originOf module name = a.originOf module name :=
  (a.rulesOnly_applyVisibility.bindsAlike.knowsAlike.originOf module name).symm

/-- Reporting something changes no binding. -/
theorem bindsAlike_report (s : ModuleState) (ds : List Diagnostic) : (s.report ds).BindsAlike s := by
  refine ⟨rfl, ?_⟩
  show Option.Rel MergedModule.BindsAlike s.merged s.merged
  cases s.merged with
  | none => exact .none
  | some m => exact .some ⟨fun _ => rfl, rfl⟩

namespace FilledFrom

/-- Origins stay what they are. -/
theorem originOf (h : FilledFrom b c) (module name : String) :
    c.originOf module name = b.originOf module name := by
  induction h with
  | refl => rfl
  | evaluateTypes _ ih => rw [originOf_evaluateTypes, ih]
  | applyVisibility _ ih => rw [originOf_applyVisibility, ih]

/-- **Links remain the ends of the chains.** -/
theorem linksFollowed (h : FilledFrom b c) (hb : b.LinksFollowed) : c.LinksFollowed := by
  induction h with
  | refl => exact hb
  | evaluateTypes _ ih => exact ih.evaluateTypes
  | @applyVisibility c _ ih =>
    refine ih.of_alike c.rulesOnly_applyVisibility.links c.originOf_applyVisibility fun t ht => ?_
    obtain ⟨s, hs, rfl⟩ := List.mem_map.mp ht
    exact ⟨s, hs, rfl, bindsAlike_report s _⟩

end FilledFrom

/-! ### What is found behind the imports -/

/-- Every import of a registered module has its link. -/
theorem LinksFollowed.get? (h : a.LinksFollowed) (hs : s ∈ a.modules) {e : String × ExternalDecl}
    (he : e ∈ s.imports) : Assoc.get? a.links (s.id, e.1) = some (a.originOf s.name e.1) := by
  cases hm : s.merged with
  | none => exact absurd he (by simp [ModuleState.imports, hm])
  | some m =>
    rw [ModuleState.imports_of_merged hm] at he
    exact h s hs m hm e.1 (MergedModule.external?_isSome_iff.mpr (List.mem_map_of_mem he))

/-- No rule is rejected because the link of an import is missing. -/
theorem LinksFollowed.ruleTarget_ne (h : a.LinksFollowed) (hs : s ∈ a.modules) (key : String)
    (effect : RuleEffect) (head : String) :
    a.ruleTarget s key effect ≠ .error (.importNotResolved head) := by
  unfold ruleTarget
  cases hm : s.merged with
  | none => simp
  | some m =>
    dsimp only
    cases rulePath s.name m key with
    | nil => simp
    | cons name rest =>
      dsimp only
      split
      · split <;> simp
      · split
        · simp
        -- `name` is bound by an import, so that there is a link for it
        · rename_i hexternal
          have hbound : (m.external? name).isSome = true :=
            Option.isSome_iff_ne_none.mpr (by simpa using hexternal)
          rw [h s hs m hm name hbound]
          dsimp only
          split
          · unfold referenceTarget
            split
            · simp
            · simp
            · split <;> simp
            · simp
          · unfold memberTarget
            split
            · simp
            · split <;> simp

/-- The entries of the imports of a module have the ends of the chains for their origins. -/
theorem LinksFollowed.externals_moduleOf [YamlReader] (h : a.LinksFollowed) (hs : s ∈ a.modules) :
    (a.moduleOf s).externals = s.imports.map fun e =>
      ⟨e.1, e.2.module, e.2.name, a.originOf s.name e.1, e.2.typeChecking, knownLine e.2.line⟩ := by
  have himports : ((s.merged.getD {}).externals : List (String × ExternalDecl)) = s.imports := by
    rw [ModuleState.imports]
    cases s.merged <;> rfl
  show (s.merged.getD {}).externals.map (a.externalEntry s) = _
  rw [himports]
  refine List.map_congr_left fun e he => ?_
  rw [externalEntry, linkOf, h.get? hs he, Option.getD_some]

/-! ### All imports -/

/-- An import whose chain leads nowhere. -/
structure FailedImport where
  name : String
  line : Nat
  /-- The module and the name up to which it was followed. -/
  module : String
  target : String
  reason : ChainFailure

/-- The import, if its link leads nowhere. -/
def failedImport? (a : Analysis) (s : ModuleState) (e : String × ExternalDecl) :
    Option FailedImport :=
  match Assoc.get? a.links (s.id, e.1) with
  | some (.unresolved module target reason) => some ⟨e.1, e.2.line, module, target, reason⟩
  | _ => none

/-- What is to be reported of it. -/
def FailedImport.report (f : FailedImport) : Diagnostic :=
  { finding := match f.reason with
      | .cyclic => .importLoop f.name f.module
      | .notFound => .importMissing f.target f.module
      | .unresolvedModule => .importThroughUnresolved f.name f.module
    line := knownLine f.line }

/-- Following imports links every imported name, and nothing else, to the end of its chain, and
    reports each link that leads nowhere; and the later steps find all links. -/
structure ImportsLinked [YamlReader] (a : Analysis) : Prop where
  /-- What has a link is what a module imports. -/
  keys : ∀ id name, (id, name) ∈ Assoc.keys a.resolveImports.links ↔
    ∃ s ∈ a.modules, s.id = id ∧ name ∈ s.imports.map Prod.fst
  keys_nodup : (Assoc.keys a.resolveImports.links).Nodup
  /-- A number is that of one module. -/
  ids_nodup : (a.modules.map ModuleState.id).Nodup
  /-- A module imports a name once. -/
  imports_nodup : ∀ s ∈ a.modules, (s.imports.map Prod.fst).Nodup
  /-- The link is the end of the chain. -/
  values : ∀ s ∈ a.modules, ∀ e ∈ s.imports,
    Assoc.get? a.resolveImports.links (s.id, e.1) = some (a.originOf s.name e.1)
  /-- One report for each link that leads nowhere, in the order of the imports, and no other. -/
  reports : a.resolveImports.modules = a.modules.map fun s =>
    s.report ((s.imports.filterMap (a.resolveImports.failedImport? s)).map FailedImport.report)
  /-- The ends of chains stay the same. -/
  originOf : ∀ c, FilledFrom a.resolveImports c → ∀ module name,
    c.originOf module name = a.originOf module name
  /-- Every later step finds the link of every import, -/
  found : ∀ c, FilledFrom a.resolveImports c → ∀ s ∈ c.modules, ∀ e ∈ s.imports,
    Assoc.get? c.links (s.id, e.1) = some (a.originOf s.name e.1)
  /-- so that no rule is rejected for want of one, -/
  rules : ∀ c, FilledFrom a.resolveImports c → ∀ s ∈ c.modules, ∀ key effect head,
    c.ruleTarget s key effect ≠ .error (.importNotResolved head)
  /-- and the documentation shows the end of every chain. -/
  entries : ∀ c, FilledFrom a.resolveImports c → ∀ s ∈ c.modules,
    (c.moduleOf s).externals = s.imports.map fun e =>
      ⟨e.1, e.2.module, e.2.name, a.originOf s.name e.1, e.2.typeChecking, knownLine e.2.line⟩

/-- A link is reported exactly when its origin is unresolved, with the reason. -/
theorem linkDiagnostic?_eq (line : Nat) (name : String) (origin : Origin) :
    linkDiagnostic? (name, line, origin) =
      (match origin with
        | .unresolved module target reason =>
          some (FailedImport.mk name line module target reason)
        | _ => none).map FailedImport.report := by
  cases origin with
  | unresolved module target reason => cases reason <;> rfl
  | _ => rfl

/-- What is reported of a module is reported of its links. -/
theorem reports_eq (hlinks : ∀ e ∈ s.imports,
      Assoc.get? b.links (s.id, e.1) = some (a.originOf s.name e.1)) :
    (a.linksOf s).filterMap linkDiagnostic? =
      (s.imports.filterMap (b.failedImport? s)).map FailedImport.report := by
  rw [linksOf_eq, List.filterMap_map, List.map_filterMap]
  refine List.filterMap_congr fun e he => ?_
  rw [failedImport?, hlinks e he, Function.comp_apply, linkDiagnostic?_eq]
  cases a.originOf s.name e.1 <;> rfl

/-- **Every import is linked, and no later step misses a link**, if the snapshots of the registered
    modules list each name once per object. -/
theorem Prepared.importsLinked [YamlReader] (h : Prepared root inputs config a)
    (hnames : ∀ s ∈ a.modules, s.input.HasDistinctNames) : a.ImportsLinked := by
  obtain ⟨hempty, hviews⟩ := h.links_views
  have hnumbered := h.reached.wellIndexed.numbered
  have hfollowed := linksFollowed_resolveImports hnumbered
  have horigins : ∀ c, FilledFrom a.resolveImports c → ∀ module name,
      c.originOf module name = a.originOf module name := fun c hc module name => by
    rw [hc.originOf, a.bindsAlike_resolveImports.knowsAlike.originOf]
  have hvalues : ∀ s ∈ a.modules, ∀ e ∈ s.imports,
      Assoc.get? a.resolveImports.links (s.id, e.1) = some (a.originOf s.name e.1) := by
    intro s hs e he
    rw [← horigins _ .refl]
    exact hfollowed.get? (List.mem_map_of_mem hs) he
  refine ⟨fun id name => ⟨fun hkey => ?_, ?_⟩, ?_, hnumbered.nodup_ids, fun s hs => ?_, hvalues, ?_,
    horigins, fun c hc s hs e he => ?_, fun c hc s hs => ?_, fun c hc s hs => ?_⟩
  · obtain ⟨e, he, heq⟩ := List.mem_map.mp hkey
    rw [show e = ((id, name), e.2) from Prod.ext heq rfl] at he
    exact exists_import_of_mem_links hempty he
  · rintro ⟨s, hs, rfl, hname⟩
    obtain ⟨e, he, rfl⟩ := List.mem_map.mp hname
    rw [← Assoc.isSome_get?_iff, hvalues s hs e he, Option.isSome_some]
  · rw [links_resolveImports, hempty]
    exact Assoc.nodup_keys_foldl_bind List.nodup_nil
  · cases hm : s.merged with
    | none => simp [ModuleState.imports, hm]
    | some m =>
      rw [ModuleState.imports_of_merged hm]
      have hitems := MergedModule.nodup_items_of_merge (hnames s hs) (hviews s hs m hm)
      exact hitems.sublist m.sublist_externals
  · exact List.map_congr_left fun s hs => by rw [reports_eq (hvalues s hs)]
  · -- the later steps change no link and no end of a chain
    rw [(hc.linksFollowed hfollowed).get? hs he, horigins c hc]
  · exact (hc.linksFollowed hfollowed).ruleTarget_ne hs
  · rw [(hc.linksFollowed hfollowed).externals_moduleOf hs]
    exact List.map_congr_left fun e _ => by rw [horigins c hc]

/-! ### A package with a module of which there is only a snapshot -/

/-- Every module that is prepared comes from an input. -/
theorem input_mem_of_mem_prepare
    (hs : s ∈ (Analysis.start root inputs config).prepare.modules) : s.input ∈ inputs := by
  obtain ⟨t, ht, rfl⟩ := List.mem_map.mp hs
  obtain ⟨id, input, hinput, rfl⟩ := register_foldl inputs inputs
    { Analysis.start root inputs config with pending := [] } (fun _ h => h) (by simp [start]) t ht
  rwa [ModuleState.merge_input]

/-- The package imports a class that two of its modules import from each other, one of them a native
    extension, and a name that is nowhere. -/
def circularInputs : List ModuleInput := [
  { name := "pkg", isPackage := true
    source := some (.parse "from .a import C\nfrom .b import D, E\n__autodoc__ = \x7b'E': True\x7d\n"
      "pkg" true) },
  { name := "pkg.a"
    outcome := .loaded
      { name := "pkg.a"
        members := [{ name := "C", kind := .classObject, definedIn := some "pkg.b" },
          { name := "E", kind := .function }] } },
  { name := "pkg.b", source := some (.parse "from .a import C, E\n" "pkg.b" false) }]

/-- The package, when its modules are registered and merged. -/
def circular : Analysis :=
  (Analysis.start "pkg" circularInputs {}).prepare

/-- Four links lead nowhere.  Each is reported once, that of the snapshot without a line; the rule
    for the fifth import finds its link. -/
theorem importsLinked_circular : Prepared "pkg" circularInputs {} circular ∧
    (∀ s ∈ circular.modules, s.input.HasDistinctNames) ∧
    circular.ImportsLinked ∧
    (circular.resolveImports.modules.map fun s =>
      (s.name, s.diagnostics.map fun d => (d.finding, d.line))) = [
        ("pkg", [(.importLoop "C" "pkg.a", some 1), (.importMissing "D" "pkg.b", some 2)]),
        ("pkg.a", [(.importLoop "C" "pkg.a", none)]),
        ("pkg.b", [(.importLoop "C" "pkg.b", some 1)])] := by
  have hprepared : Prepared "pkg" circularInputs {} circular := .mergeModules (.register .start)
  have hinputs : ∀ input ∈ circularInputs, input.HasDistinctNames := by
    have hnone : ∀ input : ModuleInput, input.outcome = .notAttempted → input.HasDistinctNames :=
      fun input h s hs => absurd hs (by simp [h, ImportOutcome.snapshot?])
    refine List.forall_mem_cons.mpr ⟨hnone _ rfl,
      List.forall_mem_cons.mpr ⟨?_, List.forall_mem_singleton.mpr (hnone _ rfl)⟩⟩
    intro s hs
    obtain rfl := Option.some.inj hs
    simp [Snapshot.HasDistinctNames, SnapshotMember.DistinctNames, SnapshotMember.HasDistinctNames]
  have hall : ∀ s ∈ circular.modules, s.input.HasDistinctNames :=
    fun s hs => hinputs s.input (input_mem_of_mem_prepare hs)
  exact ⟨hprepared, hall, hprepared.importsLinked hall, by decide +kernel⟩

end Analysis
end PackageDoc
