import PackageDoc.Analysis.Links
import PackageDoc.Analysis.Run
import PackageDoc.Proofs.Arena.Index
import PackageDoc.Proofs.Declaration.Fresh
import PackageDoc.Proofs.Merge.Overloads
import PackageDoc.Proofs.Merge.Precedence

namespace PackageDoc

/-!
# Views before types are evaluated

Merging binds each name of a module or class once, if the sources were read and the snapshots list
each name once; and it leaves all annotations to be evaluated.

* `Snapshot.HasDistinctNames` — a snapshot lists each name once, in every object;
* `MergedModule.Fresh` — names are distinct at every depth and annotations wait for their types;
* `ModuleInput.fresh_of_merge` — the view of a module is fresh;
* `Analysis.linked` — an analysis whose modules are registered and merged and whose imports are
  followed;
* `Analysis.wellIndexed_linked`, `Analysis.stateAfter_linked` — the index fits its modules, and what
  is known of them.
-/

/-! ### Snapshots -/

mutual

/-- The attributes of an object have distinct names, and so it is with all objects below it. -/
def SnapshotMember.HasDistinctNames : SnapshotMember → Prop
  | ⟨_, _, _, _, _, _, members⟩ => SnapshotMember.DistinctNames members

/-- These attributes have distinct names, and so it is with all objects below them. -/
def SnapshotMember.DistinctNames : List SnapshotMember → Prop
  | [] => True
  | m :: ms => (∀ n ∈ ms, n.name ≠ m.name) ∧ m.HasDistinctNames ∧ SnapshotMember.DistinctNames ms

end

/-- The snapshot lists each name once per object. -/
def Snapshot.HasDistinctNames (s : Snapshot) : Prop :=
  SnapshotMember.DistinctNames s.members

/-! ### Fresh views -/

/-- No annotation of the definition is evaluated yet. -/
def MemberShape.Fresh (shape : MemberShape) : Prop :=
  ∀ x ∈ shape.hints, x.2.Fresh

mutual

/-- No annotation of the definition or below it is evaluated yet, and the names in each class are
    distinct. -/
def MergedMember.Fresh : MergedMember → Prop
  | ⟨_, _, _, shape, members⟩ => shape.Fresh ∧ MergedMember.FreshAll members

/-- The definitions are fresh and their names are distinct. -/
def MergedMember.FreshAll : List MergedMember → Prop
  | [] => True
  | m :: ms => (∀ n ∈ ms, n.name ≠ m.name) ∧ m.Fresh ∧ MergedMember.FreshAll ms

end

/-- The names of the definitions of a module are distinct at every depth, and no annotation is
    evaluated yet. -/
def MergedModule.Fresh (m : MergedModule) : Prop :=
  MergedMember.FreshAll m.members

namespace MergedMember

/-- Members are fresh when their names are distinct and each is fresh. -/
theorem freshAll_iff (ms : List MergedMember) :
    FreshAll ms ↔ (ms.map MergedMember.name).Nodup ∧ ∀ m ∈ ms, m.Fresh := by
  induction ms with
  | nil => simp [FreshAll]
  | cons m ms ih =>
    have hnodup : ((m :: ms).map MergedMember.name).Nodup ↔
        (∀ n ∈ ms, n.name ≠ m.name) ∧ (ms.map MergedMember.name).Nodup := by
      simp only [List.map_cons, List.nodup_cons, List.mem_map, not_exists, not_and]
    rw [FreshAll, ih, hnodup, List.forall_mem_cons]
    constructor
    · rintro ⟨hname, hm, hrest, hall⟩
      exact ⟨⟨hname, hrest⟩, hm, hall⟩
    · rintro ⟨⟨hname, hrest⟩, hm, hall⟩
      exact ⟨hname, hm, hrest, hall⟩

/-- Leaving definitions out keeps the rest fresh. -/
theorem FreshAll.sublist {ms ns : List MergedMember} (h : FreshAll ms) (hsub : ns.Sublist ms) :
    FreshAll ns := by
  rw [freshAll_iff] at h ⊢
  exact ⟨h.1.sublist (hsub.map _), fun m hm => h.2 m (hsub.subset hm)⟩

end MergedMember

/-! ### Shapes -/

/-- A class is fresh when its bases are. -/
theorem MemberShape.fresh_classDef {bases : List TypeHint} {decorators : List String}
    (h : ∀ hint ∈ bases, hint.Fresh) : (MemberShape.classDef bases decorators).Fresh := by
  intro x hx
  obtain ⟨⟨hint, i⟩, hmem, rfl⟩ := List.mem_map.mp hx
  exact h hint (List.fst_mem_of_mem_zipIdx hmem)

/-- A variable is fresh when its annotation is. -/
theorem MemberShape.fresh_variable {hint : Option TypeHint} {value : Option String}
    {instanceVar typeChecking : Bool} (h : ∀ t ∈ hint, t.Fresh) :
    (MemberShape.variable hint value instanceVar typeChecking).Fresh := by
  intro x hx
  obtain ⟨t, ht, rfl⟩ := Option.map_eq_some_iff.mp (Option.mem_toList.mp hx)
  exact h t ht

/-- A function is fresh when all its declarations are. -/
theorem MemberShape.fresh_function {group : FunctionGroup} (h : ∀ d ∈ group.decls, d.Fresh) :
    (MemberShape.function group).Fresh := by
  intro x hx
  obtain ⟨⟨decl, d⟩, hdecl, hx⟩ := List.mem_flatMap.mp hx
  have hfresh := h decl (List.fst_mem_of_mem_zipIdx hdecl)
  rcases List.mem_append.mp hx with hx | hx
  · obtain ⟨⟨p, i⟩, hp, hx⟩ := List.mem_filterMap.mp hx
    obtain ⟨t, ht, rfl⟩ := Option.map_eq_some_iff.mp hx
    exact hfresh.1 p (List.fst_mem_of_mem_zipIdx hp) t ht
  · obtain ⟨t, ht, rfl⟩ := Option.map_eq_some_iff.mp (Option.mem_toList.mp hx)
    exact hfresh.2 t ht

/-- The last run of some declarations is made up of them. -/
theorem FunctionGroup.mem_of_mem_ofDecls {decls : List FunctionDecl} {d : FunctionDecl}
    (h : d ∈ (FunctionGroup.ofDecls decls).decls) : d ∈ decls :=
  (lastRun_ofDecls decls).suffix.subset h

/-- A fresh binding has a fresh shape. -/
theorem Binding.Fresh.shape {b : Binding} {shape : MemberShape} (h : b.Fresh)
    (hshape : b.shape? = some shape) : shape.Fresh := by
  match b, h, hshape with
  | .function f, h, hshape =>
    obtain rfl := Option.some.inj hshape
    rw [Binding.Fresh] at h
    exact MemberShape.fresh_function fun d hd => h d (FunctionGroup.mem_of_mem_ofDecls hd)
  | .classDef decl scope, h, hshape =>
    obtain rfl := Option.some.inj hshape
    rw [Binding.Fresh] at h
    exact MemberShape.fresh_classDef h.1
  | .variable v, h, hshape =>
    obtain rfl := Option.some.inj hshape
    rw [Binding.Fresh] at h
    exact MemberShape.fresh_variable h

/-! ### Modules with a source -/

/-- The definitions in a body have names of the body. -/
theorem name_mem_of_mem_mergeEntries {docs : DocSources} {path names : List String}
    {es : Entries Binding names} {m : MergedMember} (h : m ∈ mergeEntries docs path es) :
    m.name ∈ names := by
  induction es with
  | nil => exact absurd h (by simp [mergeEntries])
  | cons name b rest ih =>
    rw [mergeEntries] at h
    rcases List.mem_append.mp h with h | h
    · rw [name_of_mergeBinding (Option.mem_toList.mp h)]
      exact List.mem_cons_self
    · exact List.mem_cons_of_mem _ (ih h)

mutual

/-- A fresh binding is merged as a fresh member. -/
theorem fresh_mergeBinding (docs : DocSources) (name : String) : ∀ (path : List String)
    (b : Binding) (m : MergedMember), b.Fresh → mergeBinding docs name path b = some m → m.Fresh
  | path, .function f, m, hb, h => by
    obtain ⟨shape, hshape, rfl⟩ := Option.map_eq_some_iff.mp (by rwa [mergeBinding] at h)
    exact ⟨hb.shape hshape, by simp [MergedMember.FreshAll]⟩
  | path, .variable v, m, hb, h => by
    obtain ⟨shape, hshape, rfl⟩ := Option.map_eq_some_iff.mp (by rwa [mergeBinding] at h)
    exact ⟨hb.shape hshape, by simp [MergedMember.FreshAll]⟩
  | path, .classDef decl ⟨_, entries, _, hdistinct, _⟩, m, hb, h => by
    obtain rfl : _ = m := by simpa [mergeBinding] using h
    rw [Binding.Fresh] at hb
    exact ⟨MemberShape.fresh_classDef hb.1, fresh_mergeEntries docs path entries hdistinct hb.2⟩
  | path, .external decl, m, hb, h => by simp [mergeBinding] at h

/-- The definitions in a fresh body are fresh. -/
theorem fresh_mergeEntries (docs : DocSources) : ∀ (path : List String) {names : List String}
    (es : Entries Binding names), names.Nodup → es.Fresh →
      MergedMember.FreshAll (mergeEntries docs path es)
  | path, _, .nil, _, _ => by simp [mergeEntries, MergedMember.FreshAll]
  | path, _, .cons name b rest, hdistinct, h => by
    obtain ⟨hname, hdistinct⟩ := List.nodup_cons.mp hdistinct
    rw [Entries.Fresh] at h
    obtain ⟨hb, hrest⟩ := h
    rw [mergeEntries]
    have hall := fresh_mergeEntries docs path rest hdistinct hrest
    cases hm : mergeBinding docs name (path ++ [name]) b with
    | none => simpa using hall
    | some m =>
      refine ⟨fun n hn heq => ?_, fresh_mergeBinding docs name _ b m hb hm, hall⟩
      rw [name_of_mergeBinding hm] at heq
      exact hname (heq ▸ name_mem_of_mem_mergeEntries hn)

end

/-- A fresh scope stays fresh when it is merged with a stub. -/
theorem fresh_mergeInterface {input : ModuleInput} {table : ModuleTable}
    (h : table.scope.Fresh) : (input.mergeInterface table).2.Fresh := by
  have hall := fresh_mergeEntries input.docSources [] table.scope.entries table.scope.distinct h
  rw [← members_mergeTable] at hall
  refine MergedMember.FreshAll.sublist hall ?_
  rw [MergedModule.members, items_mergeInterface]
  exact List.filter_sublist.filterMap _

/-! ### Modules without a source -/

/-- A signature's text is read like a source. -/
theorem fresh_functionGroup (name : String) (docstring signature : Option String) :
    (MemberShape.function (SnapshotMember.functionGroup name docstring signature)).Fresh := by
  refine MemberShape.fresh_function fun d hd => ?_
  have hdecl : ∀ decl, signature.bind (parseSignature? name) = some decl → decl.Fresh := by
    intro decl h
    obtain ⟨text, -, h⟩ := Option.bind_eq_some_iff.mp h
    unfold parseSignature? at h
    dsimp only at h
    split at h
    · rename_i f hget
      split at h
      · exact absurd h (by simp)
      · have hf := (ModuleTable.fresh_parse _ _ _).of_get? hget
        rw [Binding.Fresh] at hf
        exact hf decl (List.mem_of_head? h)
    · exact absurd h (by simp)
  obtain rfl : d = _ := by simpa [SnapshotMember.functionGroup, FunctionGroup.decls] using hd
  cases hsig : signature.bind (parseSignature? name) with
  | none => exact ⟨by simp, by simp⟩
  | some decl => exact hdecl decl hsig

/-- A member of a snapshot keeps its name. -/
theorem name_toMember (m : SnapshotMember) : m.toMember.name = m.name := by
  obtain ⟨name, kind, _, _, _, _, _⟩ := m
  cases kind <;> simp [SnapshotMember.toMember]

/-- Members made of a snapshot come from its members. -/
theorem exists_mem_of_mem_toMembers {ms : List SnapshotMember} {m : MergedMember}
    (h : m ∈ SnapshotMember.toMembers ms) : ∃ s ∈ ms, s.name = m.name := by
  induction ms with
  | nil => exact absurd h (by simp [SnapshotMember.toMembers])
  | cons s ms ih =>
    rw [SnapshotMember.toMembers] at h
    rcases List.mem_append.mp h with h | h
    · split at h
      · exact absurd h (by simp)
      · obtain rfl : m = s.toMember := by simpa using h
        exact ⟨s, by simp, (name_toMember s).symm⟩
    · obtain ⟨s', hs', hname⟩ := ih h
      exact ⟨s', List.mem_cons_of_mem _ hs', hname⟩

mutual

/-- A member with distinct names in it makes a fresh one. -/
theorem fresh_toMember : ∀ m : SnapshotMember, m.HasDistinctNames → m.toMember.Fresh
  | ⟨name, .classObject, docstring, signature, type, _, members⟩, h => by
    rw [SnapshotMember.toMember]
    exact ⟨MemberShape.fresh_classDef (by simp), fresh_toMembers members h⟩
  | ⟨name, .function, docstring, signature, type, _, members⟩, _ => by
    rw [SnapshotMember.toMember]
    exact ⟨fresh_functionGroup name docstring signature, by simp [MergedMember.FreshAll]⟩
  | ⟨name, .variable, docstring, signature, type, _, members⟩, _
  | ⟨name, .module, docstring, signature, type, _, members⟩, _ => by
    rw [SnapshotMember.toMember]
    refine ⟨MemberShape.fresh_variable fun hint hhint => ?_, by simp [MergedMember.FreshAll]⟩
    obtain ⟨text, -, rfl⟩ := Option.map_eq_some_iff.mp hhint
    rfl

/-- So do members with distinct names. -/
theorem fresh_toMembers : ∀ ms : List SnapshotMember, SnapshotMember.DistinctNames ms →
    MergedMember.FreshAll (SnapshotMember.toMembers ms)
  | [], _ => by simp [SnapshotMember.toMembers, MergedMember.FreshAll]
  | m :: ms, h => by
    rw [SnapshotMember.DistinctNames] at h
    obtain ⟨hname, hm, hms⟩ := h
    rw [SnapshotMember.toMembers]
    split
    · exact fresh_toMembers ms hms
    · refine ⟨fun n hn heq => ?_, fresh_toMember m hm, fresh_toMembers ms hms⟩
      obtain ⟨s, hs, hsn⟩ := exists_mem_of_mem_toMembers hn
      exact hname s hs (by rw [hsn, heq, name_toMember])

end

/-- An attribute that becomes a definition of the module becomes the definition that it is. -/
theorem eq_toMember_of_toItem {module : String} {m : SnapshotMember} {d : MergedMember}
    (h : (m.toItem module).member? = some d) : d = m.toMember := by
  unfold SnapshotMember.toItem at h
  split at h
  · split at h
    · exact absurd h (by simp [MergedItem.member?])
    · simpa [MergedItem.member?, eq_comm] using h
  · simpa [MergedItem.member?, eq_comm] using h

/-- Members with distinct names make fresh items of a module. -/
theorem fresh_filterMap_toItem (module : String) {ms : List SnapshotMember}
    (h : SnapshotMember.DistinctNames ms) :
    MergedMember.FreshAll (ms.filterMap fun m => (m.toItem module).member?) := by
  induction ms with
  | nil => simp [MergedMember.FreshAll]
  | cons m ms ih =>
    rw [SnapshotMember.DistinctNames] at h
    obtain ⟨hname, hm, hms⟩ := h
    cases hd : (m.toItem module).member? with
    | none =>
      simpa only [List.filterMap_cons, hd] using ih hms
    | some d =>
      simp only [List.filterMap_cons, hd]
      obtain rfl := eq_toMember_of_toItem hd
      refine ⟨fun n hn heq => ?_, fresh_toMember m hm, ih hms⟩
      obtain ⟨m', hm', hn⟩ := List.mem_filterMap.mp hn
      obtain rfl := eq_toMember_of_toItem hn
      exact hname m' hm' (by rw [← name_toMember m', heq, name_toMember])

/-- The definitions of a module of which there is only a snapshot are some of its attributes. -/
theorem fresh_toModule {s : Snapshot} (h : s.HasDistinctNames) : s.toModule.Fresh := by
  refine MergedMember.FreshAll.sublist (fresh_filterMap_toItem s.name h) ?_
  rw [MergedModule.members, Snapshot.toModule, List.filterMap_map]
  exact List.filter_sublist.filterMap _

/-! ### All modules -/

/-- The declarations of the module were read from its files. -/
def ModuleInput.IsRead (input : ModuleInput) : Prop :=
  (∀ table ∈ input.source, table.IsRead) ∧ ∀ table ∈ input.stub, table.IsRead

/-- An input that is read from a source without a stub is read. -/
theorem ModuleInput.isRead_of_source {input : ModuleInput} {source name : String}
    {isPackage : Bool} (hsource : input.source = some (.parse source name isPackage))
    (hstub : input.stub = none) : input.IsRead := by
  refine ⟨fun table htable => ?_, fun table htable => ?_⟩
  · obtain rfl := Option.some.inj (hsource.symm.trans htable)
    exact .text source name isPackage
  · exact absurd htable (by simp [hstub])

/-- The snapshot of the module, if there is one, lists each name once per object. -/
def ModuleInput.HasDistinctNames (input : ModuleInput) : Prop :=
  ∀ s ∈ input.outcome.snapshot?, s.HasDistinctNames

/-- The view of a module is fresh. -/
theorem ModuleInput.fresh_of_merge {input : ModuleInput} {m : MergedModule} (hread : input.IsRead)
    (hnames : input.HasDistinctNames) (h : input.merge.2 = .ok m) : m.Fresh := by
  unfold ModuleInput.merge at h
  dsimp only at h
  split at h
  -- the source or the stub is merged
  · rename_i table hinterface
    have htable : table.IsRead := by
      cases hstub : input.stub with
      | some stub =>
        obtain rfl : stub = table := by simpa [ModuleInput.interface?, hstub] using hinterface
        exact hread.2 stub hstub
      | none => exact hread.1 table (by simpa [ModuleInput.interface?, hstub] using hinterface)
    split at h
    · exact absurd h (by simp)
    · obtain rfl := Except.ok.inj h
      exact fresh_mergeInterface htable.fresh
  -- there is neither, so that the snapshot is taken
  · split at h
    · exact absurd h (by simp)
    · split at h
      · rename_i snapshot hsnapshot
        obtain rfl := Except.ok.inj h
        exact fresh_toModule (hnames snapshot hsnapshot)
      · exact absurd h (by simp)

/-! ### The analysis -/

namespace Analysis

/-- An analysis of some modules that are registered and merged and whose imports are followed. -/
def linked (root : String) (inputs : List ModuleInput) (config : Config) : Analysis :=
  (Analysis.start root inputs config).prepare.resolveImports

variable {a : Analysis} {name : String}

/-- Registered modules come from the modules that were pending. -/
theorem register_foldl (inputs more : List ModuleInput) (a : Analysis)
    (hmore : ∀ input ∈ more, input ∈ inputs)
    (hstates : ∀ s ∈ a.modules, ∃ id, ∃ input ∈ inputs, s = { id := id, input := input }) :
    ∀ s ∈ (more.foldl registerInput a).modules,
      ∃ id, ∃ input ∈ inputs, s = { id := id, input := input } := by
  induction more generalizing a with
  | nil => exact hstates
  | cons input more ih =>
    obtain ⟨hinput, hmore⟩ := List.forall_mem_cons.mp hmore
    rw [List.foldl_cons]
    refine ih (a.registerInput input) hmore ?_
    rcases registerInput_cases a input with ⟨hsame, -⟩ | ⟨-, -, id, -, hadd⟩
    · rwa [hsame]
    · rw [hadd]
      intro s hs
      rcases List.mem_append.mp hs with hs | hs
      · exact hstates s hs
      · obtain rfl : s = _ := by simpa using hs
        exact ⟨id, input, hinput, rfl⟩

/-- Of a module that was just registered nothing is known but its number and its input. -/
theorem eq_of_mem_register {root : String} {inputs : List ModuleInput} {config : Config}
    {s : ModuleState} (hs : s ∈ (Analysis.start root inputs config).register.modules) :
    s = { id := s.id, input := s.input } := by
  obtain ⟨id, input, -, rfl⟩ := register_foldl inputs inputs
    { Analysis.start root inputs config with pending := [] } (fun _ h => h) (by simp [start]) s hs
  rfl

/-- What is known of a module before its annotations are evaluated: its view is what merging made of
    an input, and nothing was reported of its definitions. -/
structure StateAfter (inputs : List ModuleInput) (s : ModuleState) : Prop where
  merged : ∃ input ∈ inputs, ∀ m, s.merged = some m → input.merge.2 = .ok m
  nodeDiagnostics : s.nodeDiagnostics = []

/-- Modules and index fit together when imports are followed. -/
theorem wellIndexed_linked (root : String) (inputs : List ModuleInput) (config : Config) :
    (linked root inputs config).WellIndexed :=
  (WellIndexed.start root inputs config).register.mergeModules.resolveImports

/-- Every module that is linked is in the state after its merge. -/
theorem stateAfter_linked {root : String} {inputs : List ModuleInput} {config : Config} :
    ∀ s ∈ (linked root inputs config).modules, StateAfter inputs s := by
  have hstates := register_foldl inputs inputs
    { Analysis.start root inputs config with pending := [] } (fun _ h => h) (by simp [start])
  -- behind registration each module is merged and linked on its own
  have hmodules : (linked root inputs config).modules =
      (inputs.foldl registerInput { Analysis.start root inputs config with pending := [] }).modules.map
        fun s => s.merge.report
          (((Analysis.start root inputs config).prepare.linksOf s.merge).filterMap
            linkDiagnostic?) := by
    rw [linked, resolveImports, prepare, mergeModules, register, List.map_map]
    rfl
  rw [hmodules]
  intro s hs
  obtain ⟨s', hs', rfl⟩ := List.mem_map.mp hs
  obtain ⟨id, input, hinput, rfl⟩ := hstates s' hs'
  refine ⟨⟨input, hinput, fun m hm => ?_⟩, ?_⟩
  · exact (ModuleState.merged_merge_cases hm).resolve_right (by simp)
  · change (ModuleState.merge _).nodeDiagnostics = []
    rw [ModuleState.merge_rest]

/-- Views are fresh before annotations are evaluated. -/
theorem fresh_of_mem_linked {root : String} {inputs : List ModuleInput} {config : Config}
    (hread : ∀ input ∈ inputs, input.IsRead) (hnames : ∀ input ∈ inputs, input.HasDistinctNames)
    {s : ModuleState} (hs : s ∈ (linked root inputs config).modules) {m : MergedModule}
    (hm : s.merged = some m) : m.Fresh := by
  obtain ⟨input, hinput, hmerge⟩ := (stateAfter_linked s hs).merged
  exact ModuleInput.fresh_of_merge (hread input hinput) (hnames input hinput) (hmerge m hm)

end Analysis
end PackageDoc
