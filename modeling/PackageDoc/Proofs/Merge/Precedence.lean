import PackageDoc.Analysis.Merge
import Mathlib.Data.List.Forall2

namespace PackageDoc

/-!
# Which source a merged definition comes from

The view of a module is laid out by its interface: at every path through classes, the definition in
the view is the one that the interface makes there, and only its documentation may come from
elsewhere.

* `ModuleInput.docstringsOf` — where the documentation of a definition is looked for, in order;
* `Binding.HasShape` — what a binding of each kind looks like in a view;
* `ModuleInput.Presents` — a definition of the view presents a binding of the interface;
* `ModuleInput.Drops` — the running module lacks a name, so that its definitions are left out;
* `findPath?_mergeEntries` — class bodies are presented at every depth;
* `ModuleInput.merge_presents` — the view presents what is not dropped, in order.
-/

/-- What a binding of each kind looks like in a view: a function is the group of its declarations, a
    class has its bases and decorators, and a variable its annotation, its value and its two marks.
    Imports look like nothing. -/
inductive Binding.HasShape : Binding → MemberShape → Prop where
  | function (f : FunctionBinding) :
    HasShape (.function f) (.function (FunctionGroup.ofDecls f.decls))
  | classDef (decl : ClassDecl) (scope : Scope) :
    HasShape (.classDef decl scope) (.classDef decl.bases decl.decorators)
  | variable (v : VariableDecl) :
    HasShape (.variable v) (.variable v.hint v.value v.instanceVar v.typeChecking)

namespace ModuleInput

/-- Where the documentation of a definition is looked for, in order: an interface of its own comes
    before the running module, which comes before everything else. -/
def docstringsOf (input : ModuleInput) (path : List String) (b : Binding) :
    List (Option String) :=
  let running := (input.outcome.snapshot?.bind fun s => s.lookup path).bind SnapshotMember.docstring
  let source := input.source.filter fun t => !t.hasSyntaxErrors
  let implemented := (source.bind fun t => t.scope.lookup path).bind Binding.docstring?
  if input.stub.isSome then [b.docstring?, running, implemented] else [running, b.docstring?]

/-- The definition `m` presents the binding `b` at a path: all but the documentation is that of `b`,
    and the documentation is the first that is found. -/
structure Presents (input : ModuleInput) (path : List String) (b : Binding) (m : MergedMember) :
    Prop where
  name : path.getLast? = some m.name
  line : m.line = some b.line
  shape : b.HasShape m.shape
  docstring : m.docstring = (input.docstringsOf path b).findSome? id

/-- An item of the view stands for an entry of the interface. -/
def StandsFor (input : ModuleInput) (entry : String × Binding) (item : MergedItem) : Prop :=
  match entry.2 with
  | .external decl => item = .external entry.1 decl
  | b => ∃ m, item = .member m ∧ input.Presents [entry.1] b m

/-- Without an interface of its own, a module loses the definitions of a name that the running
    module must have and lacks. -/
def Drops (input : ModuleInput) (table : ModuleTable) (name : String) : Prop :=
  input.stub.isNone ∧ isDunder name = false ∧
    (∃ entry ∈ table.scope.toList, entry.1 = name ∧ entry.2.livesAtRuntime = true) ∧
    ∃ snapshot ∈ input.outcome.snapshot?, (SnapshotMember.find? snapshot.members name).isNone

instance (input : ModuleInput) (table : ModuleTable) (name : String) :
    Decidable (input.Drops table name) :=
  inferInstanceAs (Decidable (_ ∧ _ ∧ _ ∧ _))

end ModuleInput

/-! ### Documentation -/

/-- The documentation that is chosen is the first that is found. -/
theorem choose_docSources (input : ModuleInput) (path : List String) (b : Binding) :
    input.docSources.choose path b.docstring? = (input.docstringsOf path b).findSome? id := by
  unfold DocSources.choose DocSources.docstring? ModuleInput.docSources ModuleInput.docstringsOf
    ModuleInput.implementation?
  generalize (input.outcome.snapshot?.bind fun s => s.lookup path).bind SnapshotMember.docstring =
    running
  cases input.stub with
  | none => cases running <;> simp
  | some stub =>
    cases input.source with
    | none => cases b.docstring? <;> cases running <;> simp
    | some source =>
      cases hsource : source.hasSyntaxErrors <;> cases b.docstring? <;> cases running <;>
        simp [Option.filter, hsource]

/-! ### Definitions at every depth -/

variable {input : ModuleInput} {before : List String} {name : String} {b : Binding}

/-- A binding that is no import makes a definition that presents it. -/
theorem exists_mergeBinding (input : ModuleInput) (before : List String) (name : String)
    (hdef : b.isDefinition = true) :
    ∃ m, mergeBinding input.docSources name (before ++ [name]) b = some m ∧ m.name = name ∧
      input.Presents (before ++ [name]) b m ∧
      m.members = mergeEntries input.docSources (before ++ [name]) b.scope.entries := by
  have hname : (before ++ [name]).getLast? = some name := by simp
  have hdoc := choose_docSources input (before ++ [name]) b
  match b, hdef with
  | .function f, _ =>
    refine ⟨_, by rw [mergeBinding]; rfl, rfl, ⟨hname, rfl, .function f, hdoc⟩, ?_⟩
    simp [Binding.scope, Roster.empty, mergeEntries]
  | .classDef decl ⟨_, _, _, _, _⟩, _ =>
    exact ⟨_, by rw [mergeBinding], rfl, ⟨hname, rfl, .classDef decl _, hdoc⟩, rfl⟩
  | .variable v, _ =>
    refine ⟨_, by rw [mergeBinding]; rfl, rfl, ⟨hname, rfl, .variable v, hdoc⟩, ?_⟩
    simp [Binding.scope, Roster.empty, mergeEntries]

/-- A member has the name that it is merged under. -/
theorem name_of_mergeBinding {docs : DocSources} {path : List String} {m : MergedMember}
    (h : mergeBinding docs name path b = some m) : m.name = name := by
  cases b <;> simp [mergeBinding, Binding.shape?] at h <;> rw [← h]

/-- The first definition of a name in a class body is what the name is bound to there. -/
theorem find?_mergeEntries {docs : DocSources} {names : List String} {es : Entries Binding names}
    {m : MergedMember} (hget : Assoc.get? es.toList name = some b)
    (hm : mergeBinding docs name (before ++ [name]) b = some m) :
    MergedMember.find? (mergeEntries docs before es) name = some m := by
  induction es with
  | nil => exact absurd hget (by simp [Assoc.get?])
  | cons name' b' rest ih =>
    rw [mergeEntries, MergedMember.find?, List.find?_append]
    by_cases hname : name' = name
    · subst hname
      obtain rfl : b' = b := by simpa [Assoc.get?] using hget
      simp [hm, name_of_mergeBinding hm]
    · have hrest : Assoc.get? rest.toList name = some b := by
        simpa [Assoc.get?, List.find?_cons, hname] using hget
      -- whatever the entry makes has another name
      have hother : (mergeBinding docs name' (before ++ [name']) b').toList.find?
          (fun d => d.name == name) = none := by
        rw [List.find?_eq_none]
        intro d hd
        have := name_of_mergeBinding (Option.mem_toList.mp hd)
        simp [this, hname]
      rw [hother, Option.none_or]
      exact ih hrest

/-- Only a definition has a body in which something is bound. -/
theorem isDefinition_of_lookup {outer : Binding} {names : List String}
    (h : Scope.lookup outer.scope names = some b) : outer.isDefinition = true := by
  cases outer with
  | external decl =>
    rw [Binding.scope, Scope.lookup_empty] at h
    · exact absurd h (by simp)
    · simp
  | _ => rfl

/-- What a class body binds at a path is presented there. -/
theorem findPath?_mergeEntries {scope : Scope} {names : List String}
    (hlookup : scope.lookup names = some b) (hdef : b.isDefinition = true) :
    ∃ m, MergedMember.findPath? (mergeEntries input.docSources before scope.entries) names = some m ∧
      input.Presents (before ++ names) b m := by
  -- along the path: each name but the last leads into the body of a class
  induction names generalizing before scope with
  | nil => exact absurd hlookup (by simp [Scope.lookup])
  | cons name names ih =>
    cases names with
    | nil =>
      rw [Scope.lookup, Roster.get?_eq] at hlookup
      obtain ⟨m, hm, -, hpresents, -⟩ := exists_mergeBinding input before name hdef
      exact ⟨m, by rw [MergedMember.findPath?, find?_mergeEntries hlookup hm], hpresents⟩
    | cons name' names =>
      rw [Scope.lookup] at hlookup
      · obtain ⟨outer, hget, hinner⟩ := Option.bind_eq_some_iff.mp hlookup
        rw [Roster.get?_eq] at hget
        obtain ⟨c, hc, -, -, hmembers⟩ :=
          exists_mergeBinding input before name (isDefinition_of_lookup hinner)
        obtain ⟨m, hm, hpresents⟩ := @ih (before ++ [name]) _ hinner
        refine ⟨m, ?_, by simpa using hpresents⟩
        rw [MergedMember.findPath?, find?_mergeEntries hget hc, Option.bind_some, hmembers, hm]
        simp
      · simp

/-! ### The module -/

/-- A definition is merged as a member, without a path above it. -/
theorem mergeItem?_of_isDefinition (docs : DocSources) (hdef : b.isDefinition = true) :
    mergeItem? docs (name, b) = (mergeBinding docs name [name] b).map .member := by
  match b, hdef with
  | .function f, _ => rfl
  | .classDef decl scope, _ => rfl
  | .variable v, _ => rfl

/-- An import is merged as it is. -/
theorem mergeItem?_external (docs : DocSources) (decl : ExternalDecl) :
    mergeItem? docs (name, .external decl) = some (.external name decl) := rfl

/-- The members among merged items are the bindings, merged. -/
theorem filterMap_mergeItem? (docs : DocSources) {names : List String}
    (es : Entries Binding names) :
    es.toList.filterMap (fun e => (mergeItem? docs e).bind MergedItem.member?) =
      mergeEntries docs [] es := by
  induction es with
  | nil => simp [mergeEntries]
  | cons name b rest ih =>
    rw [mergeEntries, ← ih, List.nil_append, Entries.toList_cons, List.filterMap_cons]
    by_cases hdef : b.isDefinition = true
    · rw [mergeItem?_of_isDefinition docs hdef]
      cases mergeBinding docs name [name] b with
      | none => simp
      | some m => simp [MergedItem.member?]
    · cases b with
      | external decl => rw [mergeItem?_external]; simp [MergedItem.member?, mergeBinding]
      | _ => exact absurd rfl hdef

/-- The definitions of a module are those of its source, as if it were the body of a class. -/
theorem members_mergeTable (docs : DocSources) (table : ModuleTable) :
    (mergeTable docs table).members = mergeEntries docs [] table.scope.entries := by
  rw [MergedModule.members, mergeTable, List.filterMap_filterMap]
  exact filterMap_mergeItem? docs table.scope.entries

/-- Every entry of a source has its item, in order. -/
theorem forall₂_standsFor (input : ModuleInput) (entries : List (String × Binding)) :
    List.Forall₂ input.StandsFor entries (entries.filterMap (mergeItem? input.docSources)) := by
  induction entries with
  | nil => exact .nil
  | cons entry entries ih =>
    obtain ⟨name, b⟩ := entry
    by_cases hdef : b.isDefinition = true
    · obtain ⟨m, hm, -, hpresents, -⟩ := exists_mergeBinding input [] name hdef
      rw [List.nil_append] at hm hpresents
      have hitem : mergeItem? input.docSources (name, b) = some (.member m) := by
        rw [mergeItem?_of_isDefinition _ hdef, hm, Option.map_some]
      rw [List.filterMap_cons_some hitem]
      refine .cons ?_ ih
      cases b with
      | external decl => exact absurd hdef (by simp [Binding.isDefinition])
      | _ => exact ⟨m, rfl, hpresents⟩
    · cases b with
      | external decl => exact .cons rfl ih
      | _ => exact absurd rfl hdef

/-! ### What is dropped -/

/-- Absent at runtime is what should live there and is not in the snapshot. -/
theorem mem_absentAtRuntime_iff {scope : Scope} {snapshot : Snapshot} :
    name ∈ (absentAtRuntime scope snapshot).map Prod.fst ↔
      isDunder name = false ∧
        (∃ entry ∈ scope.toList, entry.1 = name ∧ entry.2.livesAtRuntime = true) ∧
        (SnapshotMember.find? snapshot.members name).isNone := by
  unfold absentAtRuntime
  rw [List.mem_map]
  constructor
  · rintro ⟨⟨name', b⟩, hmem, rfl⟩
    obtain ⟨hentry, hlacks⟩ := List.mem_filter.mp hmem
    obtain ⟨⟨hdunder, hlives⟩, hnone⟩ : (isDunder name' = false ∧ b.livesAtRuntime = true) ∧
        (SnapshotMember.find? snapshot.members name').isNone := by
      simpa using hlacks
    exact ⟨hdunder, ⟨_, hentry, rfl, hlives⟩, hnone⟩
  · rintro ⟨hdunder, ⟨⟨name', b⟩, hentry, rfl, hlives⟩, hnone⟩
    exact ⟨_, List.mem_filter.mpr ⟨hentry, by simp_all⟩, rfl⟩

/-- The items of a module are those of its source, without the definitions that are dropped. -/
theorem items_mergeInterface (input : ModuleInput) (table : ModuleTable) :
    (input.mergeInterface table).2.items =
      (mergeTable input.docSources table).items.filter fun item =>
        !(item.member?.any fun d => decide (input.Drops table d.name)) := by
  unfold ModuleInput.mergeInterface
  split
  · rename_i snapshot hstub hsnapshot
    have hdrops : ∀ name, input.Drops table name ↔
        name ∈ (absentAtRuntime table.scope snapshot).map Prod.fst := by
      intro name
      rw [mem_absentAtRuntime_iff, ModuleInput.Drops, hstub, hsnapshot]
      simp
    simp only [MergedModule.dropMembers, hdrops, List.contains_eq_mem]
  · rename_i hother
    have hdrops : ∀ name, ¬ input.Drops table name := by
      rintro name ⟨hstub, -, -, snapshot, hsnapshot, -⟩
      exact hother snapshot (Option.isNone_iff_eq_none.mp hstub) hsnapshot
    symm
    rw [List.filter_eq_self]
    intro item _
    simp [hdrops]

/-- Members that are left out under other names are not missed. -/
theorem findPath?_filter {ms : List MergedMember} {p : MergedMember → Bool} {names : List String}
    (hp : ∀ d, d.name = name → p d = true) :
    MergedMember.findPath? (ms.filter p) (name :: names) =
      MergedMember.findPath? ms (name :: names) := by
  have hfind : MergedMember.find? (ms.filter p) name = MergedMember.find? ms name := by
    rw [MergedMember.find?, List.find?_filter, MergedMember.find?]
    congr 1
    funext d
    by_cases hname : d.name = name
    · simp [hname, hp d hname]
    · simp [hname]
  cases names with
  | nil => rw [MergedMember.findPath?, MergedMember.findPath?, hfind]
  | cons name' names => rw [MergedMember.findPath?, MergedMember.findPath?, hfind] <;> simp

/-- A path is not affected by what is dropped, unless its first name is. -/
theorem lookup_mergeInterface (input : ModuleInput) (table : ModuleTable) (names : List String)
    (h : ¬ input.Drops table name) :
    (input.mergeInterface table).2.lookup (name :: names) =
      MergedMember.findPath? (mergeEntries input.docSources [] table.scope.entries)
        (name :: names) := by
  have hmembers : (input.mergeInterface table).2.members =
      (mergeTable input.docSources table).members.filter fun d =>
        !decide (input.Drops table d.name) := by
    rw [MergedModule.members, items_mergeInterface, MergedModule.members, List.filterMap_filter,
      List.filter_filterMap]
    congr 1
    funext item
    cases item with
    | member m =>
      by_cases hm : input.Drops table m.name <;> simp [MergedItem.member?, Option.filter, hm]
    | external name decl => simp [MergedItem.member?]
  rw [MergedModule.lookup, hmembers, members_mergeTable]
  refine findPath?_filter fun d hd => ?_
  rw [hd]
  simpa using h

/-- The items of a module stand for the entries of its source that are not dropped. -/
theorem forall₂_mergeInterface (input : ModuleInput) (table : ModuleTable) :
    List.Forall₂ input.StandsFor
      (table.scope.toList.filter fun entry =>
        !(entry.2.isDefinition && decide (input.Drops table entry.1)))
      (input.mergeInterface table).2.items := by
  rw [items_mergeInterface]
  refine List.rel_filter ?_ (forall₂_standsFor input table.scope.toList)
  rintro ⟨name, b⟩ item hitem
  cases b with
  | external decl =>
    obtain rfl : item = .external name decl := hitem
    simp [Binding.isDefinition, MergedItem.member?]
  | _ =>
    obtain ⟨m, rfl, hpresents⟩ := hitem
    obtain rfl : name = m.name := by simpa using hpresents.name
    simp [Binding.isDefinition, MergedItem.member?]

/-- **Precedence.**  A module with a well-formed interface has a view.  Whatever the interface
    defines at a path through classes, and is not dropped with the first name of the path, has a
    definition there that presents it; and the items of the view stand, one by one and in order, for
    the entries of the interface that are not dropped. -/
theorem ModuleInput.merge_presents (input : ModuleInput) (table : ModuleTable)
    (hinterface : input.interface? = some table) (hclean : table.hasSyntaxErrors = false) :
    ∃ merged, input.merge.2 = .ok merged ∧
      (∀ name names b, table.scope.lookup (name :: names) = some b → b.isDefinition = true →
        ¬ input.Drops table name →
        ∃ m, merged.lookup (name :: names) = some m ∧ input.Presents (name :: names) b m) ∧
      List.Forall₂ input.StandsFor
        (table.scope.toList.filter fun entry =>
          !(entry.2.isDefinition && decide (input.Drops table entry.1))) merged.items := by
  refine ⟨{ (input.mergeInterface table).2 with autodoc := input.autodoc }, ?_, ?_, ?_⟩
  · simp [ModuleInput.merge, hinterface, hclean]
  · intro name names b hlookup hdef hdrops
    obtain ⟨m, hm, hpresents⟩ := @findPath?_mergeEntries input [] b _ _ hlookup hdef
    exact ⟨m, (lookup_mergeInterface input table names hdrops).trans hm, hpresents⟩
  · exact forall₂_mergeInterface input table

/-! ### A module with three sources -/

/-- The interface of a module: a method without documentation, two classes deep. -/
def layeredStub : ModuleTable :=
  .parse "class C:\n    class D:\n        def f(self): ...\n" "pkg.m" false

/-- The module, which documents the method in its implementation only. -/
def layered : ModuleInput :=
  { name := "pkg.m"
    stub := some layeredStub
    source := some (.parse "class C:\n    class D:\n        def f(self):\n            'Read.'\n"
      "pkg.m" false)
    outcome := .loaded
      { name := "pkg.m"
        members := [{ name := "C", kind := .classObject, docstring := some "C." }] } }

/-- The method is presented with the documentation of the implementation. -/
theorem merge_presents_layered :
    layered.interface? = some layeredStub ∧ layeredStub.hasSyntaxErrors = false ∧
      ∃ merged m, layered.merge.2 = .ok merged ∧ merged.lookup ["C", "D", "f"] = some m ∧
        m.docstring = some "Read." := by
  have hclean : layeredStub.hasSyntaxErrors = false := by decide +kernel
  obtain ⟨merged, hmerged, hpresents, -⟩ :=
    ModuleInput.merge_presents layered layeredStub rfl hclean
  have hany : (layeredStub.scope.lookup ["C", "D", "f"]).any (fun b => b.isDefinition &&
      decide (layered.docstringsOf ["C", "D", "f"] b = [none, none, some "Read."])) = true := by
    decide +kernel
  obtain ⟨b, hb, hfacts⟩ := (Option.any_eq_true _ _).mp hany
  obtain ⟨hdef, hdocs⟩ : b.isDefinition = true ∧
      layered.docstringsOf ["C", "D", "f"] b = [none, none, some "Read."] := by
    simpa using hfacts
  have hdrops : ¬ layered.Drops layeredStub "C" := by simp [ModuleInput.Drops, layered]
  obtain ⟨m, hm, hpresents⟩ := hpresents "C" ["D", "f"] b hb hdef hdrops
  refine ⟨rfl, hclean, merged, m, hmerged, hm, ?_⟩
  rw [hpresents.docstring, hdocs]
  rfl

end PackageDoc
