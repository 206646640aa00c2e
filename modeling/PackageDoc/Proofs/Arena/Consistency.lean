import PackageDoc.Analysis.Run
import PackageDoc.Proofs.Arena.Registration
import PackageDoc.Proofs.Steps.Frames

namespace PackageDoc

/-!
# The modules of an analysis, their index and the tables

Registration puts modules one behind the other and enters the name of each, with its number, into the
index.  The later steps report, merge and give types, in any order and as often as one likes; none of
them adds a module, takes one away or renumbers one, and none of them touches the index.

* `Analysis.Reached.inRange` — the tables hold no number that is not that of a module;
* `Analysis.run` — an analysis after some steps;
* `ModuleState.Outline`, `Analysis.outlines_run` — what all steps but merging leave of a module;
* `Analysis.Consistent` — that modules, index and tables fit together;
* `Analysis.consistent_run` — they do when modules are registered, and whatever steps follow.
-/

namespace Analysis

/-! ### Numbers in tables -/

variable {a b : Analysis} {s : ModuleState} {root : String}
  {inputs : List ModuleInput} {config : Config}

/-- The links and the rules for imports are recorded under numbers of modules. -/
structure InRange (a : Analysis) : Prop where
  links : ∀ e ∈ a.links, e.1.1 ∈ a.modules.map ModuleState.id
  referenceRules : ∀ e ∈ a.referenceRules, e.1.1 ∈ a.modules.map ModuleState.id

/-- They are after a step that changes modules one by one, leaves them their numbers and records
    nothing under another number. -/
theorem InRange.map (h : a.InRange) {f : ModuleState → ModuleState}
    (hb : b.modules = a.modules.map f) (hf : ∀ s, (f s).id = s.id)
    (hlinks : ∀ e ∈ b.links, e ∈ a.links ∨ e.1.1 ∈ a.modules.map ModuleState.id)
    (hrules : ∀ e ∈ b.referenceRules,
      e ∈ a.referenceRules ∨ e.1.1 ∈ a.modules.map ModuleState.id) : b.InRange := by
  have hids : b.modules.map ModuleState.id = a.modules.map ModuleState.id := by
    rw [hb, List.map_map]
    exact List.map_congr_left fun s _ => hf s
  refine ⟨fun e he => ?_, fun e he => ?_⟩
  · rw [hids]
    exact (hlinks e he).elim (h.links e) fun h => h
  · rw [hids]
    exact (hrules e he).elim (h.referenceRules e) fun h => h

/-- Registering an input keeps the arena within range. -/
theorem inRange_registerInput (input : ModuleInput) (h : a.InRange) :
    (a.registerInput input).InRange := by
  rcases registerInput_cases a input with ⟨hsame, -⟩ | ⟨-, -, id, -, hadd⟩
  · rwa [hsame]
  · rw [hadd]
    refine ⟨fun e he => ?_, fun e he => ?_⟩
    · rw [addModule_modules, List.map_append]
      exact List.mem_append_left _ (h.links e he)
    · rw [addModule_modules, List.map_append]
      exact List.mem_append_left _ (h.referenceRules e he)

/-- Following imports links names of modules. -/
theorem mem_links_resolveImports {e : (ModuleId × String) × Origin}
    (h : e ∈ a.resolveImports.links) : e ∈ a.links ∨ e.1.1 ∈ a.modules.map ModuleState.id := by
  rw [links_resolveImports] at h
  refine (Assoc.mem_of_mem_foldl_bind h).imp_right fun h => ?_
  obtain ⟨s, hs, hmem⟩ := List.mem_flatMap.mp h
  obtain ⟨_, -, rfl⟩ := List.mem_map.mp hmem
  exact List.mem_map_of_mem hs

/-- Applying rules records those for imports under the modules that state them. -/
theorem mem_referenceRules_applyVisibility {e : (ModuleId × String) × RuleEffect}
    (h : e ∈ a.applyVisibility.referenceRules) :
    e ∈ a.referenceRules ∨ e.1.1 ∈ a.modules.map ModuleState.id := by
  let Recorded (b : Analysis) : Prop := ∀ e ∈ b.referenceRules,
    e ∈ a.referenceRules ∨ e.1.1 ∈ a.modules.map ModuleState.id
  have hall : Recorded (a.modules.foldl (fun b s => (a.rulesOf s).foldl (applyRule s.id) b) a) := by
    refine List.foldlRecOn _ _ (fun e he => .inl he) fun b hb s hs => ?_
    refine List.foldlRecOn _ _ hb fun b hb rule _ => ?_
    obtain ⟨_, effect, _ | ⟨module, qualname⟩ | name⟩ := rule
    · exact hb
    · exact hb
    · intro e he
      rcases Assoc.mem_of_mem_bind he with he | rfl
      · exact hb e he
      · exact .inr (List.mem_map_of_mem hs)
  exact hall e h

/-- **No table has a number that is not that of a module**, whatever steps were taken. -/
theorem Reached.inRange (h : Reached root inputs config a) : a.InRange := by
  induction h with
  | start => exact ⟨by simp [Analysis.start], by simp [Analysis.start]⟩
  | add _ _ ih => exact ⟨ih.links, ih.referenceRules⟩
  | @register b _ ih =>
    exact List.foldlRecOn b.pending registerInput (motive := InRange)
      ⟨ih.links, ih.referenceRules⟩ fun c hc input _ => inRange_registerInput input hc
  | mergeModules _ ih => exact ih.map rfl ModuleState.merge_id (fun _ => .inl) fun _ => .inl
  | resolveImports _ ih =>
    exact ih.map rfl (fun _ => rfl) (fun _ => mem_links_resolveImports) fun _ => .inl
  | @evaluateTypes b _ ih =>
    rw [evaluateTypes_eq]
    exact ih.map rfl b.evaluated_id (fun _ => .inl) fun _ => .inl
  | @applyVisibility b _ ih =>
    have hlinks : b.applyVisibility.links = b.links :=
      (congrArg Analysis.links b.rulesOnly_applyVisibility.rest :)
    exact ih.map rfl (fun _ => rfl) (fun e he => .inl (hlinks ▸ he))
      fun _ => mem_referenceRules_applyVisibility

/-! ### Steps one after the other -/

/-- What a step makes of an analysis; the documentation is assembled without changing anything. -/
def perform (a : Analysis) : Phase → Analysis
  | .registration => a.register
  | .merge => a.mergeModules
  | .imports => a.resolveImports
  | .types => a.evaluateTypes
  | .visibility => a.applyVisibility
  | .assemble => a

/-- An analysis after some steps. -/
def run (a : Analysis) (phases : List Phase) : Analysis :=
  phases.foldl perform a

/-- A state is reached when one more phase is done. -/
theorem Reached.perform (h : Reached root inputs config a) (phase : Phase) :
    Reached root inputs config (a.perform phase) := by
  cases phase with
  | registration => exact h.register
  | merge => exact h.mergeModules
  | imports => exact h.resolveImports
  | types => exact h.evaluateTypes
  | visibility => exact h.applyVisibility
  | assemble => exact h

/-- So is one when several are. -/
theorem Reached.run (h : Reached root inputs config a) (phases : List Phase) :
    Reached root inputs config (a.run phases) :=
  List.foldlRecOn phases Analysis.perform h fun _ hb phase _ => hb.perform phase

end Analysis

/-! ### Outlines -/

/-- What is left of a module when reports and types are left away. -/
structure ModuleState.Outline where
  id : ModuleId
  input : ModuleInput
  /-- Has the module a view? -/
  hasView : Bool
  isResolved : Bool

namespace ModuleState

/-- The outline of a module. -/
def outline (s : ModuleState) : Outline :=
  ⟨s.id, s.input, s.merged.isSome, s.status.isResolved⟩

/-- What merging makes of an outline: the module has a view now, or else it is unresolved. -/
def Outline.merge (o : Outline) : Outline :=
  { o with
    hasView := o.hasView || o.input.merge.2.isOk
    isResolved := o.isResolved && o.input.merge.2.isOk }

/-- The outline of a module that is merged is its outline, merged. -/
theorem outline_merge (s : ModuleState) : s.merge.outline = s.outline.merge := by
  unfold ModuleState.merge outline Outline.merge
  dsimp only
  split
  · rename_i h
    simp [h, report, Except.isOk, Except.toBool]
  · rename_i h
    simp [h, report, Except.isOk, Except.toBool, ModuleStatus.isResolved]

/-- Merging again changes nothing. -/
theorem Outline.merge_merge (o : Outline) : o.merge.merge = o.merge := by
  simp [merge]

/-- Merging an outline on a condition. -/
def Outline.mergeIf (p : Prop) [Decidable p] (o : Outline) : Outline :=
  if p then o.merge else o

/-- It keeps the input. -/
theorem Outline.mergeIf_input (p : Prop) [Decidable p] (o : Outline) :
    (o.mergeIf p).input = o.input := by
  unfold mergeIf
  split <;> rfl

/-- Merging on one condition and then on another is merging on either. -/
theorem Outline.mergeIf_mergeIf (p q : Prop) [Decidable p] [Decidable q] (o : Outline) :
    (o.mergeIf p).mergeIf q = o.mergeIf (p ∨ q) := by
  by_cases hp : p <;> by_cases hq : q <;> simp [mergeIf, hp, hq, merge_merge]

/-- Modules that differ by evaluated types alone have one outline. -/
theorem SameButTypes.outline {s t : ModuleState} (h : s.SameButTypes t) : t.outline = s.outline := by
  have hview : t.merged.isSome = s.merged.isSome := by
    rw [← Option.isSome_map (f := MergedModule.untyped), h.merged, Option.isSome_map]
  rw [ModuleState.outline, ModuleState.outline, hview, h.rest]

end ModuleState

namespace Analysis

variable {a : Analysis} {s : ModuleState} {root : String} {inputs : List ModuleInput}
  {config : Config}

/-- Nothing is pending behind registration. -/
theorem pending_register (a : Analysis) : a.register.pending = [] :=
  (congrArg Analysis.pending a.register_rest :)

/-- No phase adds a module to those that wait to be read. -/
theorem pending_perform (h : a.pending = []) (phase : Phase) : (a.perform phase).pending = [] := by
  cases phase with
  | registration => exact a.pending_register
  | merge => exact h
  | imports => exact h
  | types =>
    show a.evaluateTypes.pending = []
    rwa [evaluateTypes_eq]
  | visibility =>
    show a.applyVisibility.pending = []
    rwa [a.rulesOnly_applyVisibility.rest]
  | assemble => exact h

/-- **Only merging changes the outlines of modules** when nothing is pending. -/
theorem outlines_perform (h : a.pending = []) (phase : Phase) :
    (a.perform phase).modules.map ModuleState.outline =
      a.modules.map fun s => s.outline.mergeIf (phase = .merge) := by
  cases phase with
  -- what is pending is all that registration adds
  | registration =>
    have hmodules : a.register.modules = a.modules := by
      rw [register, h]
      rfl
    show a.register.modules.map ModuleState.outline = _
    rw [hmodules]
    rfl
  | merge =>
    show (a.modules.map ModuleState.merge).map ModuleState.outline = _
    rw [List.map_map]
    exact List.map_congr_left fun s _ => s.outline_merge
  | imports => exact List.map_map
  | types =>
    show a.evaluateTypes.modules.map ModuleState.outline = _
    rw [evaluateTypes_eq, List.map_map]
    exact List.map_congr_left fun s _ => (sameButTypes_foldl (a.evaluationsOf s) s).outline
  | visibility => exact List.map_map
  | assemble => rfl

/-- **So it is in a run**: merging several times does what merging once does. -/
theorem outlines_run (h : a.pending = []) (phases : List Phase) :
    (a.run phases).modules.map ModuleState.outline =
      a.modules.map fun s => s.outline.mergeIf (.merge ∈ phases) := by
  induction phases generalizing a with
  | nil =>
    refine List.map_congr_left fun s _ => ?_
    rw [ModuleState.Outline.mergeIf, if_neg (by simp)]
  | cons phase phases ih =>
    have hstep := outlines_perform h phase
    have hrest := ih (pending_perform h phase)
    calc (a.run (phase :: phases)).modules.map ModuleState.outline
        = ((a.perform phase).modules.map ModuleState.outline).map
            (ModuleState.Outline.mergeIf (.merge ∈ phases)) := by
          rw [List.map_map]
          exact hrest
      _ = a.modules.map fun s => s.outline.mergeIf (.merge ∈ phase :: phases) := by
          rw [hstep, List.map_map]
          refine List.map_congr_left fun s _ => ?_
          simp only [Function.comp_apply, ModuleState.Outline.mergeIf_mergeIf, List.mem_cons,
            eq_comm (a := phase)]

/-- A run leaves the inputs of modules as they are. -/
theorem inputs_run (h : a.pending = []) (phases : List Phase) :
    (a.run phases).modules.map ModuleState.input = a.modules.map ModuleState.input := by
  have houtlines := congrArg (List.map ModuleState.Outline.input) (outlines_run h phases)
  rw [List.map_map, List.map_map] at houtlines
  refine houtlines.trans (List.map_congr_left fun s _ => ?_)
  exact s.outline.mergeIf_input _

/-! ### Consistency -/

/-- The modules of an analysis fit the inputs that they were registered from, and the index of their
    names and the tables fit the modules.  `merged` tells whether they have been merged. -/
structure Consistent (config : Config) (inputs : List ModuleInput) (merged : Prop) (a : Analysis) :
    Prop where
  /-- The number of a module is its place. -/
  numbered : ∀ (i : Nat) (s : ModuleState), a.modules[i]? = some s → s.id.index = i
  /-- The index has a number under a name just if the module of that number has that name, -/
  indexed : ∀ (name : String) (id : ModuleId),
    a.moduleId? name = some id ↔ ∃ s, a.stateAt? id = some s ∧ s.name = name
  /-- and where it leads is the module that has the name. -/
  found : ∀ (name : String) (s : ModuleState),
    a.state? name = some s ↔ s ∈ a.modules ∧ s.name = name
  distinct : (a.modules.map ModuleState.name).Nodup
  kept : ∀ s ∈ a.modules, config.isSkipped s.name = false
  /-- The modules are the first inputs of each name, in order, as long as there are numbers. -/
  registered : a.modules.map ModuleState.input =
    (config.firstInputs inputs).take (UInt32.size - 1)
  /-- A module has a view just if it is resolved. -/
  viewed : merged → ∀ s ∈ a.modules, s.merged.isSome = true ↔ s.status = .resolved
  /-- The tables have numbers of modules only. -/
  links : ∀ e ∈ a.links, (a.stateAt? e.1.1).isSome = true
  referenceRules : ∀ e ∈ a.referenceRules, (a.stateAt? e.1.1).isSome = true

/-- A module that was just registered has no view yet. -/
theorem outline_of_mem_register (hs : s ∈ (start root inputs config).register.modules) :
    s.outline = ⟨s.id, s.input, false, true⟩ := by
  rw [eq_of_mem_register hs]
  rfl

/-- **In a run that merges, a module has a view just if it is resolved.** -/
theorem isSome_merged_iff {phases : List Phase} (hmerge : .merge ∈ phases)
    (hs : s ∈ ((start root inputs config).register.run phases).modules) :
    s.merged.isSome = true ↔ s.status = .resolved := by
  have hmem : s.outline ∈ ((start root inputs config).register.run phases).modules.map
      ModuleState.outline := List.mem_map_of_mem hs
  rw [outlines_run (pending_register _)] at hmem
  obtain ⟨t, ht, houtline⟩ := List.mem_map.mp hmem
  rw [outline_of_mem_register ht, ModuleState.Outline.mergeIf, if_pos hmerge] at houtline
  -- both say whether merging its input made a view
  have hview : t.input.merge.2.isOk = s.merged.isSome :=
    (congrArg ModuleState.Outline.hasView houtline :)
  have hstatus : t.input.merge.2.isOk = s.status.isResolved :=
    (congrArg ModuleState.Outline.isResolved houtline :)
  rw [← hview, hstatus]
  cases s.status <;> simp [ModuleStatus.isResolved]

/-- **Modules, index and tables fit together** when the modules of a package are registered, and after
    whatever steps follow. -/
theorem consistent_run (root : String) (inputs : List ModuleInput) (config : Config)
    (phases : List Phase) :
    ((start root inputs config).register.run phases).Consistent config inputs (.merge ∈ phases) := by
  have hreached : Reached root inputs config ((start root inputs config).register.run phases) :=
    (Reached.register .start).run phases
  have hindexed := hreached.wellIndexed
  have htables := hreached.inRange
  have hpending := (start root inputs config).pending_register
  have hinputs := (inputs_run hpending phases).trans (inputs_register root inputs config)
  refine ⟨fun i s => hindexed.numbered.index_eq, fun name id => hindexed.moduleId?_eq_some_iff,
    fun name s => hindexed.state?_eq_some_iff, hindexed.names, fun s hs => ?_, hinputs,
    fun hmerge s => isSome_merged_iff hmerge, fun e he => ?_, fun e he => ?_⟩
  · have hinput : s.input ∈ config.firstInputs inputs :=
      List.mem_of_mem_take (hinputs ▸ List.mem_map_of_mem hs)
    exact Config.isSkipped_of_mem_firstInputs hinput
  · exact hindexed.numbered.isSome_stateAt? (htables.links e he)
  · exact hindexed.numbered.isSome_stateAt? (htables.referenceRules e he)

/-- A package that imports and shows a class of another module, with a module that is skipped, one
    that cannot be read, and its own name given once more. -/
def crowdedInputs : List ModuleInput := [
  { name := "pkg", isPackage := true
    source := some (.parse "from .a import C\n\n__autodoc__ = \x7b'C': True\x7d\n" "pkg" true) },
  { name := "pkg.tests", source := some (.parse "x = 1\n" "pkg.tests" false) },
  { name := "pkg.broken", source := some (.parse "def (:\n" "pkg.broken" false) },
  { name := "pkg" },
  { name := "pkg.a", source := some (.parse "class C: ...\n" "pkg.a" false) }]

/-- The package after its steps: three modules, of which one has no view, and a link and a rule for
    the import. -/
theorem consistent_run_crowded : ∃ a : Analysis,
    a = (start "pkg" crowdedInputs { skip := ⟨["pkg.tests"]⟩ }).register.run
      [.merge, .imports, .types, .visibility, .assemble] ∧
    a.Consistent { skip := ⟨["pkg.tests"]⟩ } crowdedInputs True ∧
    a.modules.map (fun s => (s.id.raw, s.name, s.merged.isSome)) =
      [(1, "pkg", true), (2, "pkg.broken", false), (3, "pkg.a", true)] ∧
    a.moduleIndex.map (fun e => (e.1, e.2.raw)) = [("pkg", 1), ("pkg.broken", 2), ("pkg.a", 3)] ∧
    a.links.map (fun e => (e.1.1.raw, e.1.2)) = [(1, "C")] ∧
    a.referenceRules.map (fun e => (e.1.1.raw, e.1.2)) = [(1, "C")] := by
  refine ⟨_, rfl, ?_, ?_⟩
  · simpa using consistent_run "pkg" crowdedInputs { skip := ⟨["pkg.tests"]⟩ }
      [.merge, .imports, .types, .visibility, .assemble]
  · decide +kernel

end Analysis
end PackageDoc
