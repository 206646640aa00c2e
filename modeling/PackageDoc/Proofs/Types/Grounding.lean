import PackageDoc.Proofs.Imports.Alike
import PackageDoc.Proofs.Merge.Nodes
import PackageDoc.Proofs.Types.Results
import PackageDoc.Proofs.Types.Termination

namespace PackageDoc

/-!
# Targets of links exist

Whatever a name in an annotation refers to is there: a definition in a module of the package, a
registered module, a builtin name; or it lies outside the registered modules.

* `Target.Grounded` — what a target says of the analysis is so;
* `Origin.Grounded` — the same of an origin; all origins are grounded, by the walk that finds them;
* `Analysis.yielded_pathTarget` — paths lead to grounded targets;
* `Analysis.grounded_of_evaluate` — all targets in the type of an annotation are grounded.
-/

/-- What a target says of the analysis is so.  Some beginning of the dotted path of a definition
    leads to a definition: the names behind it may be attributes that no source declares. -/
def Target.Grounded (a : Analysis) (t : Target) : Prop :=
  match t.scope with
  | .package => ∃ m, a.merged? t.module = some m ∧ ∃ path rest, path ≠ [] ∧
      t.qualname = dotted (path ++ rest) ∧ (m.lookup path).isSome
  | .module => a.isRegistered t.module = true ∧ t.qualname = ""
  | .library => a.isRegistered t.module = false
  | .builtin => t.module = "builtins" ∧ isBuiltin t.qualname = true

/-- What an origin says of the analysis is so. -/
def Origin.Grounded (a : Analysis) : Origin → Prop
  | .definition owner name => a.Defines (owner, name)
  | .module owner => a.isRegistered owner = true
  | .library owner _ => a.isRegistered owner = false
  | .unresolved _ _ _ => True

namespace Analysis

variable {a : Analysis}

/-- The walk along imports grounds every origin. -/
theorem grounded_originOf (a : Analysis) (module name : String) :
    (a.originOf module name).Grounded a := by
  have h := a.comesFrom_originOf (module, name)
  revert h
  cases a.originOf module name with
  | definition d x => exact fun h => h.2
  | library d x => exact fun h => h.2.1
  | unresolved d x reason => exact fun _ => trivial
  | module s =>
    rintro ⟨d, x, rfl, hsub, -⟩
    exact hsub

/-- The definition that a path leads to, given that its first name is one. -/
theorem grounded_definition {module name : String} (h : a.Defines (module, name))
    (rest : List String) : Target.Grounded a ⟨module, dotted (name :: rest), .package⟩ := by
  obtain ⟨merged, hmerged, hmember⟩ := h
  exact ⟨merged, hmerged, [name], rest, by simp, rfl, hmember⟩

/-- A grounded origin leads to grounded targets. -/
theorem yielded_target_of_grounded {o : Origin} (h : o.Grounded a) (head : String)
    (rest : List String) : Yielded (Target.Grounded a) (o.target head rest) := by
  refine Origin.yielded_target ?_ ?_ ?_
  · rintro owner name rfl
    exact grounded_definition h rest
  · rintro owner name rfl
    exact h
  · rintro owner rfl
    exact ⟨h, rfl⟩

/-- A path outside the registered modules leads outside of them. -/
theorem yielded_libraryTarget_of_namesNone {path : List String} (h : a.NamesNone [] path) :
    Yielded (Target.Grounded a) (libraryTarget path) := by
  refine yielded_libraryTarget ?_ ?_
  · rintro last rfl
    have hlast := h [last] (by simp) (by simp)
    simpa [Target.Grounded, dotted, Text.join] using hlast
  · rintro init last hne rfl
    exact h init hne (by simp)

/-- Paths lead to grounded targets. -/
theorem yielded_pathTarget {path : List String} {outcome : Except RawReason Target}
    (h : a.pathTarget path = some outcome) : Yielded (Target.Grounded a) outcome := by
  refine a.pathTarget_induction ?_ ?_ ?_ path outcome h
  · intro path hnone
    exact yielded_libraryTarget_of_namesNone ((longestModule?_eq_none_iff _ _ _).mp hnone)
  · exact fun module hreg => ⟨hreg, rfl⟩
  · exact fun module head rest _ => yielded_target_of_grounded (a.grounded_originOf _ _) head rest

/-- The origins that are recorded for imports are grounded. -/
theorem grounded_of_mem_links {root : String} {inputs : List ModuleInput} {config : Config}
    {key : ModuleId × String} {origin : Origin}
    (h : (key, origin) ∈ (linked root inputs config).links) :
    origin.Grounded (linked root inputs config) := by
  have hlinks : (Analysis.start root inputs config).prepare.links = [] :=
    (congrArg Analysis.links (Analysis.start root inputs config).register_rest :)
  obtain ⟨module, name, rfl⟩ := exists_originOf_of_mem_links hlinks h
  rw [← (bindsAlike_resolveImports _).knowsAlike.originOf]
  exact grounded_originOf _ module name

/-- A name that is found in the body of a class stands below the class. -/
theorem grounded_of_isScope {module : String} {m : MergedModule}
    (hmerged : a.merged? module = some m) (hfresh : m.Fresh) {c : ClassScope}
    (hscope : m.IsScope (some c)) {head : String} (rest : List String)
    (hhead : (MergedMember.find? c.members head).isSome) :
    Target.Grounded a ⟨module, c.qualname ++ "." ++ dotted (head :: rest), .package⟩ := by
  obtain hnone | ⟨n, hn, hc⟩ := hscope
  · exact absurd hnone (by simp)
  obtain rfl := Option.some.inj hc
  obtain ⟨hne, hlookup⟩ := MergedModule.lookup_of_mem_nodes hfresh hn
  refine ⟨m, hmerged, n.path ++ [head], rest, by simp, ?_, ?_⟩
  · rw [List.append_assoc, List.singleton_append, dotted_append hne (by simp)]
  · rw [MergedModule.lookup, MergedMember.findPath?_concat hne hlookup]
    exact hhead

/-- The definitions that types are evaluated in are those of a module of the arena. -/
theorem merged?_of_typeEnv? (hindexed : a.WellIndexed) {module : String} {env : TypeEnv}
    (h : a.typeEnv? module = some env) :
    env.module = module ∧ a.merged? module = some env.merged ∧
      ∃ s ∈ a.modules, s.merged = some env.merged := by
  obtain ⟨s, hs, h⟩ := Option.bind_eq_some_iff.mp h
  obtain ⟨merged, hmerged, rfl⟩ := Option.map_eq_some_iff.mp h
  obtain ⟨hmem, hname⟩ := hindexed.state?_eq_some_iff.mp hs
  refine ⟨hname, ?_, s, hmem, hmerged⟩
  simp only [merged?, hs, Option.bind_some, hmerged]

/-- **Links lead somewhere.**  When the modules of a package are registered and merged and its
    imports are followed, then for every module that has a view, every class in it and every text,
    each target in the type that the text is evaluated to is grounded: in the text of a link as
    well. -/
theorem grounded_of_evaluate (root : String) (inputs : List ModuleInput) (config : Config)
    (hread : ∀ input ∈ inputs, input.IsRead) (hnames : ∀ input ∈ inputs, input.HasDistinctNames)
    (module : String) (env : TypeEnv) (henv : (linked root inputs config).typeEnv? module = some env)
    (scope : Option ClassScope) (hscope : env.merged.IsScope scope) (raw : String) (type : TypeRef)
    (h : env.evaluate scope raw = some type) :
    ∀ target ∈ type.targets, target.Grounded (linked root inputs config) := by
  obtain ⟨rfl, hmerged, s, hs, hview⟩ := merged?_of_typeEnv? (wellIndexed_linked root inputs config) henv
  have hfresh := fresh_of_mem_linked hread hnames hs hview
  have hanalysis := analysis_of_typeEnv? henv
  have htarget : ∀ name, Eval.Yields (Target.Grounded (linked root inputs config))
      (env.target scope name) := by
    intro name
    refine TypeEnv.yields_target ?_ ?_ ?_ ?_ ?_
    · rintro c hc head rest hsegments hhead
      obtain rfl := Option.mem_def.mp hc
      have hname : name = dotted (head :: rest) := by rw [← hsegments, dotted_segments]
      rw [hname]
      exact grounded_of_isScope hmerged hfresh hscope rest hhead
    · intro head rest hsegments hhead
      have hname : name = dotted (head :: rest) := by rw [← hsegments, dotted_segments]
      rw [hname]
      exact grounded_definition ⟨_, hmerged, hhead⟩ rest
    · intro head origin rest hlink _
      rw [hanalysis] at hlink
      exact yielded_target_of_grounded (grounded_of_mem_links (Assoc.mem_of_get?_eq_some hlink)) head rest
    · intro path outcome hpath
      rw [hanalysis] at hpath
      exact yielded_pathTarget hpath
    · exact fun head hbuiltin => ⟨rfl, hbuiltin⟩
  obtain hbuilt | ⟨reason, -, rfl⟩ := TypeEnv.evaluate_cases ⟨rfl, by decide⟩ htarget h
  · exact hbuilt.of_mem_targets
  · simp [TypeRef.targets]

/-- A package with a class in which an annotation names the class itself. -/
def selfReferenceInputs : List ModuleInput := [
  { name := "pkg", isPackage := true, source := some (.parse "" "pkg" true) },
  { name := "pkg.m", source := some (.parse
      "from typing import List\n\nclass C:\n    class D: ...\n    def f(self) -> List[C]: ...\n"
      "pkg.m" false) }]

/-- In the class `C`, the annotation `List[D]` links the list type of a library and the class `D`
    inside `C`. -/
theorem grounded_selfReference :
    (∀ input ∈ selfReferenceInputs, input.IsRead) ∧
    (∀ input ∈ selfReferenceInputs, input.HasDistinctNames) ∧
    ∃ env n type, (linked "pkg" selfReferenceInputs {}).typeEnv? "pkg.m" = some env ∧
      n ∈ env.merged.nodes ∧
      env.evaluate (some ⟨dotted n.path, n.member.members⟩) "List[D]" = some type ∧
      type.targets = [⟨"typing", "List", .library⟩, ⟨"pkg.m", "C.D", .package⟩] ∧
      ∀ target ∈ type.targets, target.Grounded (linked "pkg" selfReferenceInputs {}) := by
  have hread : ∀ input ∈ selfReferenceInputs, input.IsRead :=
    List.forall_mem_cons.mpr ⟨ModuleInput.isRead_of_source rfl rfl,
      List.forall_mem_cons.mpr ⟨ModuleInput.isRead_of_source rfl rfl, by simp⟩⟩
  have hnames : ∀ input ∈ selfReferenceInputs, input.HasDistinctNames := by
    simp [selfReferenceInputs, ModuleInput.HasDistinctNames, ImportOutcome.snapshot?]
  refine ⟨hread, hnames, ?_⟩
  have hany : ((linked "pkg" selfReferenceInputs {}).typeEnv? "pkg.m").any (fun env =>
      env.merged.nodes.head?.any fun n =>
        decide ((env.evaluate (some ⟨dotted n.path, n.member.members⟩) "List[D]").map
          TypeRef.targets = some [⟨"typing", "List", .library⟩, ⟨"pkg.m", "C.D", .package⟩]))
        = true := by
    decide +kernel
  obtain ⟨env, henv, hany⟩ := (Option.any_eq_true _ _).mp hany
  obtain ⟨n, hn, htargets⟩ := (Option.any_eq_true _ _).mp hany
  obtain ⟨type, htype, htargets⟩ := Option.map_eq_some_iff.mp (of_decide_eq_true htargets)
  have hmem := List.mem_of_head? hn
  exact ⟨env, n, type, henv, hmem, htype, htargets,
    grounded_of_evaluate "pkg" selfReferenceInputs {} hread hnames "pkg.m" env henv _
      (.inr ⟨n, hmem, rfl⟩) "List[D]" type htype⟩

end Analysis
end PackageDoc
