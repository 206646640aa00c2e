import PackageDoc.Analysis.Run
import PackageDoc.Proofs.Imports.Origins

namespace PackageDoc

/-!
# Agreement along an import

A name and the name that it is imported from should come from the same place.  They do when their
walk ends, and also when it runs into a loop that they do not lie on: both walks then come back to
the same name first.  Names on a loop are judged each by itself, because the walk from such a name
comes back to the name where it began.

* `OnLoop.firstRevisits` — a walk that begins on a loop comes back to its beginning first;
* `agrees_originOf_iff_of_imports` — exactly when the origins at both ends of an import agree;
* `submoduleLoop` — a package in which they do not.
-/

/-- Two origins are the same place, or fail for the same reason. -/
def Origin.Agrees : Origin → Origin → Prop
  | .unresolved _ _ reason, .unresolved _ _ reason' => reason = reason'
  | o, o' => o = o'

/-- An origin agrees with itself. -/
theorem Origin.agrees_refl (o : Origin) : o.Agrees o := by
  cases o <;> simp [Origin.Agrees]

namespace Analysis

variable {a : Analysis} {p q r : Site}

/-! ### Loops -/

/-- A walk can be taken up at any name that it passes. -/
theorem Walk.from_mem {passed : List Site} (h : a.Walk p passed q) (hr : r ∈ passed) :
    ∃ rest, rest <:+ passed ∧ r ∈ rest ∧ a.Walk r rest q := by
  induction h with
  | nil p => exact absurd hr (by simp)
  | @cons p next q passed himp hwalk ih =>
    rcases List.mem_cons.mp hr with rfl | hr
    · exact ⟨r :: passed, List.suffix_rfl, by simp, .cons himp hwalk⟩
    · obtain ⟨rest, hsuffix, hmem, hwalk'⟩ := ih hr
      exact ⟨rest, hsuffix.trans (List.suffix_cons p passed), hmem, hwalk'⟩

/-- Where imports lead, a walk leads that passes no name twice. -/
theorem Reaches.exists_walk (h : a.Reaches p q) : ∃ passed, a.Walk p passed q ∧ passed.Nodup := by
  induction h using Relation.ReflTransGen.head_induction_on with
  | refl => exact ⟨[], .nil q, List.nodup_nil⟩
  | @head p next himp _ ih =>
    obtain ⟨passed, hwalk, hnodup⟩ := ih
    by_cases hmem : p ∈ passed
    · -- the walk comes through `p` later: what lies before that is left out
      obtain ⟨rest, hsuffix, _, hwalk'⟩ := hwalk.from_mem hmem
      exact ⟨rest, hwalk', hnodup.sublist hsuffix.sublist⟩
    · exact ⟨p :: passed, .cons himp hwalk, List.nodup_cons.mpr ⟨hmem, hnodup⟩⟩

/-- The walk from a name on a loop comes back to that name before any other. -/
theorem OnLoop.firstRevisits (h : a.OnLoop p) : a.FirstRevisits p p := by
  obtain ⟨next, himp, hback⟩ := Relation.TransGen.head'_iff.mp h
  obtain ⟨passed, hwalk, hnodup⟩ := Reaches.exists_walk hback
  by_cases hmem : p ∈ passed
  · obtain ⟨rest, hsuffix, hp, hwalk'⟩ := hwalk.from_mem hmem
    exact ⟨rest, hwalk', hnodup.sublist hsuffix.sublist, hp⟩
  · exact ⟨p :: passed, .cons himp hwalk, List.nodup_cons.mpr ⟨hmem, hnodup⟩, by simp⟩

/-- A step towards a loop does not change the name to which the walk comes back. -/
theorem FirstRevisits.head (himp : a.Imports p q) (hp : ¬ a.OnLoop p)
    (h : a.FirstRevisits q r) : a.FirstRevisits p r := by
  obtain ⟨passed, hwalk, hnodup, hmem⟩ := h
  refine ⟨p :: passed, .cons himp hwalk, List.nodup_cons.mpr ⟨?_, hnodup⟩, by simp [hmem]⟩
  intro hpassed
  -- a walk from `q` that passes `p` closes a loop through `p`
  exact hp (Relation.TransGen.head' himp (hwalk.reaches_of_mem hpassed))

/-! ### Both ends of an import -/

/-- On a loop of imports only a submodule can be the origin. -/
theorem originOf_of_onLoop (h : a.OnLoop p) :
    a.originOf p.1 p.2 = a.submoduleOr p.1 p.2 .cyclic :=
  originOf_of_firstRevisits h.firstRevisits

/-- A name that lies on no loop has the origin of the name that it is imported from. -/
theorem originOf_eq_of_imports (himp : a.Imports p q) (hp : ¬ a.OnLoop p) :
    a.originOf p.1 p.2 = a.originOf q.1 q.2 := by
  rcases a.ends_or_firstRevisits q with ⟨r, hr⟩ | ⟨r, hr⟩
  · have hend : a.Ends p r := ⟨.head himp hr.1, hr.2⟩
    rw [originOf_of_ends hr, originOf_of_ends hend]
  · rw [originOf_of_firstRevisits hr, originOf_of_firstRevisits (hr.head himp hp)]

/-- The origins that two names on loops have agree if both fail, or if they are one module. -/
theorem agrees_submoduleOr_iff (a : Analysis) (p q : Site) :
    (a.submoduleOr p.1 p.2 .cyclic).Agrees (a.submoduleOr q.1 q.2 .cyclic) ↔
      p.1 ++ "." ++ p.2 = q.1 ++ "." ++ q.2 ∨ (¬ a.HasSubmodule p ∧ ¬ a.HasSubmodule q) := by
  by_cases hp : a.HasSubmodule p <;> by_cases hq : a.HasSubmodule q
  · rw [submoduleOr_of_hasSubmodule _ hp, submoduleOr_of_hasSubmodule _ hq]
    simp [Origin.Agrees, hp]
  · rw [submoduleOr_of_hasSubmodule _ hp, submoduleOr_of_not_hasSubmodule _ hq]
    have hne : p.1 ++ "." ++ p.2 ≠ q.1 ++ "." ++ q.2 := fun h => hq (by rwa [HasSubmodule, ← h])
    simp [Origin.Agrees, hp, hne]
  · rw [submoduleOr_of_not_hasSubmodule _ hp, submoduleOr_of_hasSubmodule _ hq]
    have hne : p.1 ++ "." ++ p.2 ≠ q.1 ++ "." ++ q.2 := fun h => hp (by rwa [HasSubmodule, h])
    simp [Origin.Agrees, hq, hne]
  · rw [submoduleOr_of_not_hasSubmodule _ hp, submoduleOr_of_not_hasSubmodule _ hq]
    simp [Origin.Agrees, hp, hq]

/-- **Agreement along an import.**  In every analysis, a name and the name that it is imported from
    have one origin, or fail for one reason, if and only if the name lies on no loop of imports, or
    both have one full name, or neither full name is that of a module. -/
theorem agrees_originOf_iff_of_imports (a : Analysis) (module name source imported : String)
    (h : a.Imports (module, name) (source, imported)) :
    (a.originOf module name).Agrees (a.originOf source imported) ↔
      ¬ a.OnLoop (module, name) ∨ module ++ "." ++ name = source ++ "." ++ imported ∨
        (a.isRegistered (module ++ "." ++ name) = false ∧
          a.isRegistered (source ++ "." ++ imported) = false) := by
  by_cases hloop : a.OnLoop (module, name)
  · have hp := originOf_of_onLoop hloop
    have hq := originOf_of_onLoop (hloop.step h).1
    dsimp only at hp hq
    rw [hp, hq, agrees_submoduleOr_iff a (module, name) (source, imported)]
    simp [HasSubmodule, hloop]
  · have heq := originOf_eq_of_imports h hloop
    dsimp only at heq
    rw [heq]
    simp [hloop, Origin.agrees_refl]

/-! ### A package in which the ends of an import disagree

The package and one of its modules import `sub` from each other, and `pkg.sub` is a module.
-/

/-- The modules of the package. -/
def submoduleLoopInputs : List ModuleInput := [
  { name := "pkg", isPackage := true, source := some (.parse "from .a import sub\n" "pkg" true) },
  { name := "pkg.a", source := some (.parse "from . import sub\n" "pkg.a" false) },
  { name := "pkg.sub", source := some (.parse "x = 1\n" "pkg.sub" false) }]

/-- The package, when its modules are registered and merged. -/
def submoduleLoop : Analysis :=
  (Analysis.start "pkg" submoduleLoopInputs {}).prepare

/-- The package of the loop imports the name from its module. -/
theorem submoduleLoop_imports : submoduleLoop.Imports ("pkg", "sub") ("pkg.a", "sub") := by
  rw [← edge?_eq_some_iff]
  decide +kernel

/-- Seen from the package, `sub` is the module; seen from the module that passes it on, it leads
    nowhere. -/
theorem not_agrees_originOf_submoduleLoop :
    submoduleLoop.Imports ("pkg", "sub") ("pkg.a", "sub") ∧
      submoduleLoop.originOf "pkg" "sub" = .module "pkg.sub" ∧
      submoduleLoop.originOf "pkg.a" "sub" = .unresolved "pkg.a" "sub" .cyclic ∧
      ¬ (submoduleLoop.originOf "pkg" "sub").Agrees (submoduleLoop.originOf "pkg.a" "sub") := by
  have hmodule : submoduleLoop.originOf "pkg" "sub" = .module "pkg.sub" := by decide +kernel
  have hcyclic : submoduleLoop.originOf "pkg.a" "sub" = .unresolved "pkg.a" "sub" .cyclic := by
    decide +kernel
  refine ⟨submoduleLoop_imports, hmodule, hcyclic, ?_⟩
  rw [hmodule, hcyclic]
  simp [Origin.Agrees]

/-- The condition for agreement fails there: the names lie on a loop, and only one of them is the
    name of a module. -/
theorem agrees_originOf_iff_submoduleLoop :
    submoduleLoop.Imports ("pkg", "sub") ("pkg.a", "sub") ∧
      ((submoduleLoop.originOf "pkg" "sub").Agrees (submoduleLoop.originOf "pkg.a" "sub") ↔
        ¬ submoduleLoop.OnLoop ("pkg", "sub") ∨ "pkg" ++ "." ++ "sub" = "pkg.a" ++ "." ++ "sub" ∨
          (submoduleLoop.isRegistered ("pkg" ++ "." ++ "sub") = false ∧
            submoduleLoop.isRegistered ("pkg.a" ++ "." ++ "sub") = false)) :=
  ⟨submoduleLoop_imports,
    agrees_originOf_iff_of_imports submoduleLoop "pkg" "sub" "pkg.a" "sub" submoduleLoop_imports⟩

end Analysis
end PackageDoc
