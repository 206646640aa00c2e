import PackageDoc.Analysis.Run
import PackageDoc.Proofs.Imports.Walk

namespace PackageDoc.Analysis

/-!
# Where imported names come from

The origin of a name is read off the place at which the walk along imports ends, or off the first
name to which it comes back.

* `ComesFrom a p o` — the walk from `p` makes `o` the origin of `p`;
* `comesFrom_originOf` and `originOf_eq_of_comesFrom` — what `originOf` finds is an origin of the
  name, and the only one;
* `originOf_eq_iff_comesFrom` — `originOf` computes this relation, however long it may search.
-/

variable {a : Analysis} {p q : Site}

/-! ### Places at which a walk ends -/

/-- A name that its module defines. -/
def Defines (a : Analysis) (p : Site) : Prop :=
  ∃ merged, a.merged? p.1 = some merged ∧ (merged.member? p.2).isSome

/-- A name that its module, of which there is a view, neither defines nor imports. -/
def Lacks (a : Analysis) (p : Site) : Prop :=
  ∃ merged, a.merged? p.1 = some merged ∧ merged.member? p.2 = none ∧ merged.external? p.2 = none

/-- A module that is not part of the analysis: it lies outside the package or is left out. -/
def IsOutside (a : Analysis) (module : String) : Prop :=
  a.isRegistered module = false ∧ (a.isInternal module = false ∨ a.config.isSkipped module = true)

/-- A module that the package should have and that is not there. -/
def IsMissing (a : Analysis) (module : String) : Prop :=
  a.isRegistered module = false ∧ a.isInternal module = true ∧ a.config.isSkipped module = false

/-- A registered module of which there is no view. -/
def IsUnanalysed (a : Analysis) (module : String) : Prop :=
  a.isRegistered module = true ∧ a.merged? module = none

/-- Is the module of that name below the module of a site registered? -/
def HasSubmodule (a : Analysis) (p : Site) : Prop :=
  a.isRegistered (p.1 ++ "." ++ p.2) = true

/-- A module without a view imports nothing. -/
theorem not_imports_of_merged?_eq_none (h : a.merged? p.1 = none) (next : Site) :
    ¬ a.Imports p next := by
  rintro ⟨merged, decl, hmerged, -⟩
  rw [h] at hmerged
  exact absurd hmerged (by simp)

/-- A module that is not registered is not found. -/
theorem merged?_eq_none_of_not_registered {module : String}
    (h : a.isRegistered module = false) : a.merged? module = none := by
  rw [merged?, state?, moduleId?_eq_none_iff.mpr h]
  rfl

/-- A walk that has reached a name which its module defines has come to its end. -/
theorem Reaches.ends_of_defines (h : a.Reaches p q) (hq : a.Defines q) : a.Ends p q := by
  refine ⟨h, ?_⟩
  rintro next ⟨merged, decl, hmerged, hmember, -⟩
  obtain ⟨merged', hmerged', hdef⟩ := hq
  obtain rfl := Option.some.inj (hmerged.symm.trans hmerged')
  rw [hmember] at hdef
  exact absurd hdef (by simp)

/-- A walk that has reached a name which its module does not bind has come to its end. -/
theorem Reaches.ends_of_lacks (h : a.Reaches p q) (hq : a.Lacks q) : a.Ends p q := by
  refine ⟨h, ?_⟩
  rintro next ⟨merged, decl, hmerged, -, hdecl, -⟩
  obtain ⟨merged', hmerged', -, hexternal⟩ := hq
  obtain rfl := Option.some.inj (hmerged.symm.trans hmerged')
  rw [hexternal] at hdecl
  exact absurd hdecl (by simp)

/-- A walk that has reached a module without a view has come to its end. -/
theorem Reaches.ends_of_merged?_eq_none (h : a.Reaches p q) (hq : a.merged? q.1 = none) :
    a.Ends p q :=
  ⟨h, not_imports_of_merged?_eq_none hq⟩

/-! ### What the end of a walk says -/

/-- Where a chain ends at a module that is not registered. -/
theorem chainEnd_of_not_registered (h : a.isRegistered p.1 = false) : a.chainEnd p.1 p.2 =
    if a.isInternal p.1 && !a.config.isSkipped p.1 then .unresolved p.1 p.2 .notFound
    else .library p.1 p.2 := by
  rw [chainEnd, moduleId?_eq_none_iff.mpr h]

/-- Where a chain ends at a module that is registered. -/
theorem chainEnd_of_registered (h : a.isRegistered p.1 = true) : a.chainEnd p.1 p.2 =
    match a.merged? p.1 with
    | none => .unresolved p.1 p.2 .unresolvedModule
    | some merged =>
      if (merged.member? p.2).isSome then .definition p.1 p.2
      else a.submoduleOr p.1 p.2 .notFound := by
  obtain ⟨id, hid⟩ := Option.isSome_iff_exists.mp ((a.isSome_moduleId? p.1).trans h)
  have hmerged : a.merged? p.1 = (a.stateAt? id).bind ModuleState.merged := by
    rw [merged?, state?, hid, Option.bind_some]
  cases hview : a.merged? p.1 <;> simp only [chainEnd, hid, ← hmerged, hview]

/-- A chain ends at a definition as that definition. -/
theorem chainEnd_of_defines (h : a.Defines p) : a.chainEnd p.1 p.2 = .definition p.1 p.2 := by
  obtain ⟨merged, hmerged, hdef⟩ := h
  simp only [chainEnd_of_registered (isRegistered_of_merged? hmerged), hmerged, hdef, if_true]

/-- At a name that is missing it ends as a submodule, if there is one. -/
theorem chainEnd_of_lacks (h : a.Lacks p) :
    a.chainEnd p.1 p.2 = a.submoduleOr p.1 p.2 .notFound := by
  obtain ⟨merged, hmerged, hmember, -⟩ := h
  simp [chainEnd_of_registered (isRegistered_of_merged? hmerged), hmerged, hmember]

/-- Outside the root it ends as a library. -/
theorem chainEnd_of_isOutside (h : a.IsOutside p.1) :
    a.chainEnd p.1 p.2 = .library p.1 p.2 := by
  rw [chainEnd_of_not_registered h.1]
  rcases h.2 with h | h <;> simp [h]

/-- At a module that does not exist it ends unresolved. -/
theorem chainEnd_of_isMissing (h : a.IsMissing p.1) :
    a.chainEnd p.1 p.2 = .unresolved p.1 p.2 .notFound := by
  simp [chainEnd_of_not_registered h.1, h.2.1, h.2.2]

/-- So it does at a module without an analysis. -/
theorem chainEnd_of_isUnanalysed (h : a.IsUnanalysed p.1) :
    a.chainEnd p.1 p.2 = .unresolved p.1 p.2 .unresolvedModule := by
  rw [chainEnd_of_registered h.1, h.2]

/-- Where there is a submodule, the origin is that module. -/
theorem submoduleOr_of_hasSubmodule (failure : ChainFailure) (h : a.HasSubmodule p) :
    a.submoduleOr p.1 p.2 failure = .module (p.1 ++ "." ++ p.2) := by
  have h' : a.isRegistered (p.1 ++ "." ++ p.2) = true := h
  simp [submoduleOr, h']

/-- Where there is none, it is unresolved. -/
theorem submoduleOr_of_not_hasSubmodule (failure : ChainFailure) (h : ¬ a.HasSubmodule p) :
    a.submoduleOr p.1 p.2 failure = .unresolved p.1 p.2 failure := by
  have h' : ¬ a.isRegistered (p.1 ++ "." ++ p.2) = true := h
  simp [submoduleOr, h']

/-- Every name at which a walk ends is of one of these five kinds. -/
theorem end_cases (h : ∀ next, ¬ a.Imports p next) :
    a.Defines p ∨ a.Lacks p ∨ a.IsOutside p.1 ∨ a.IsMissing p.1 ∨ a.IsUnanalysed p.1 := by
  cases hreg : a.isRegistered p.1 with
  | false =>
    cases hin : a.isInternal p.1 with
    | false => exact .inr (.inr (.inl ⟨hreg, .inl hin⟩))
    | true =>
      cases hskip : a.config.isSkipped p.1 with
      | false => exact .inr (.inr (.inr (.inl ⟨hreg, hin, hskip⟩)))
      | true => exact .inr (.inr (.inl ⟨hreg, .inr hskip⟩))
  | true =>
    cases hmerged : a.merged? p.1 with
    | none => exact .inr (.inr (.inr (.inr ⟨hreg, hmerged⟩)))
    | some merged =>
      cases hmember : merged.member? p.2 with
      | some m => exact .inl ⟨merged, hmerged, by simp [hmember]⟩
      | none =>
        cases hexternal : merged.external? p.2 with
        | none => exact .inr (.inl ⟨merged, hmerged, hmember, hexternal⟩)
        | some decl =>
          exact absurd ⟨merged, decl, hmerged, hmember, hexternal, rfl⟩ (h (decl.module, decl.name))

/-! ### The origin of a name -/

/-- The origin that the walk along imports gives a name: its end says whether there is a
    definition, a module below, a module outside the package or nothing; a walk without end is
    judged by the first name to which it comes back. -/
def ComesFrom (a : Analysis) (p : Site) : Origin → Prop
  | .definition d x => a.Reaches p (d, x) ∧ a.Defines (d, x)
  | .library d x => a.Reaches p (d, x) ∧ a.IsOutside d
  | .module s => ∃ d x, s = d ++ "." ++ x ∧ a.HasSubmodule (d, x) ∧
      ((a.Reaches p (d, x) ∧ a.Lacks (d, x)) ∨ a.FirstRevisits p (d, x))
  | .unresolved d x .notFound => a.Reaches p (d, x) ∧
      (a.IsMissing d ∨ (a.Lacks (d, x) ∧ ¬ a.HasSubmodule (d, x)))
  | .unresolved d x .unresolvedModule => a.Reaches p (d, x) ∧ a.IsUnanalysed d
  | .unresolved d x .cyclic => a.FirstRevisits p (d, x) ∧ ¬ a.HasSubmodule (d, x)

/-- A name comes from where its chain ends. -/
theorem comesFrom_chainEnd (h : a.Ends p q) : a.ComesFrom p (a.chainEnd q.1 q.2) := by
  rcases end_cases h.2 with hq | hq | hq | hq | hq
  · rw [chainEnd_of_defines hq]
    exact ⟨h.1, hq⟩
  · rw [chainEnd_of_lacks hq]
    by_cases hsub : a.HasSubmodule q
    · rw [submoduleOr_of_hasSubmodule _ hsub]
      exact ⟨q.1, q.2, rfl, hsub, .inl ⟨h.1, hq⟩⟩
    · rw [submoduleOr_of_not_hasSubmodule _ hsub]
      exact ⟨h.1, .inr ⟨hq, hsub⟩⟩
  · rw [chainEnd_of_isOutside hq]
    exact ⟨h.1, hq⟩
  · rw [chainEnd_of_isMissing hq]
    exact ⟨h.1, .inl hq⟩
  · rw [chainEnd_of_isUnanalysed hq]
    exact ⟨h.1, hq⟩

/-- On a loop it comes from what is found where the loop closes. -/
theorem comesFrom_submoduleOr (h : a.FirstRevisits p q) :
    a.ComesFrom p (a.submoduleOr q.1 q.2 .cyclic) := by
  by_cases hsub : a.HasSubmodule q
  · rw [submoduleOr_of_hasSubmodule _ hsub]
    exact ⟨q.1, q.2, rfl, hsub, .inr h⟩
  · rw [submoduleOr_of_not_hasSubmodule _ hsub]
    exact ⟨h, hsub⟩

/-- What `originOf` finds is an origin of the name. -/
theorem comesFrom_originOf (a : Analysis) (p : Site) : a.ComesFrom p (a.originOf p.1 p.2) := by
  rcases a.ends_or_firstRevisits p with ⟨q, hq⟩ | ⟨q, hq⟩
  · rw [originOf_of_ends hq]
    exact comesFrom_chainEnd hq
  · rw [originOf_of_firstRevisits hq]
    exact comesFrom_submoduleOr hq

/-- Every origin of the name is what `originOf` finds. -/
theorem originOf_eq_of_comesFrom {o : Origin} (h : a.ComesFrom p o) :
    a.originOf p.1 p.2 = o := by
  cases o with
  | definition d x =>
    rw [originOf_of_ends (h.1.ends_of_defines h.2)]
    exact chainEnd_of_defines h.2
  | library d x =>
    rw [originOf_of_ends (h.1.ends_of_merged?_eq_none (merged?_eq_none_of_not_registered h.2.1))]
    exact chainEnd_of_isOutside (p := (d, x)) h.2
  | module s =>
    obtain ⟨d, x, rfl, hsub, ⟨hreach, hlacks⟩ | hrev⟩ := h
    · rw [originOf_of_ends (hreach.ends_of_lacks hlacks), chainEnd_of_lacks hlacks]
      exact submoduleOr_of_hasSubmodule _ hsub
    · rw [originOf_of_firstRevisits hrev]
      exact submoduleOr_of_hasSubmodule _ hsub
  | unresolved d x reason =>
    cases reason with
    | cyclic =>
      rw [originOf_of_firstRevisits h.1]
      exact submoduleOr_of_not_hasSubmodule _ h.2
    | notFound =>
      rcases h.2 with hmissing | ⟨hlacks, hsub⟩
      · rw [originOf_of_ends
          (h.1.ends_of_merged?_eq_none (merged?_eq_none_of_not_registered hmissing.1))]
        exact chainEnd_of_isMissing (p := (d, x)) hmissing
      · rw [originOf_of_ends (h.1.ends_of_lacks hlacks), chainEnd_of_lacks hlacks]
        exact submoduleOr_of_not_hasSubmodule _ hsub
    | unresolvedModule =>
      rw [originOf_of_ends (h.1.ends_of_merged?_eq_none h.2.2)]
      exact chainEnd_of_isUnanalysed (p := (d, x)) h.2

/-- **Chains end where the walk does.**  In every analysis, the origin of every name is the one
    that the walk along imports gives it and no other, and following the name over any further
    number of steps would find the same. -/
theorem originOf_eq_iff_comesFrom (a : Analysis) (module name : String) :
    (∀ o, a.originOf module name = o ↔ a.ComesFrom (module, name) o) ∧
      ∀ extra, a.follow (a.importCount + 1 + extra) [] module name = a.originOf module name := by
  refine ⟨fun o => ⟨?_, ?_⟩, fun extra => a.follow_eq_originOf extra (module, name)⟩
  · rintro rfl
    exact a.comesFrom_originOf (module, name)
  · exact fun h => originOf_eq_of_comesFrom h

end PackageDoc.Analysis
