import PackageDoc.Analysis.Merge
import Mathlib.Data.List.Basic
import Mathlib.Data.List.Induction

namespace PackageDoc

/-!
# The last run of overloads

The declarations of a name come in runs of overloads, each closed by an implementation or not, and
a group keeps the last of them.

* `IsRun` — one run;
* `FunctionGroup.LastRun` — a group is the longest run that some declarations end with;
* `FunctionGroup.LastRun.add` — one declaration more;
* `FunctionBinding.grouped_ofDecls` — the group of a binding, and the two notions of the declaration
  that implements a function.
-/

/-- All declarations but the last, which may be an implementation, are overloads. -/
def IsRun (decls : List FunctionDecl) : Prop :=
  ∀ d ∈ decls.dropLast, d.isOverload = true

/-- A run goes on behind a declaration exactly when all before are overloads. -/
theorem isRun_concat {decls : List FunctionDecl} {d : FunctionDecl} :
    IsRun (decls ++ [d]) ↔ ∀ d' ∈ decls, d'.isOverload = true := by
  rw [IsRun, List.dropLast_concat]

namespace FunctionGroup

/-- The group is the longest run that the declarations end with. -/
structure LastRun (decls : List FunctionDecl) (g : FunctionGroup) : Prop where
  /-- Nothing is left out at the end, and the order is that of the source. -/
  suffix : g.decls <:+ decls
  isRun : IsRun g.decls
  longest : ∀ run, run <:+ decls → IsRun run → run.length ≤ g.decls.length
  overloads : ∀ d ∈ g.overloads, d.isOverload = true
  implementation : ∀ d ∈ g.implementation, d.isOverload = false

variable {decls : List FunctionDecl} {g : FunctionGroup}

/-! ### One declaration more -/

/-- The declarations of a group that another one is added to. -/
theorem decls_add (g : FunctionGroup) (d : FunctionDecl) :
    (g.add d).decls = (if g.implementation.isSome then [] else g.overloads) ++ [d] := by
  simp only [add, decls]
  split <;> simp

/-- Adding a declaration keeps the overloads overloads. -/
theorem overloads_add (h : ∀ d ∈ g.overloads, d.isOverload = true) (d : FunctionDecl) :
    ∀ d' ∈ (g.add d).overloads, d'.isOverload = true := by
  have hrun : ∀ d' ∈ (if g.implementation.isSome then [] else g.overloads),
      d'.isOverload = true := by
    split
    · exact fun d' hd' => absurd hd' List.not_mem_nil
    · exact h
  unfold add
  dsimp only
  split
  · rename_i hd
    exact List.forall_mem_append.mpr ⟨hrun, List.forall_mem_singleton.mpr hd⟩
  · exact hrun

/-- It keeps the implementation none. -/
theorem implementation_add (g : FunctionGroup) (d : FunctionDecl) :
    ∀ d' ∈ (g.add d).implementation, d'.isOverload = false := by
  unfold add
  dsimp only
  split
  · exact fun d' hd' => absurd hd' (Option.not_mem_none d')
  · rename_i hd
    rintro d' ⟨⟩
    exact Bool.eq_false_iff.mpr hd

namespace LastRun

/-- A run that goes on behind an implementation would have it among its overloads. -/
theorem eq_nil_of_implementation (h : LastRun decls g) {d : FunctionDecl}
    (hd : d ∈ g.implementation) {run : List FunctionDecl} (hrun : run <:+ decls)
    (hoverloads : ∀ d' ∈ run, d'.isOverload = true) : run = [] := by
  by_contra hne
  have hlast : decls.getLast? = some d := by
    obtain ⟨before, hbefore⟩ := h.suffix
    rw [← hbefore, FunctionGroup.decls, hd, Option.toList_some, ← List.append_assoc,
      List.getLast?_concat]
  obtain ⟨before, rfl⟩ := hrun
  rw [List.getLast?_append_of_ne_nil _ hne] at hlast
  have hoverload : d.isOverload = true := hoverloads d (List.mem_of_getLast? hlast)
  exact Bool.false_ne_true ((h.implementation d hd).symm.trans hoverload)

/-- No run is longer than the one that a declaration is added to. -/
theorem longest_add (h : LastRun decls g) (d : FunctionDecl) {run : List FunctionDecl}
    (hsuffix : run <:+ decls ++ [d]) (hrun : IsRun run) : run.length ≤ (g.add d).decls.length := by
  rw [decls_add]
  obtain rfl | ⟨init, rfl, hinit⟩ := List.suffix_concat_iff.mp hsuffix
  · exact Nat.zero_le _
  · have hoverloads : ∀ d' ∈ init, d'.isOverload = true := isRun_concat.mp hrun
    rw [List.length_append, List.length_append]
    refine Nat.add_le_add_right ?_ _
    -- the run without `d` is one of overloads, which cannot reach across an implementation
    cases himplementation : g.implementation with
    | some implementation =>
      rw [h.eq_nil_of_implementation himplementation hinit hoverloads]
      exact Nat.zero_le _
    | none =>
      have hlength : init.length ≤ g.decls.length :=
        h.longest init hinit fun d' hd' => hoverloads d' (List.dropLast_subset _ hd')
      rwa [FunctionGroup.decls, himplementation, Option.toList_none, List.append_nil] at hlength

/-- **One declaration more.**  It goes on with the last run, or begins one behind an
    implementation. -/
theorem add (h : LastRun decls g) (d : FunctionDecl) : LastRun (decls ++ [d]) (g.add d) where
  suffix := by
    rw [decls_add]
    cases himplementation : g.implementation with
    | some implementation => exact List.suffix_append decls [d]
    | none =>
      obtain ⟨before, hbefore⟩ := h.suffix
      refine ⟨before, ?_⟩
      rw [← hbefore, FunctionGroup.decls, himplementation, Option.toList_none, List.append_nil,
        List.append_assoc]
      rfl
  isRun := by
    rw [decls_add, isRun_concat]
    split
    · exact fun d' hd' => absurd hd' List.not_mem_nil
    · exact h.overloads
  longest := fun run hsuffix hrun => h.longest_add d hsuffix hrun
  overloads := overloads_add h.overloads d
  implementation := implementation_add g d

theorem nil : LastRun [] {} where
  suffix := List.suffix_refl []
  isRun := fun _ hd => absurd hd List.not_mem_nil
  longest := fun _ hsuffix _ => hsuffix.length_le
  overloads := fun _ hd => absurd hd List.not_mem_nil
  implementation := fun d hd => absurd hd (Option.not_mem_none d)

end LastRun

/-- A group is the last run of the declarations that it was made of. -/
theorem lastRun_ofDecls (decls : List FunctionDecl) : LastRun decls (ofDecls decls) := by
  induction decls using List.reverseRecOn with
  | nil => exact .nil
  | append_singleton decls d ih =>
    rw [ofDecls, List.foldl_concat]
    exact ih.add d

/-! ### The declaration that speaks for the function -/

/-- The primary declaration is the last one. -/
theorem primary_eq_getLast? (g : FunctionGroup) : g.primary = g.decls.getLast? := by
  cases h : g.implementation with
  | none => simp [primary, decls, h]
  | some d => simp [primary, decls, h]

namespace LastRun

/-- Nothing but the absence of declarations leaves a group empty. -/
theorem eq_nil (h : LastRun decls g) (hg : g.decls = []) : decls = [] := by
  cases decls using List.reverseRecOn with
  | nil => rfl
  | append_singleton decls d =>
    have hlength : [d].length ≤ g.decls.length :=
      h.longest [d] (List.suffix_append decls [d]) (fun _ hd => absurd hd List.not_mem_nil)
    rw [hg] at hlength
    exact absurd hlength (by simp)

/-- A group ends as its declarations do. -/
theorem primary_eq (h : LastRun decls g) : g.primary = decls.getLast? := by
  rw [primary_eq_getLast?]
  by_cases hg : g.decls = []
  · rw [hg, h.eq_nil hg]
  · obtain ⟨before, hbefore⟩ := h.suffix
    rw [← hbefore, List.getLast?_append_of_ne_nil _ hg]

/-- The implementation is the last declaration, if it is no overload. -/
theorem implementation_eq (h : LastRun decls g) :
    g.implementation = decls.getLast?.filter fun d => !d.isOverload := by
  rw [← h.primary_eq, primary]
  cases himplementation : g.implementation with
  | some d =>
    have hd : d.isOverload = false := h.implementation d himplementation
    exact (Option.filter_some_pos (by rw [hd]; rfl)).symm
  | none =>
    refine (Option.filter_eq_none_iff.mpr fun d hd => ?_).symm
    have hlast : d ∈ g.overloads.getLast? := by simpa using hd
    simp [h.overloads d (List.mem_of_getLast? hlast)]

end LastRun
end FunctionGroup

/-! ### The group of a binding -/

namespace FunctionBinding

/-- What a group says about the binding of a function: which declarations it keeps, and which of
    them implements the function. -/
structure Grouped (f : FunctionBinding) (g : FunctionGroup) : Prop where
  lastRun : FunctionGroup.LastRun f.decls g
  filled : g.decls = [] → f.decls = []
  implementation : g.implementation = f.implementation
  primary : g.primary = f.decls.getLast?

/-- **Only the last run counts.**  The group of a binding holds the longest run that the
    declarations end with, its overloads in the order of the source and marked, its implementation
    not.  It is empty only without declarations.  The binding has the same implementation, and the
    last declaration speaks for both. -/
theorem grouped_ofDecls (f : FunctionBinding) : f.Grouped (FunctionGroup.ofDecls f.decls) where
  lastRun := FunctionGroup.lastRun_ofDecls f.decls
  filled := (FunctionGroup.lastRun_ofDecls f.decls).eq_nil
  implementation := (FunctionGroup.lastRun_ofDecls f.decls).implementation_eq
  primary := (FunctionGroup.lastRun_ofDecls f.decls).primary_eq

end FunctionBinding

end PackageDoc
