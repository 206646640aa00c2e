import PackageDoc.Analysis.Run
import PackageDoc.Proofs.Steps.Frames
import Mathlib.Data.List.Perm.Basic

namespace PackageDoc

/-!
# Analyses of the same modules in another order

The number of a module depends on the order in which modules are registered, and so do the keys of
some tables.  What is known of a module, and found under its name, does not.

* `Analysis.SameModule` — a module of two analyses is the same but for its number;
* `Analysis.Shuffled` — two analyses have the same modules, each in its own order;
* `Analysis.Shuffled.knowsAlike` — names come from the same places in both;
* `Analysis.Shuffled.map` — steps that treat the same modules alike leave analyses of the same
  modules.
-/

/-! ### Lists in another order -/

/-- Related elements of two lists are elements of them. -/
theorem forall₂_mem {α β : Type} {r : α → β → Prop} {xs : List α} {ys : List β}
    (h : List.Forall₂ r xs ys) : List.Forall₂ (fun x y => x ∈ xs ∧ y ∈ ys ∧ r x y) xs ys := by
  rw [List.forall₂_iff_zip] at h ⊢
  exact ⟨h.1, fun hmem => ⟨(List.of_mem_zip hmem).1, (List.of_mem_zip hmem).2, h.2 hmem⟩⟩

namespace Analysis

/-! ### The relation -/

/-- A module of two analyses is the same but for its number, and so is what the tables have of the
    names that it imports. -/
structure SameModule (a b : Analysis) (s t : ModuleState) : Prop where
  state : { s with id := t.id } = t
  links : ∀ name, Assoc.get? a.links (s.id, name) = Assoc.get? b.links (t.id, name)
  referenceRules : ∀ name,
    Assoc.get? a.referenceRules (s.id, name) = Assoc.get? b.referenceRules (t.id, name)

/-- Two analyses have the same modules, each in its own order. -/
structure Shuffled (a b : Analysis) : Prop where
  root : a.root = b.root
  config : a.config = b.config
  left : a.WellIndexed
  right : b.WellIndexed
  modules : ∃ ts, ts.Perm b.modules ∧ List.Forall₂ (SameModule a b) a.modules ts
  rules : ∀ key, Assoc.get? a.rules key = Assoc.get? b.rules key

variable {a b a' b' : Analysis} {s t : ModuleState}

namespace SameModule

/-- The same module has the same name. -/
theorem name (h : SameModule a b s t) : s.name = t.name := by
  rw [← h.state]
  rfl

/-- It has the same definitions and imports. -/
theorem merged (h : SameModule a b s t) : s.merged = t.merged := by
  rw [← h.state]

end SameModule

namespace Shuffled

/-- The modules of a name are the same. -/
theorem state? (h : a.Shuffled b) (module : String) :
    Option.Rel (SameModule a b) (a.state? module) (b.state? module) := by
  obtain ⟨ts, hperm, hsame⟩ := h.modules
  cases ha : a.state? module with
  | some s =>
    obtain ⟨hs, hname⟩ := h.left.state?_eq_some_iff.mp ha
    obtain ⟨t, ht, hst⟩ := exists_of_forall₂ hsame hs
    rw [h.right.state?_eq_some_iff.mpr ⟨hperm.mem_iff.mp ht, hst.name.symm.trans hname⟩]
    exact .some hst
  | none =>
    cases hb : b.state? module with
    | none => exact .none
    | some t =>
      -- the same module is found in the other analysis too
      obtain ⟨ht, hname⟩ := h.right.state?_eq_some_iff.mp hb
      obtain ⟨s, hs, hst⟩ := exists_of_forall₂ hsame.flip (hperm.mem_iff.mpr ht)
      rw [h.left.state?_eq_some_iff.mpr ⟨hs, hst.name.trans hname⟩] at ha
      exact absurd ha (Option.some_ne_none s)

/-- Analyses with the same modules have the same names registered. -/
theorem isRegistered (h : a.Shuffled b) (module : String) :
    a.isRegistered module = b.isRegistered module := by
  rw [← h.left.isSome_state?, ← h.right.isSome_state?]
  rcases rel_cases (h.state? module) with ⟨ha, hb⟩ | ⟨s, t, ha, hb, -⟩
  · rw [ha, hb]
  · rw [ha, hb, Option.isSome_some, Option.isSome_some]

/-- They find the same module under a name. -/
theorem merged? (h : a.Shuffled b) (module : String) : a.merged? module = b.merged? module := by
  unfold Analysis.merged?
  rcases rel_cases (h.state? module) with ⟨ha, hb⟩ | ⟨s, t, ha, hb, hst⟩
  · rw [ha, hb]
  · rw [ha, hb, Option.bind_some, Option.bind_some, hst.merged]

/-- Names come from the same places. -/
theorem knowsAlike (h : a.Shuffled b) : a.KnowsAlike b := by
  refine ⟨h.root, h.config, h.isRegistered, fun module => ?_, ?_⟩
  · rw [h.merged?]
    cases b.merged? module with
    | none => exact .none
    | some m => exact .some ⟨fun _ => rfl, rfl⟩
  · obtain ⟨ts, hperm, hsame⟩ := h.modules
    have hnames : a.modules.map ModuleState.name = ts.map ModuleState.name :=
      List.forall₂_eq_eq_eq ▸ List.forall₂_map_left_iff.mpr
        (List.forall₂_map_right_iff.mpr (hsame.imp fun _ _ => SameModule.name))
    have hregistered : a.registeredNames.Perm b.registeredNames := by
      rw [h.left.registeredNames_eq, h.right.registeredNames_eq, hnames]
      exact hperm.map ModuleState.name
    have himports : a.importsOf = b.importsOf := by
      funext module
      rw [importsOf, importsOf, h.merged?]
    rw [Analysis.importCount, Analysis.importCount, himports]
    exact (hregistered.flatMap_right _).length_eq

/-- Steps that treat the same modules alike leave analyses of the same modules. -/
theorem map (h : a.Shuffled b) {f g : ModuleState → ModuleState}
    (hroot : a'.root = b'.root) (hconfig : a'.config = b'.config)
    (ha : a'.modules = a.modules.map f) (hb : b'.modules = b.modules.map g)
    (hleft : a'.WellIndexed) (hright : b'.WellIndexed)
    (hsame : ∀ s ∈ a.modules, ∀ t ∈ b.modules, SameModule a b s t → SameModule a' b' (f s) (g t))
    (hrules : ∀ key, Assoc.get? a'.rules key = Assoc.get? b'.rules key) : a'.Shuffled b' := by
  obtain ⟨ts, hperm, hmodules⟩ := h.modules
  refine ⟨hroot, hconfig, hleft, hright, ⟨ts.map g, hb ▸ hperm.map g, ?_⟩, hrules⟩
  rw [ha]
  refine List.forall₂_map_left_iff.mpr (List.forall₂_map_right_iff.mpr ?_)
  exact (forall₂_mem hmodules).imp fun s t ⟨hs, ht, hst⟩ =>
    hsame s hs t (hperm.mem_iff.mp ht) hst

end Shuffled
end Analysis
end PackageDoc
