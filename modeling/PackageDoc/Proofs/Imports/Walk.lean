import PackageDoc.Analysis.Links
import PackageDoc.Proofs.Arena.Index
import Mathlib.Logic.Relation
import Mathlib.Data.List.Nodup

namespace PackageDoc.Analysis

/-!
# Walks along imports

The names of the modules of a package form a graph in which every name has at most one way on: to
the name that it is imported from.

* `Imports a p q` — the name `p` of a module is imported from `q`;
* `Walk a p passed q` — the imports lead from `p` to `q` and pass the names `passed` on the way;
* `Ends a p q` — the walk from `p` comes to an end at `q`;
* `FirstRevisits a p q` — the walk from `p` comes back to `q`, and to no other name before.

A walk passes names that are imported, and there are only `importCount` of these.  So the walk from
a name either ends or comes back to a name, and `follow` finds out which
(`follow_ends_or_revisits`).
-/

/-- A name of a module, with the module first. -/
abbrev Site := String × String

/-- The name `p` is imported from `q`: its module has a view, does not define it and imports it. -/
def Imports (a : Analysis) (p q : Site) : Prop :=
  ∃ merged decl, a.merged? p.1 = some merged ∧ merged.member? p.2 = none ∧
    merged.external? p.2 = some decl ∧ q = (decl.module, decl.name)

/-- The imports lead from one name to another, in any number of steps. -/
def Reaches (a : Analysis) (p q : Site) : Prop :=
  Relation.ReflTransGen a.Imports p q

/-- The imports lead from a name back to itself. -/
def OnLoop (a : Analysis) (p : Site) : Prop :=
  Relation.TransGen a.Imports p p

/-- The imports lead from `p` to `q`; `passed` are the names on the way, `p` first and without
    `q`. -/
inductive Walk (a : Analysis) : Site → List Site → Site → Prop where
  | nil (p : Site) : Walk a p [] p
  | cons {p next q : Site} {passed : List Site} :
      a.Imports p next → Walk a next passed q → Walk a p (p :: passed) q

/-- The walk from `p` comes to an end at `q`. -/
def Ends (a : Analysis) (p q : Site) : Prop :=
  a.Reaches p q ∧ ∀ next, ¬ a.Imports q next

/-- The walk from `p` comes back to `q` when it has come back to no name before. -/
def FirstRevisits (a : Analysis) (p q : Site) : Prop :=
  ∃ passed, a.Walk p passed q ∧ passed.Nodup ∧ q ∈ passed

variable {a : Analysis} {p q r : Site}

/-! ### Single imports -/

/-- The edges that are computed are the import edges. -/
theorem edge?_eq_some_iff (a : Analysis) (p q : Site) :
    a.edge? p.1 p.2 = some q ↔ a.Imports p q := by
  unfold edge? Imports
  constructor
  · intro h
    obtain ⟨merged, hmerged, h⟩ := Option.bind_eq_some_iff.mp h
    split at h
    · exact absurd h (by simp)
    · rename_i hmember
      obtain ⟨decl, hdecl, rfl⟩ := Option.map_eq_some_iff.mp h
      exact ⟨merged, decl, hmerged, by simpa using hmember, hdecl, rfl⟩
  · rintro ⟨merged, decl, hmerged, hmember, hdecl, rfl⟩
    simp [hmerged, hmember, hdecl]

/-- Where none is computed, there is none. -/
theorem edge?_eq_none_iff (a : Analysis) (p : Site) :
    a.edge? p.1 p.2 = none ↔ ∀ q, ¬ a.Imports p q := by
  rw [Option.eq_none_iff_forall_ne_some]
  exact forall_congr' fun q => not_congr (edge?_eq_some_iff a p q)

/-- A name is imported from one place only. -/
theorem Imports.unique (hq : a.Imports p q) (hr : a.Imports p r) : q = r := by
  rw [← edge?_eq_some_iff] at hq hr
  exact Option.some.inj (hq.symm.trans hr)

/-! ### Walks -/

/-- The end of a walk is reached. -/
theorem Walk.reaches {passed : List Site} (h : a.Walk p passed q) : a.Reaches p q := by
  induction h with
  | nil p => exact .refl
  | cons himp _ ih => exact .head himp ih

/-- A walk reaches every name that it passes. -/
theorem Walk.reaches_of_mem {passed : List Site} (h : a.Walk p passed q) (hr : r ∈ passed) :
    a.Reaches p r := by
  induction h with
  | nil p => exact absurd hr (by simp)
  | cons himp _ ih =>
    rcases List.mem_cons.mp hr with rfl | hr
    · exact .refl
    · exact .head himp (ih hr)

/-- From a name that a walk passes, its end is reached in at least one step. -/
theorem Walk.transGen_of_mem {passed : List Site} (h : a.Walk p passed q) (hr : r ∈ passed) :
    Relation.TransGen a.Imports r q := by
  induction h with
  | nil p => exact absurd hr (by simp)
  | cons himp hwalk ih =>
    rcases List.mem_cons.mp hr with rfl | hr
    · exact Relation.TransGen.head' himp hwalk.reaches
    · exact ih hr

/-- Of two walks from one name, the longer goes on where the shorter stops. -/
theorem Walk.eq_or_passes {l l' : List Site} (h : a.Walk p l q) (h' : a.Walk p l' r) :
    (l = l' ∧ q = r) ∨ (∃ t, l' = l ++ q :: t) ∨ ∃ t, l = l' ++ r :: t := by
  induction h generalizing l' with
  | nil p =>
    cases h' with
    | nil => exact .inl ⟨rfl, rfl⟩
    | cons _ _ => exact .inr (.inl ⟨_, rfl⟩)
  | @cons p next q l himp hwalk ih =>
    cases h' with
    | nil => exact .inr (.inr ⟨l, rfl⟩)
    | cons himp' hwalk' =>
      obtain rfl := himp.unique himp'
      rcases ih hwalk' with ⟨rfl, rfl⟩ | ⟨t, rfl⟩ | ⟨t, rfl⟩
      · exact .inl ⟨rfl, rfl⟩
      · exact .inr (.inl ⟨t, rfl⟩)
      · exact .inr (.inr ⟨t, rfl⟩)

/-- Of two names that are reached from one, one is reached from the other. -/
theorem Reaches.linear (hq : a.Reaches p q) (hr : a.Reaches p r) :
    a.Reaches q r ∨ a.Reaches r q :=
  Relation.ReflTransGen.total_of_right_unique (fun _ _ _ => Imports.unique) hq hr

/-- Nothing but itself is reached from a name that is not imported. -/
theorem Reaches.eq_of_not_imports (h : a.Reaches q r) (hq : ∀ next, ¬ a.Imports q next) :
    q = r := by
  rcases Relation.ReflTransGen.cases_head h with rfl | ⟨next, himp, _⟩
  · rfl
  · exact absurd himp (hq next)

/-- The step from a name on a loop stays on the loop. -/
theorem OnLoop.step (h : a.OnLoop p) (himp : a.Imports p q) : a.OnLoop q ∧ a.Reaches q p := by
  obtain ⟨next, hnext, hback⟩ := Relation.TransGen.head'_iff.mp h
  obtain rfl := himp.unique hnext
  exact ⟨Relation.TransGen.tail' hback himp, hback⟩

/-- Whatever is reached from a loop lies on it. -/
theorem OnLoop.of_reaches (h : a.OnLoop p) (hreach : a.Reaches p q) : a.OnLoop q := by
  induction hreach with
  | refl => exact h
  | tail _ himp ih => exact (ih.step himp).1

/-! ### How a walk can go on -/

/-- A walk ends in one place. -/
theorem Ends.unique (hq : a.Ends p q) (hr : a.Ends p r) : q = r := by
  rcases hq.1.linear hr.1 with h | h
  · exact h.eq_of_not_imports hq.2
  · exact (h.eq_of_not_imports hr.2).symm

/-- The name that a walk comes back to lies on a loop. -/
theorem FirstRevisits.onLoop (h : a.FirstRevisits p q) : a.OnLoop q := by
  obtain ⟨passed, hwalk, _, hmem⟩ := h
  exact hwalk.transGen_of_mem hmem

/-- The place where a walk first meets itself is reached. -/
theorem FirstRevisits.reaches (h : a.FirstRevisits p q) : a.Reaches p q := by
  obtain ⟨passed, hwalk, _, _⟩ := h
  exact hwalk.reaches

/-- A walk comes back to one name first. -/
theorem FirstRevisits.unique (hq : a.FirstRevisits p q) (hr : a.FirstRevisits p r) : q = r := by
  obtain ⟨l, hwalk, hnodup, hmem⟩ := hq
  obtain ⟨l', hwalk', hnodup', hmem'⟩ := hr
  -- a walk that went on beyond the name it came back to would pass that name twice
  rcases hwalk.eq_or_passes hwalk' with ⟨_, h⟩ | ⟨t, rfl⟩ | ⟨t, rfl⟩
  · exact h
  · exact absurd hmem (List.disjoint_right.mp (List.nodup_append'.mp hnodup').2.2 (by simp))
  · exact absurd hmem' (List.disjoint_right.mp (List.nodup_append'.mp hnodup).2.2 (by simp))

/-- A walk that ends comes back to no name. -/
theorem Ends.not_firstRevisits (hq : a.Ends p q) : ¬ a.FirstRevisits p r := by
  intro hr
  have hloop : a.OnLoop q := by
    rcases hq.1.linear hr.reaches with h | h
    · obtain rfl := h.eq_of_not_imports hq.2
      exact hr.onLoop
    · exact hr.onLoop.of_reaches h
  obtain ⟨next, himp, _⟩ := Relation.TransGen.head'_iff.mp hloop
  exact hq.2 next himp

/-! ### The names that are imported -/

/-- The imported names of all modules. -/
def importSites (a : Analysis) : List Site :=
  a.registeredNames.flatMap fun module => (a.importsOf module).map fun e => (module, e.1)

/-- There are as many sites as imports are counted. -/
theorem length_importSites (a : Analysis) : a.importSites.length = a.importCount := by
  simp only [importSites, importCount, List.length_flatMap, List.length_map]

/-- An import is one of those of a registered module. -/
theorem Imports.exists_import (h : a.Imports p q) :
    p.1 ∈ a.registeredNames ∧ ∃ e ∈ a.importsOf p.1, e.1 = p.2 ∧ q = (e.2.module, e.2.name) := by
  obtain ⟨merged, decl, hmerged, _, hdecl, rfl⟩ := h
  obtain ⟨e, he, rfl⟩ := Option.map_eq_some_iff.mp hdecl
  have himports : a.importsOf p.1 = merged.externals := by
    rw [importsOf, hmerged, Option.map_some, Option.getD_some]
  refine ⟨isRegistered_iff_mem_registeredNames.mp (isRegistered_of_merged? hmerged), e, ?_, ?_, rfl⟩
  · rw [himports]
    exact List.mem_of_find?_eq_some he
  · simpa using List.find?_some he

/-- Every site with an edge is among them. -/
theorem mem_importSites_of_imports (h : a.Imports p q) : p ∈ a.importSites := by
  obtain ⟨hmodule, e, he, hname, -⟩ := h.exists_import
  exact List.mem_flatMap.mpr ⟨p.1, hmodule, List.mem_map.mpr ⟨e, he, by rw [hname]⟩⟩

/-- No more names can be passed than there are imports. -/
theorem length_le_importCount {visited : List Site} (hnodup : visited.Nodup)
    (himp : ∀ r ∈ visited, ∃ next, a.Imports r next) : visited.length ≤ a.importCount := by
  rw [← length_importSites]
  refine List.Nodup.length_le_of_subset hnodup fun r hr => ?_
  obtain ⟨next, h⟩ := himp r hr
  exact mem_importSites_of_imports h

/-! ### Following a name -/

/-- What following finds out: the walk ends, or it comes back to a name that it has passed or that
    had been passed before it began. -/
theorem follow_ends_or_revisits (a : Analysis) (steps : Nat) (visited : List Site) (p : Site)
    (hnodup : visited.Nodup) (himp : ∀ r ∈ visited, ∃ next, a.Imports r next)
    (hsteps : a.importCount < steps + visited.length) :
    (∃ q, a.Ends p q ∧ a.follow steps visited p.1 p.2 = a.chainEnd q.1 q.2) ∨
      ∃ q passed, a.Walk p passed q ∧ (passed.reverse ++ visited).Nodup ∧
        q ∈ passed.reverse ++ visited ∧
        a.follow steps visited p.1 p.2 = a.submoduleOr q.1 q.2 .cyclic := by
  induction steps generalizing visited p with
  | zero =>
    have hle := length_le_importCount hnodup himp
    omega
  | succ steps ih =>
    -- the place was visited, nothing leads on from it, or an import does
    by_cases hmem : p ∈ visited
    · exact .inr ⟨p, [], .nil p, by simpa using hnodup, by simpa using hmem, by simp [follow, hmem]⟩
    · cases hedge : a.edge? p.1 p.2 with
      | none =>
        have hend : a.Ends p p := ⟨.refl, (edge?_eq_none_iff a p).mp hedge⟩
        exact .inl ⟨p, hend, by simp [follow, hmem, hedge]⟩
      | some next =>
        have hnext : a.Imports p next := (edge?_eq_some_iff a p next).mp hedge
        have hfollow : a.follow (steps + 1) visited p.1 p.2 =
            a.follow steps (p :: visited) next.1 next.2 := by
          simp [follow, hmem, hedge]
        rw [hfollow]
        rcases ih (p :: visited) next (List.nodup_cons.mpr ⟨hmem, hnodup⟩)
            (List.forall_mem_cons.mpr ⟨⟨next, hnext⟩, himp⟩)
            (by simp only [List.length_cons]; omega) with
          ⟨q, hend, heq⟩ | ⟨q, passed, hwalk, hn, hq, heq⟩
        · exact .inl ⟨q, ⟨.head hnext hend.1, hend.2⟩, heq⟩
        · refine .inr ⟨q, p :: passed, .cons hnext hwalk, ?_, ?_, heq⟩
          · simpa using hn
          · simpa using hq

/-- The walk from a name ends, and its end says where the name comes from; or it comes back to a
    name, which then does. -/
theorem follow_eq_or (a : Analysis) (extra : Nat) (p : Site) :
    (∃ q, a.Ends p q ∧ a.follow (a.importCount + 1 + extra) [] p.1 p.2 = a.chainEnd q.1 q.2) ∨
      ∃ q, a.FirstRevisits p q ∧
        a.follow (a.importCount + 1 + extra) [] p.1 p.2 = a.submoduleOr q.1 q.2 .cyclic := by
  rcases a.follow_ends_or_revisits (a.importCount + 1 + extra) [] p List.nodup_nil (by simp)
      (by simp; omega) with h | ⟨q, passed, hwalk, hnodup, hmem, heq⟩
  · exact .inl h
  · exact .inr ⟨q, ⟨passed, hwalk, by simpa using hnodup, by simpa using hmem⟩, heq⟩

/-- The origin is the end of the chain, where it ends. -/
theorem originOf_of_ends (h : a.Ends p q) : a.originOf p.1 p.2 = a.chainEnd q.1 q.2 := by
  rcases a.follow_eq_or 0 p with ⟨r, hr, heq⟩ | ⟨r, hr, _⟩
  · rw [h.unique hr]
    exact heq
  · exact absurd hr h.not_firstRevisits

/-- Where it does not end, the origin is found where it first meets itself. -/
theorem originOf_of_firstRevisits (h : a.FirstRevisits p q) :
    a.originOf p.1 p.2 = a.submoduleOr q.1 q.2 .cyclic := by
  rcases a.follow_eq_or 0 p with ⟨r, hr, _⟩ | ⟨r, hr, heq⟩
  · exact absurd h hr.not_firstRevisits
  · rw [h.unique hr]
    exact heq

/-- More steps than there are imports change nothing. -/
theorem follow_eq_originOf (a : Analysis) (extra : Nat) (p : Site) :
    a.follow (a.importCount + 1 + extra) [] p.1 p.2 = a.originOf p.1 p.2 := by
  rcases a.follow_eq_or extra p with ⟨q, hq, heq⟩ | ⟨q, hq, heq⟩
  · rw [heq, originOf_of_ends hq]
  · rw [heq, originOf_of_firstRevisits hq]

/-- A walk ends or comes back to a name. -/
theorem ends_or_firstRevisits (a : Analysis) (p : Site) :
    (∃ q, a.Ends p q) ∨ ∃ q, a.FirstRevisits p q := by
  rcases a.follow_eq_or 0 p with ⟨q, hq, _⟩ | ⟨q, hq, _⟩
  · exact .inl ⟨q, hq⟩
  · exact .inr ⟨q, hq⟩

end PackageDoc.Analysis
