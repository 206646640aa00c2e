import PackageDoc.Proofs.Merge.Views
import PackageDoc.Analysis.Target

namespace PackageDoc

/-!
# The definitions of a view

A view is a forest of definitions.  Where names are distinct at every depth, the path of a definition
leads back to it.

* `MergedModule.nodes` — all definitions of a module with their paths and the classes around them;
* `MergedModule.IsScope` — the classes around which annotations stand;
* `MergedModule.lookup_of_mem_nodes` — looking up the path of a definition finds it.
-/

/-- A definition where it stands. -/
structure MemberNode where
  path : List String
  /-- The innermost class around it. -/
  scope : Option ClassScope
  member : MergedMember

mutual

/-- A definition, to which `path` leads, and all definitions below it. -/
def MergedMember.nodes (path : List String) (scope : Option ClassScope) :
    MergedMember → List MemberNode
  | ⟨name, line, docstring, shape, members⟩ =>
    ⟨path, scope, ⟨name, line, docstring, shape, members⟩⟩ ::
      MergedMember.nodesList path (some ⟨dotted path, members⟩) members

/-- Definitions in the body that `path` leads to, and all definitions below them. -/
def MergedMember.nodesList (path : List String) (scope : Option ClassScope) :
    List MergedMember → List MemberNode
  | [] => []
  | m :: ms => m.nodes (path ++ [m.name]) scope ++ MergedMember.nodesList path scope ms

end

namespace MergedModule

/-- All definitions of a module, each before those below it. -/
def nodes (m : MergedModule) : List MemberNode :=
  MergedMember.nodesList [] none m.members

/-- What may stand around an annotation of the module: nothing or the body of a definition. -/
def IsScope (m : MergedModule) (scope : Option ClassScope) : Prop :=
  scope = none ∨ ∃ n ∈ m.nodes, scope = some ⟨dotted n.path, n.member.members⟩

end MergedModule

namespace MergedMember

/-- A path is looked up from its first name on. -/
theorem findPath?_cons (ms : List MergedMember) (name : String) {names : List String}
    (hne : names ≠ []) :
    findPath? ms (name :: names) = (find? ms name).bind fun m => findPath? m.members names := by
  rw [findPath?]
  exact hne

/-- A definition is found by its name among others with different names. -/
theorem find?_of_mem {ms : List MergedMember} {m : MergedMember}
    (hnodup : (ms.map MergedMember.name).Nodup) (hm : m ∈ ms) : find? ms m.name = some m := by
  induction ms with
  | nil => exact absurd hm (by simp)
  | cons m' ms ih =>
    rw [List.map_cons, List.nodup_cons] at hnodup
    rw [find?, List.find?_cons]
    rcases List.mem_cons.mp hm with rfl | hm
    · simp
    · have hother : m'.name ≠ m.name := fun h => hnodup.1 (List.mem_map.mpr ⟨m, hm, h.symm⟩)
      rw [show (m'.name == m.name) = false by simpa using hother]
      exact ih hnodup.2 hm

mutual

/-- Every node is the member at its path. -/
theorem findPath?_of_mem_nodes : ∀ (m : MergedMember) (path : List String)
    (scope : Option ClassScope), m.Fresh → ∀ n ∈ m.nodes path scope,
      (n.path = path ∧ n.member = m) ∨
        ∃ names, names ≠ [] ∧ n.path = path ++ names ∧
          findPath? m.members names = some n.member
  | ⟨name, line, docstring, shape, members⟩, path, scope, h, n, hn => by
    rw [nodes] at hn
    rcases List.mem_cons.mp hn with rfl | hn
    · exact .inl ⟨rfl, rfl⟩
    · rw [MergedMember.Fresh] at h
      exact .inr (findPath?_of_mem_nodesList members path _ h.2 n hn)

/-- Where names are distinct, the path of a definition leads to it. -/
theorem findPath?_of_mem_nodesList : ∀ (ms : List MergedMember) (path : List String)
    (scope : Option ClassScope), FreshAll ms → ∀ n ∈ nodesList path scope ms,
      ∃ names, names ≠ [] ∧ n.path = path ++ names ∧ findPath? ms names = some n.member
  | [], path, scope, _, n, hn => absurd hn (by simp [nodesList])
  | m :: ms, path, scope, h, n, hn => by
    have hnodup := ((freshAll_iff _).mp h).1
    rw [FreshAll] at h
    rw [nodesList] at hn
    have hfind := find?_of_mem hnodup (m := m) (by simp)
    rcases List.mem_append.mp hn with hn | hn
    · rcases findPath?_of_mem_nodes m _ scope h.2.1 n hn with
        ⟨hpath, hmember⟩ | ⟨names, hne, hpath, hfound⟩
      · exact ⟨[m.name], by simp, hpath, by rw [findPath?, hfind, hmember]⟩
      · refine ⟨m.name :: names, by simp, by simpa using hpath, ?_⟩
        rw [findPath?_cons _ _ hne, hfind, Option.bind_some, hfound]
    · obtain ⟨names, hne, hpath, hfound⟩ := findPath?_of_mem_nodesList ms path scope h.2.2 n hn
      refine ⟨names, hne, hpath, ?_⟩
      -- the first name of the path is that of another definition
      cases names with
      | nil => exact absurd rfl hne
      | cons name names =>
        have hname : name ≠ m.name := by
          rintro rfl
          have hnone : find? ms m.name = none := by
            rw [find?, List.find?_eq_none]
            intro m' hm' heq
            exact h.1 m' hm' (by simpa using heq)
          cases names with
          | nil => simp [findPath?, hnone] at hfound
          | cons _ _ => simp [findPath?, hnone] at hfound
        have hskip : find? (m :: ms) name = find? ms name := by
          rw [find?, List.find?_cons, show (m.name == name) = false by simpa using hname.symm]
          rfl
        cases names with
        | nil => rwa [findPath?, hskip]
        | cons name' names =>
          rw [findPath?_cons _ _ (by simp)] at hfound ⊢
          rwa [hskip]

end

/-- A path that leads to a definition can be prolonged by a name in its body. -/
theorem findPath?_concat {ms : List MergedMember} {names : List String} {m : MergedMember}
    (hne : names ≠ []) (h : findPath? ms names = some m) (name : String) :
    findPath? ms (names ++ [name]) = find? m.members name := by
  induction names generalizing ms with
  | nil => exact absurd rfl hne
  | cons first names ih =>
    rw [List.cons_append, findPath?_cons _ _ (by simp)]
    by_cases hnil : names = []
    · subst hnil
      rw [findPath?] at h
      simp [h, findPath?]
    · rw [findPath?_cons _ _ hnil] at h
      obtain ⟨m', hm', h⟩ := Option.bind_eq_some_iff.mp h
      rw [hm', Option.bind_some, ih hnil h]

end MergedMember

/-- Looking up the path of a definition finds it. -/
theorem MergedModule.lookup_of_mem_nodes {m : MergedModule} (h : m.Fresh) {n : MemberNode}
    (hn : n ∈ m.nodes) : n.path ≠ [] ∧ m.lookup n.path = some n.member := by
  obtain ⟨names, hne, hpath, hfound⟩ := MergedMember.findPath?_of_mem_nodesList _ _ _ h n hn
  obtain rfl : n.path = names := by simpa using hpath
  exact ⟨hne, hfound⟩

end PackageDoc
