import PackageDoc.Analysis.Target
import PackageDoc.Proofs.Imports.Origins

namespace PackageDoc

/-!
# Rounds of following a path

Each round of `Analysis.pathTarget` uses up a beginning of the path, which names a module and a name
of it, and either answers or puts other names in place of that beginning.

* `Follows a next path` — a round puts `next` in place of `path`;
* `pathTarget_isSome_iff` — a path has an outcome exactly when following it is well founded;
* `Round a used put rest` — a round uses up the names `used`, with the names `rest` behind them, and
  puts the names `put` in their place;
* `follows_iff_round` — the rounds are the steps of following.
-/

/-- The names that an origin puts in place of a name; none where nothing is to be followed. -/
def Origin.puts? : Origin → Option (List String)
  | .library owner name => some (segments owner ++ [name])
  | .module owner => some (segments owner)
  | _ => none

/-- A lookup goes on exactly from an origin that puts names in front of some that are left. -/
theorem Origin.onward?_eq_some_iff (o : Origin) (rest next : List String) :
    o.onward? rest = some next ↔ ∃ put, o.puts? = some put ∧ rest ≠ [] ∧ next = put ++ rest := by
  cases o with
  | definition owner name => simp [Origin.onward?, Origin.puts?]
  | library owner name => cases rest <;> simp [Origin.onward?, Origin.puts?, eq_comm]
  | module owner => cases rest <;> simp [Origin.onward?, Origin.puts?, eq_comm]
  | unresolved owner name reason => simp [Origin.onward?, Origin.puts?]

namespace Analysis

variable {a : Analysis} {path next : List String}

/-! ### One round -/

/-- The path that a round puts in place of a path; none when the round answers. -/
def nextPath? (a : Analysis) (path : List String) : Option (List String) :=
  match a.longestModule? [] path with
  | some (module, head :: rest) => (a.originOf module head).onward? rest
  | _ => none

/-- A round of following puts `next` in place of `path`. -/
def Follows (a : Analysis) (next path : List String) : Prop :=
  a.nextPath? path = some next

/-- A round that puts another path in finds what is found for that path. -/
theorem targetOnce_of_follows (onPath : List String → Option (Except RawReason Target))
    (h : a.Follows next path) : a.targetOnce onPath path = onPath next := by
  unfold Follows nextPath? at h
  unfold targetOnce
  split at h
  · rename_i module head rest hmodule
    simp only [hmodule, targetFrom, h]
  · exact absurd h (by simp)

/-- A round that puts no other path in answers. -/
theorem targetOnce_isSome_of_nextPath?_eq_none
    (onPath : List String → Option (Except RawReason Target)) (h : a.nextPath? path = none) :
    (a.targetOnce onPath path).isSome := by
  unfold nextPath? at h
  unfold targetOnce
  split at h
  · rename_i module head rest hmodule
    simp only [hmodule, targetFrom, h, Option.isSome_some]
  · rename_i hother
    -- either no beginning names a module, or the whole path does
    split
    · rfl
    · rfl
    · rename_i module head rest hmodule
      exact absurd hmodule (hother module head rest)

/-- A path has the target of the path that follows it. -/
theorem pathTarget_of_follows (h : a.Follows next path) :
    a.pathTarget path = a.pathTarget next := by
  rw [pathTarget, targetOnce_of_follows _ h]

/-- A path has an outcome if and only if following it is well founded. -/
theorem pathTarget_isSome_iff (a : Analysis) (path : List String) :
    (a.pathTarget path).isSome ↔ Acc a.Follows path := by
  constructor
  · intro h
    obtain ⟨outcome, h⟩ := Option.isSome_iff_exists.mp h
    refine pathTarget.partial_correctness a (fun path _ => Acc a.Follows path) ?_ path outcome h
    intro onPath ih path outcome h
    refine ⟨path, fun next hnext => ?_⟩
    rw [targetOnce_of_follows onPath hnext] at h
    exact ih next outcome h
  · intro h
    induction h with
    | intro path _ ih =>
      cases hnext : a.nextPath? path with
      | none =>
        rw [pathTarget]
        exact targetOnce_isSome_of_nextPath?_eq_none _ hnext
      | some next =>
        rw [pathTarget_of_follows hnext]
        exact ih next hnext

/-- A path to which following comes back is followed for ever. -/
theorem not_acc_of_transGen_self (h : Relation.TransGen a.Follows path path) :
    ¬ Acc a.Follows path := by
  intro hacc
  induction hacc.transGen with
  | intro path _ ih => exact ih path h h hacc

/-! ### The longest beginning that names a module -/

/-- No beginning of `rest`, put behind `before`, names a registered module. -/
def NamesNone (a : Analysis) (before rest : List String) : Prop :=
  ∀ more, more ≠ [] → more <+: rest → a.isRegistered (dotted (before ++ more)) = false

/-- No module is named by a part with those before it, nor by one more. -/
theorem namesNone_cons_iff (a : Analysis) (before : List String) (part : String)
    (rest : List String) :
    a.NamesNone before (part :: rest) ↔
      a.isRegistered (dotted (before ++ [part])) = false ∧ a.NamesNone (before ++ [part]) rest := by
  constructor
  · intro h
    refine ⟨h [part] (by simp) (by simp), fun more _ hprefix => ?_⟩
    have := h (part :: more) (by simp) (List.cons_prefix_cons.mpr ⟨rfl, hprefix⟩)
    simpa using this
  · rintro ⟨hpart, hrest⟩ more hne hprefix
    cases more with
    | nil => exact absurd rfl hne
    | cons part' more =>
      obtain ⟨rfl, hmore⟩ := List.cons_prefix_cons.mp hprefix
      by_cases hnil : more = []
      · subst hnil
        exact hpart
      · simpa using hrest more hnil hmore

/-- No module is found in a path exactly when none of its beginnings names one. -/
theorem longestModule?_eq_none_iff (a : Analysis) (before rest : List String) :
    a.longestModule? before rest = none ↔ a.NamesNone before rest := by
  induction rest generalizing before with
  | nil =>
    refine iff_of_true rfl fun more hne hprefix => ?_
    exact absurd (List.prefix_nil.mp hprefix) hne
  | cons part rest ih =>
    rw [namesNone_cons_iff, ← ih, longestModule?]
    cases hlonger : a.longestModule? (before ++ [part]) rest with
    | none => simp
    | some found => simp

/-- The module that is found is named by a beginning of the path, and no longer beginning names
    one. -/
theorem longestModule?_eq_some_iff (a : Analysis) (before rest : List String) (module : String)
    (behind : List String) :
    a.longestModule? before rest = some (module, behind) ↔
      ∃ names, names ≠ [] ∧ rest = names ++ behind ∧ module = dotted (before ++ names) ∧
        a.isRegistered module = true ∧ a.NamesNone (before ++ names) behind := by
  induction rest generalizing before with
  | nil => simp [longestModule?]
  | cons part rest ih =>
    rw [longestModule?]
    -- `names` goes on behind `part` exactly when a longer beginning names a module
    constructor
    · intro h
      cases hlonger : a.longestModule? (before ++ [part]) rest with
      | some found =>
        obtain rfl : found = (module, behind) := by simpa [hlonger] using h
        obtain ⟨names, _, hrest, hmodule, hreg, hnone⟩ := (ih _).mp hlonger
        exact ⟨part :: names, by simp, by simp [hrest], by simpa using hmodule, hreg,
          by simpa using hnone⟩
      | none =>
        simp only [hlonger] at h
        split at h
        · rename_i hreg
          obtain ⟨rfl, rfl⟩ : dotted (before ++ [part]) = module ∧ rest = behind := by
            simpa using h
          exact ⟨[part], by simp, by simp, rfl, hreg, (longestModule?_eq_none_iff _ _ _).mp hlonger⟩
        · exact absurd h (by simp)
    · rintro ⟨names, hne, hpath, hmodule, hreg, hnone⟩
      cases names with
      | nil => exact absurd rfl hne
      | cons part' names =>
        obtain ⟨rfl, hrest⟩ : part = part' ∧ rest = names ++ behind := by simpa using hpath
        by_cases hnames : names = []
        · subst hnames
          have hlonger : a.longestModule? (before ++ [part]) rest = none := by
            rw [longestModule?_eq_none_iff, hrest]
            exact hnone
          simp only [hlonger]
          rw [if_pos (by rw [← hmodule]; exact hreg), ← hmodule, hrest]
          rfl
        · have hlonger : a.longestModule? (before ++ [part]) rest = some (module, behind) :=
            (ih _).mpr ⟨names, hnames, hrest, by simpa using hmodule, hreg, by simpa using hnone⟩
          simp only [hlonger]

/-! ### What a round uses up and what it puts in -/

/-- A round uses up the names `used`, behind which the names `rest` stand, and puts the names `put`
    in their place: `used` is the longest beginning that names a module, with a name behind it that
    comes from somewhere else. -/
def Round (a : Analysis) (used put rest : List String) : Prop :=
  ∃ names head, used = names ++ [head] ∧ names ≠ [] ∧ a.isRegistered (dotted names) = true ∧
    a.NamesNone names (head :: rest) ∧ rest ≠ [] ∧
    (a.originOf (dotted names) head).puts? = some put

/-- The rounds are the steps of following. -/
theorem follows_iff_round (a : Analysis) (next path : List String) :
    a.Follows next path ↔
      ∃ used put rest, path = used ++ rest ∧ next = put ++ rest ∧ a.Round used put rest := by
  unfold Follows nextPath?
  constructor
  · intro h
    split at h
    · rename_i module head rest hmodule
      obtain ⟨names, hne, hpath, rfl, hreg, hnone⟩ :=
        (longestModule?_eq_some_iff _ _ _ _ _).mp hmodule
      obtain ⟨put, hput, hrest, rfl⟩ := (Origin.onward?_eq_some_iff _ _ _).mp h
      exact ⟨names ++ [head], put, rest, by simpa using hpath, rfl,
        names, head, rfl, hne, hreg, hnone, hrest, hput⟩
    · exact absurd h (by simp)
  · rintro ⟨used, put, rest, rfl, rfl, names, head, rfl, hne, hreg, hnone, hrest, hput⟩
    have hmodule : a.longestModule? [] (names ++ [head] ++ rest) =
        some (dotted names, head :: rest) :=
      (longestModule?_eq_some_iff _ _ _ _ _).mpr ⟨names, hne, by simp, rfl, hreg, hnone⟩
    simp only [hmodule]
    exact (Origin.onward?_eq_some_iff _ _ _).mpr ⟨put, hput, hrest, rfl⟩

end Analysis
end PackageDoc
