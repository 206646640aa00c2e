import PackageDoc.Analysis.Run
import PackageDoc.Proofs.Arena.Index
import Mathlib.Data.List.Nodup
import Mathlib.Data.List.Induction

namespace PackageDoc

/-!
# The module around a module

A module stands below the longest registered name around its own, or below the root.  Following the
modules around a module upwards leads to the root without coming to a module twice.

* `Inside` — a dotted name begins with another and a dot;
* `Analysis.IsParent` — the module that a module stands below;
* `Analysis.isParent_iff` — it is the one that `Analysis.parentOf` finds;
* `Analysis.Climbs` — some steps upwards lead from a module to one above it;
* `Analysis.exists_climbs_root` — to the root they do, in fewer steps than there are modules.
-/

/-! ### Names inside names -/

/-- The name is that of something inside `around`. -/
def Inside (around name : String) : Prop :=
  ∃ rest, name = around ++ "." ++ rest

variable {p q name around : String}

/-- What is inside a name is longer. -/
theorem Inside.length_lt (h : Inside around name) : around.length < name.length := by
  obtain ⟨rest, rfl⟩ := h
  simp only [String.length_append]
  have hdot : ".".length = 1 := rfl
  omega

/-- It begins with the name. -/
theorem Inside.isPrefix (h : Inside around name) : around.toList <+: name.toList := by
  obtain ⟨rest, rfl⟩ := h
  exact ⟨(".").toList ++ rest.toList, by simp [String.toList_append]⟩

theorem Inside.trans (hp : Inside p q) (hq : Inside q name) : Inside p name := by
  obtain ⟨mid, rfl⟩ := hp
  obtain ⟨rest, rfl⟩ := hq
  exact ⟨mid ++ "." ++ rest, by simp only [String.append_assoc]⟩

/-- Of the names around a name no two have one length. -/
theorem Inside.eq_of_length (hp : Inside p name) (hq : Inside q name) (h : p.length = q.length) :
    p = q := by
  rw [← String.length_toList, ← String.length_toList] at h
  have hwithin := List.prefix_of_prefix_length_le hp.isPrefix hq.isPrefix (Nat.le_of_eq h)
  exact String.toList_inj.mp (hwithin.eq_of_length h)

/-- A text is split at each separator, before and behind. -/
theorem Text.splitOn_append (sep : Char) (cs ds : List Char) :
    splitOn sep (cs ++ sep :: ds) = splitOn sep cs ++ splitOn sep ds := by
  induction cs with
  | nil => simp [splitOn]
  | cons c cs ih =>
    rw [List.cons_append, splitOn, splitOn, ih]
    split
    · rfl
    · cases hsplit : splitOn sep cs with
      | nil => exact absurd hsplit (splitOn_ne_nil sep cs)
      | cons piece pieces => rfl

/-- A name has at least one segment. -/
theorem segments_ne_nil (name : String) : segments name ≠ [] := by
  simpa [segments] using Text.splitOn_ne_nil '.' name.toList

/-- A name with a dot in it has the segments of both parts. -/
theorem segments_inside (around rest : String) :
    segments (around ++ "." ++ rest) = segments around ++ segments rest := by
  have hlist : (around ++ "." ++ rest).toList = around.toList ++ '.' :: rest.toList := by
    simp [String.toList_append]
  rw [segments, hlist, Text.splitOn_append, List.map_append]
  rfl

/-- The longest beginning comes first. -/
theorem beginnings_concat {α : Type} (xs : List α) (x : α) :
    beginnings (xs ++ [x]) = (xs ++ [x]) :: beginnings xs := by
  induction xs with
  | nil => rfl
  | cons y ys ih =>
    rw [List.cons_append, beginnings, ih, List.map_cons, List.cons_append, beginnings]

/-- Beginnings are the prefixes that are not empty. -/
theorem mem_beginnings {α : Type} {xs ys : List α} :
    ys ∈ beginnings xs ↔ ys ≠ [] ∧ ys <+: xs := by
  induction xs generalizing ys with
  | nil => simp [beginnings]
  | cons x xs ih =>
    rw [beginnings, List.mem_append, List.mem_map, List.mem_singleton]
    constructor
    · rintro (⟨zs, hzs, rfl⟩ | rfl)
      · exact ⟨by simp, List.cons_prefix_cons.mpr ⟨rfl, (ih.mp hzs).2⟩⟩
      · exact ⟨by simp, List.cons_prefix_cons.mpr ⟨rfl, List.nil_prefix⟩⟩
    · rintro ⟨hne, hwithin⟩
      obtain ⟨y, zs, rfl⟩ := List.exists_cons_of_ne_nil hne
      obtain ⟨rfl, hzs⟩ := List.cons_prefix_cons.mp hwithin
      by_cases hnil : zs = []
      · exact .inr (by rw [hnil])
      · exact .inl ⟨zs, ih.mpr ⟨hnil, hzs⟩, rfl⟩

/-- A longer path is inside each of its beginnings. -/
theorem inside_of_mem_beginnings {parts xs : List String} (x : String) (h : parts ∈ beginnings xs) :
    Inside (dotted parts) (dotted (xs ++ [x])) := by
  obtain ⟨hne, more, rfl⟩ := mem_beginnings.mp h
  exact ⟨dotted (more ++ [x]), by rw [List.append_assoc, dotted_append hne (by simp)]⟩

/-- The names around a name are those inside which it is. -/
theorem mem_drop_enclosingNames : around ∈ (enclosingNames name).drop 1 ↔ Inside around name := by
  obtain ⟨parts, part, hparts⟩ := (List.eq_nil_or_concat' _).resolve_left (segments_ne_nil name)
  rw [enclosingNames, hparts, beginnings_concat, List.map_cons, List.drop_one, List.tail_cons,
    List.mem_map]
  constructor
  · rintro ⟨front, hfront, rfl⟩
    have hinside := inside_of_mem_beginnings part hfront
    rwa [← hparts, dotted_segments] at hinside
  · rintro ⟨rest, rfl⟩
    refine ⟨segments around, mem_beginnings.mpr ⟨segments_ne_nil _, ?_⟩, dotted_segments _⟩
    have hdrop := congrArg List.dropLast hparts
    rw [segments_inside, List.dropLast_append_of_ne_nil (segments_ne_nil rest),
      List.dropLast_concat] at hdrop
    rw [← hdrop]
    exact List.prefix_append _ _

/-- The names around a name come longest first. -/
theorem pairwise_enclosingNames (name : String) :
    (enclosingNames name).Pairwise fun p q => Inside q p := by
  rw [enclosingNames, List.pairwise_map]
  induction segments name using List.reverseRecOn with
  | nil => exact .nil
  | append_singleton parts part ih =>
    rw [beginnings_concat, List.pairwise_cons]
    exact ⟨fun front hfront => inside_of_mem_beginnings part hfront, ih⟩

namespace Analysis

variable {a : Analysis}

/-! ### The module around a module -/

/-- The module that a module stands below: of the registered names around its own the longest, or
    the root when there is none. -/
def IsParent (a : Analysis) (parent name : String) : Prop :=
  (a.isRegistered parent = true ∧ Inside parent name ∧
    ∀ q, a.isRegistered q = true → Inside q name → q.length ≤ parent.length) ∨
  (parent = a.root ∧ ∀ q, a.isRegistered q = true → ¬ Inside q name)

/-- The parent that is computed is the parent. -/
theorem isParent_parentOf (a : Analysis) (name : String) : a.IsParent (a.parentOf name) name := by
  have hpairwise : ((enclosingNames name).drop 1).Pairwise fun p q => Inside q p :=
    (pairwise_enclosingNames name).drop
  have hmem : ∀ q, q ∈ (enclosingNames name).drop 1 ↔ Inside q name :=
    fun q => mem_drop_enclosingNames
  rw [parentOf]
  generalize (enclosingNames name).drop 1 = names at hpairwise hmem
  -- the longest name comes first, so the first that is registered is the parent
  cases hfind : names.find? a.isRegistered with
  | none =>
    refine .inr ⟨rfl, fun q hq hinside => ?_⟩
    exact List.find?_eq_none.mp hfind q ((hmem q).mpr hinside) hq
  | some parent =>
    obtain ⟨hreg, before, after, rfl, hbefore⟩ := List.find?_eq_some_iff_append.mp hfind
    refine .inl ⟨hreg, (hmem parent).mp (by simp), fun q hq hinside => ?_⟩
    rcases List.mem_append.mp ((hmem q).mpr hinside) with hfront | hback
    · exact absurd hq (by simpa using hbefore q hfront)
    · rcases List.mem_cons.mp hback with rfl | hback
      · exact Nat.le_refl _
      · have hrest := (List.pairwise_append.mp hpairwise).2.1
        exact Nat.le_of_lt (List.rel_of_pairwise_cons hrest hback).length_lt

/-- There is no other. -/
theorem isParent_iff : a.IsParent p name ↔ p = a.parentOf name := by
  refine ⟨fun h => ?_, fun h => h ▸ a.isParent_parentOf name⟩
  obtain ⟨hreg, hinside, hlongest⟩ | ⟨rfl, hnone⟩ := h
  · obtain ⟨hreg', hinside', hlongest'⟩ | ⟨-, hnone⟩ := a.isParent_parentOf name
    · have hlength := Nat.le_antisymm (hlongest' p hreg hinside) (hlongest _ hreg' hinside')
      exact hinside.eq_of_length hinside' hlength
    · exact absurd hinside (hnone p hreg)
  · obtain ⟨hreg', hinside', -⟩ | ⟨hroot, -⟩ := a.isParent_parentOf name
    · exact absurd hinside' (hnone _ hreg')
    · exact hroot.symm

/-- The parent of a module is registered, if the root is. -/
theorem isRegistered_parentOf (hroot : a.isRegistered a.root = true) (name : String) :
    a.isRegistered (a.parentOf name) = true := by
  obtain ⟨hreg, -⟩ | ⟨heq, -⟩ := a.isParent_parentOf name
  · exact hreg
  · rwa [heq]

/-- Below another module than the root stands what is inside it. -/
theorem inside_parentOf (h : a.parentOf name ≠ a.root) : Inside (a.parentOf name) name := by
  obtain ⟨-, hinside, -⟩ | ⟨heq, -⟩ := a.isParent_parentOf name
  · exact hinside
  · exact absurd heq h

/-! ### Upwards -/

/-- So many steps upwards lead from a module to one above it.  None leads on from the root. -/
inductive Climbs (a : Analysis) : String → Nat → String → Prop
  | here (name : String) : Climbs a name 0 name
  | up {name top : String} {n : Nat} (hroot : name ≠ a.root) (h : Climbs a (a.parentOf name) n top) :
    Climbs a name (n + 1) top

namespace Climbs

variable {top top' : String} {m n : Nat}

/-- One step more at the end. -/
theorem snoc (h : a.Climbs name n top) (hroot : top ≠ a.root) :
    a.Climbs name (n + 1) (a.parentOf top) := by
  induction h with
  | here name => exact .up hroot (.here _)
  | up hname _ ih => exact .up hname (ih hroot)

/-- A climb of some steps ends with a step to a parent. -/
theorem exists_snoc (h : a.Climbs name (n + 1) top) :
    ∃ mid, a.Climbs name n mid ∧ mid ≠ a.root ∧ a.parentOf mid = top := by
  induction n generalizing name with
  | zero =>
    cases h with
    | up hname h =>
      cases h
      exact ⟨name, .here _, hname, rfl⟩
  | succ n ih =>
    cases h with
    | up hname h =>
      obtain ⟨mid, hmid, hne, rfl⟩ := ih h
      exact ⟨mid, .up hname hmid, hne, rfl⟩

/-- From where some steps lead, the rest of the steps leads on to the root. -/
theorem rest (h : a.Climbs name n top) (hroot : a.Climbs name m a.root) :
    ∃ k, m = n + k ∧ a.Climbs top k a.root := by
  induction h generalizing m with
  | here name => exact ⟨m, by omega, hroot⟩
  | up hname _ ih =>
    cases hroot with
    | here => exact absurd rfl hname
    | up _ hroot =>
      obtain ⟨k, rfl, hk⟩ := ih hroot
      exact ⟨k, by omega, hk⟩

/-- A name climbs to the root in one number of steps. -/
theorem eq_of_root (h : a.Climbs name m a.root) (h' : a.Climbs name n a.root) : m = n := by
  obtain ⟨k, rfl, hk⟩ := h'.rest h
  cases hk with
  | here => rfl
  | up hne _ => exact absurd rfl hne

/-- In one number of steps it climbs to one module. -/
theorem eq_of_steps (h : a.Climbs name n top) (h' : a.Climbs name n top') : top = top' := by
  induction h with
  | here name => cases h'; rfl
  | up _ _ ih =>
    cases h' with
    | up _ h' => exact ih h'

/-- All that it climbs to is registered. -/
theorem isRegistered (hroot : a.isRegistered a.root = true) (h : a.Climbs name n top)
    (hname : a.isRegistered name = true) : a.isRegistered top = true := by
  induction h with
  | here name => exact hname
  | up _ _ ih => exact ih (isRegistered_parentOf hroot _)

/-- A module that stands below another than the root is inside it. -/
theorem inside (h : a.Climbs name n top) (hne : top ≠ a.root) :
    name = top ∨ Inside top name := by
  induction h with
  | here name => exact .inl rfl
  | @up name top n hname h ih =>
    right
    have hparent : a.parentOf name ≠ a.root := by
      intro heq
      rw [heq] at h
      cases h with
      | here => exact hne rfl
      | up hroot _ => exact hroot rfl
    rcases ih hne with heq | hinside
    · rw [← heq]
      exact inside_parentOf hparent
    · exact hinside.trans (inside_parentOf hparent)

end Climbs

/-- The registered names on the way to the root, each once. -/
theorem exists_climbs_root (hroot : a.isRegistered a.root = true) (hname : a.isRegistered name = true) :
    ∃ way : List String, a.Climbs name way.length a.root ∧ (a.root :: way).Nodup ∧
      (∀ q ∈ way, a.isRegistered q = true ∧ q.length ≤ name.length) := by
  induction hlength : name.length using Nat.strongRecOn generalizing name with
  | ind length ih =>
    by_cases heq : name = a.root
    · exact ⟨[], heq ▸ .here _, by simp, by simp⟩
    · by_cases hparent : a.parentOf name = a.root
      · refine ⟨[name], .up heq (hparent ▸ .here _), ?_, ?_⟩
        · simpa using Ne.symm heq
        · simpa [hlength] using hname
      · have hlt := (inside_parentOf hparent).length_lt
        obtain ⟨way, hway, hnodup, hall⟩ :=
          ih _ (hlength ▸ hlt) (isRegistered_parentOf hroot name) rfl
        refine ⟨name :: way, .up heq hway, ?_, ?_⟩
        · -- the modules above are shorter than this one
          have hnot : name ∉ way := fun hmem => by
            have hle := (hall name hmem).2
            omega
          simp only [List.nodup_cons, List.mem_cons, not_or] at hnodup ⊢
          exact ⟨⟨Ne.symm heq, hnodup.1⟩, hnot, hnodup.2⟩
        · refine List.forall_mem_cons.mpr ⟨⟨hname, Nat.le_of_eq hlength⟩, fun q hq => ?_⟩
          have hle := (hall q hq).2
          exact ⟨(hall q hq).1, by omega⟩

/-- **From every module the root is reached in fewer steps than there are modules.** -/
theorem exists_climbs_lt (h : a.WellIndexed) (hroot : a.isRegistered a.root = true)
    (hname : a.isRegistered name = true) : ∃ n < a.modules.length, a.Climbs name n a.root := by
  obtain ⟨way, hway, hnodup, hall⟩ := exists_climbs_root hroot hname
  refine ⟨way.length, ?_, hway⟩
  have hsubset : a.root :: way ⊆ a.modules.map ModuleState.name :=
    List.cons_subset.mpr
      ⟨h.isRegistered_iff.mp hroot, fun q hq => h.isRegistered_iff.mp (hall q hq).1⟩
  simpa [Nat.succ_le_iff] using hnodup.length_le_of_subset hsubset

end Analysis
end PackageDoc
