import PackageDoc.Docstring.Grammar
import PackageDoc.Proofs.Text.Words
import Mathlib.Data.List.TakeDrop

namespace PackageDoc

/-!
# How the lines of a docstring are divided

The lines of a docstring, the first without the roles that it begins with, are cut into those of the
description and blocks.  No line is lost, and a block reaches as far as it can.

* `DocBlock.Covers` — the lines that a block is made of;
* `DocBlock.Divided` — lines cut into blocks, each as long as possible;
* `Docstring.Divides` — the description and the blocks below it;
* `Docstring.exists_divides` — how a docstring is read.
-/

/-- A line that begins with a blank is no heading. -/
theorem Heading.ofLine?_of_indented {line : List Char} (h : 0 < indentWidth line) :
    Heading.ofLine? line = none := by
  have hspace : line.head?.any Text.isSpace = true := by
    cases line with
    | nil => exact absurd h (by decide)
    | cons c cs =>
      rw [indentWidth, List.takeWhile_cons] at h
      split at h
      · assumption
      · exact absurd h (by decide)
  rw [ofLine?, hspace]
  rfl

/-- A blank line is no heading. -/
theorem Heading.ofLine?_of_isBlank {line : List Char} (h : Text.isBlank line = true) :
    Heading.ofLine? line = none := by
  cases line with
  | nil => rfl
  | cons c cs =>
    rw [Text.isBlank, List.all_cons, Bool.and_eq_true] at h
    refine ofLine?_of_indented ?_
    rw [indentWidth, List.takeWhile_cons, if_pos h.1]
    exact Nat.succ_pos _

namespace DocBlock

/-- The lines that a block is made of, the first of which has the number `row`: text without
    headings, or a heading and lines that go on below it. -/
def Covers (row : Nat) (lines : List (List Char)) : DocBlock → Prop
  | text ls => lines = ls ∧ ls ≠ [] ∧ ∀ l ∈ ls, Heading.ofLine? l = none
  | headed heading place body => place = row ∧
    (∃ line, lines = line :: body ∧ Heading.ofLine? line = some heading) ∧
      ∀ l ∈ body, heading.kind.isInline = false ∧ (Text.isBlank l = true ∨ 0 < indentWidth l)

/-- Lines, the first of which has the number `row`, cut into blocks, none of which could take the
    line behind it. -/
inductive Divided : (row : Nat) → List DocBlock → List (List Char) → Prop
  | nil {row : Nat} : Divided row [] []
  | cons {row : Nat} {block : DocBlock} {lines : List (List Char)} {blocks : List DocBlock}
    {rest : List (List Char)} (covers : block.Covers row lines)
    (maximal : ∀ l ∈ rest.head?, block.takes l = false)
    (more : Divided (row + lines.length) blocks rest) :
    Divided row (block :: blocks) (lines ++ rest)

variable {row : Nat} {block : DocBlock} {blocks : List DocBlock} {line : List Char}
  {lines rest : List (List Char)}

/-! ### Cutting -/

/-- A section that begins covers its first line. -/
theorem covers_begin (row : Nat) (line : List Char) : (begin row line).Covers row [line] := by
  cases h : Heading.ofLine? line with
  | none =>
    rw [begin, h]
    exact ⟨rfl, List.cons_ne_nil _ _, List.forall_mem_singleton.mpr h⟩
  | some heading =>
    rw [begin, h]
    exact ⟨rfl, ⟨line, rfl, h⟩, fun l hl => absurd hl List.not_mem_nil⟩

/-- A block that takes a line is made of that line too. -/
theorem Covers.add (h : block.Covers row lines) (htakes : block.takes line = true) :
    (block.add line).Covers row (lines ++ [line]) := by
  cases block with
  | text ls =>
    obtain ⟨rfl, -, hls⟩ := h
    refine ⟨rfl, List.concat_ne_nil _ _, List.forall_mem_append.mpr ⟨hls, ?_⟩⟩
    exact List.forall_mem_singleton.mpr (by simpa [takes] using htakes)
  | headed heading place body =>
    obtain ⟨rfl, ⟨first, rfl, hfirst⟩, hbody⟩ := h
    refine ⟨rfl, ⟨first, rfl, hfirst⟩, List.forall_mem_append.mpr ⟨hbody, ?_⟩⟩
    exact List.forall_mem_singleton.mpr (by simpa [takes] using htakes)

/-- The lines that are left go on with the block that is not finished. -/
theorem divided_gather (h : block.Covers row lines) (rest : List (List Char)) :
    Divided row (gather block (row + lines.length) rest) (lines ++ rest) := by
  -- `lines` is what the open block has taken so far, whatever has been cut off before
  induction rest generalizing block row lines with
  | nil => exact .cons h (by simp) .nil
  | cons line rest ih =>
    rw [gather]
    split
    · rename_i htakes
      have hmore := ih (h.add htakes)
      rwa [List.length_append, List.append_assoc] at hmore
    · rename_i htakes
      refine .cons h ?_ (ih (covers_begin _ line))
      rintro l ⟨⟩
      simpa using htakes

/-! ### What blocks are made of -/

/-- The heading of a block. -/
def heading? : DocBlock → Option Heading
  | text _ => none
  | headed heading _ _ => some heading

/-- No line of a block but the first is a heading. -/
theorem Covers.filterMap_heading (h : block.Covers row lines) :
    lines.filterMap Heading.ofLine? = block.heading?.toList := by
  cases block with
  | text ls =>
    obtain ⟨rfl, -, hls⟩ := h
    exact List.filterMap_eq_nil_iff.mpr hls
  | headed heading place body =>
    obtain ⟨-, ⟨first, rfl, hfirst⟩, hbody⟩ := h
    have hnone : body.filterMap Heading.ofLine? = [] := by
      refine List.filterMap_eq_nil_iff.mpr fun l hl => ?_
      exact (hbody l hl).2.elim Heading.ofLine?_of_isBlank Heading.ofLine?_of_indented
    rw [List.filterMap_cons_some hfirst, hnone]
    rfl

/-- The headings among the lines are those of the blocks. -/
theorem Divided.filterMap_heading (h : Divided row blocks lines) :
    lines.filterMap Heading.ofLine? = blocks.filterMap heading? := by
  induction h with
  | nil => rfl
  | @cons row block lines blocks rest covers maximal more ih =>
    rw [List.filterMap_append, covers.filterMap_heading, ih]
    cases hheading : block.heading? with
    | none => rw [List.filterMap_cons_none hheading]; rfl
    | some heading => rw [List.filterMap_cons_some hheading]; rfl

/-- The lines below a heading stand where the block says. -/
theorem Divided.body_eq (h : Divided row blocks lines) {heading : Heading} {place : Nat}
    {body : List (List Char)} (hmem : headed heading place body ∈ blocks) :
    row ≤ place ∧ body = (lines.drop (place + 1 - row)).take body.length := by
  induction h with
  | nil => exact absurd hmem List.not_mem_nil
  | @cons row block lines blocks rest covers maximal more ih =>
    rcases List.mem_cons.mp hmem with rfl | hmem
    · obtain ⟨rfl, ⟨first, rfl, -⟩, -⟩ := covers
      refine ⟨Nat.le_refl _, ?_⟩
      rw [Nat.add_sub_cancel_left, List.cons_append, List.drop_succ_cons, List.drop_zero,
        List.take_left]
    · obtain ⟨hle, hbody⟩ := ih hmem
      have hdrop : place + 1 - row = lines.length + (place + 1 - (row + lines.length)) := by omega
      rw [hdrop, List.drop_length_add_append]
      exact ⟨by omega, hbody⟩

end DocBlock

/-! ### Docstrings -/

namespace Docstring

/-- The lines of a docstring, the first without the roles that it begins with. -/
def bareLines : List (List Char) → List (List Char)
  | [] => []
  | first :: rest => (takeRoles first).2 :: rest

/-- Taking the roles off the first line leaves the others as they are. -/
theorem drop_bareLines (lines : List (List Char)) (n : Nat) :
    (bareLines lines).drop (n + 1) = lines.drop (n + 1) := by
  cases lines <;> rfl

/-- Lines divided into a description, in which there is no heading, and blocks, the first of which
    begins with the first heading. -/
structure Divides (lines description : List (List Char)) (blocks : List DocBlock) : Prop where
  plain : ∀ l ∈ description, Heading.ofLine? l = none
  divided : ∃ below, lines = description ++ below ∧
    (∀ l ∈ below.head?, (Heading.ofLine? l).isSome) ∧
      DocBlock.Divided description.length blocks below

variable {lines description : List (List Char)} {blocks : List DocBlock}

/-- The headings among the lines are those of the blocks. -/
theorem Divides.filterMap_heading (h : Divides lines description blocks) :
    lines.filterMap Heading.ofLine? = blocks.filterMap DocBlock.heading? := by
  obtain ⟨below, rfl, -, hbelow⟩ := h.divided
  rw [List.filterMap_append, List.filterMap_eq_nil_iff.mpr h.plain, hbelow.filterMap_heading,
    List.nil_append]

/-- The lines below a heading stand where the block says. -/
theorem Divides.body_eq (h : Divides lines description blocks) {heading : Heading} {place : Nat}
    {body : List (List Char)} (hmem : DocBlock.headed heading place body ∈ blocks) :
    body = (lines.drop (place + 1)).take body.length := by
  obtain ⟨below, rfl, -, hbelow⟩ := h.divided
  obtain ⟨hle, hbody⟩ := hbelow.body_eq hmem
  have hdrop : place + 1 = description.length + (place + 1 - description.length) := by omega
  rw [hdrop, List.drop_length_add_append]
  exact hbody

/-- Reading a description adds no section. -/
theorem withDescription_sections (kind : DocstringKind) (doc : Docstring)
    (lines : List (List Char)) : (doc.withDescription kind lines).sections = doc.sections := by
  unfold withDescription
  split <;> rfl

/-- Nor does it add an issue. -/
theorem withDescription_issues (kind : DocstringKind) (doc : Docstring)
    (lines : List (List Char)) : (doc.withDescription kind lines).issues = doc.issues := by
  unfold withDescription
  split <;> rfl

/-- Lines up to the first heading, and the lines from there on. -/
theorem span_headings {lines description below : List (List Char)}
    (h : lines.span (fun l => (Heading.ofLine? l).isNone) = (description, below)) :
    lines = description ++ below ∧ (∀ l ∈ description, Heading.ofLine? l = none) ∧
      ∀ l ∈ below.head?, (Heading.ofLine? l).isSome := by
  rw [List.span_eq_takeWhile_dropWhile] at h
  obtain ⟨rfl, rfl⟩ := Prod.mk.inj h
  refine ⟨List.takeWhile_append_dropWhile.symm, fun l hl => ?_, fun l hl => ?_⟩
  · have hnone := List.mem_takeWhile_imp hl
    exact Option.isNone_iff_eq_none.mp hnone
  · have hnot := List.head?_dropWhile_not (fun l => (Heading.ofLine? l).isNone) lines
    rw [Option.mem_def.mp hl] at hnot
    simpa using hnot

/-- **How a docstring is read.**  Its lines are divided; the description is read from the lines in
    front of the blocks, the sections and issues from the blocks. -/
theorem exists_divides [YamlReader] (kind : DocstringKind) (lines : List (List Char)) :
    ∃ roles description blocks, Divides (bareLines lines) description blocks ∧
      ofLines kind lines =
        { Docstring.withDescription kind { roles := roles } description with
          sections := (DocBlock.allSections kind blocks).1
          issues := (DocBlock.allSections kind blocks).2 } := by
  cases lines with
  | nil =>
    refine ⟨[], [], [], ⟨fun l hl => absurd hl List.not_mem_nil, [], rfl, by simp, .nil⟩, rfl⟩
  | cons first rest =>
    obtain ⟨description, below, hspan⟩ : ∃ description below,
        (bareLines (first :: rest)).span (fun l => (Heading.ofLine? l).isNone) =
          (description, below) := ⟨_, _, rfl⟩
    obtain ⟨hlines, hplain, hheading⟩ := span_headings hspan
    rw [bareLines] at hspan
    refine ⟨(takeRoles first).1, description, ?_⟩
    rw [ofLines]
    dsimp only
    rw [hspan]
    cases below with
    | nil =>
      -- without a heading nothing is cut into blocks, which leaves no sections and no issues
      refine ⟨[], ⟨hplain, [], hlines, hheading, .nil⟩, ?_⟩
      have hnone : ∀ doc : Docstring, doc.sections = [] → doc.issues = [] →
          doc = { doc with sections := [], issues := [] } := by
        rintro ⟨⟩ rfl rfl
        rfl
      exact hnone _ (withDescription_sections kind _ _) (withDescription_issues kind _ _)
    | cons line below =>
      exact ⟨_, ⟨hplain, line :: below, hlines, hheading,
        DocBlock.divided_gather (DocBlock.covers_begin _ line) below⟩, rfl⟩

end Docstring
end PackageDoc
