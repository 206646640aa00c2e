import PackageDoc.Text.Space
import Mathlib.Data.List.Basic

namespace PackageDoc.Text

/-!
# Blanks at the ends of a text

* `trim_eq_self_iff` — a text that has no blanks at its ends;
* `exists_trim` — blanks are removed at the ends only;
* `trim_trim` — and all of them at once.
-/

variable {c : Char} {cs : List Char}

/-- A space in front is trimmed. -/
@[simp] theorem trimStart_blank (cs : List Char) : trimStart (' ' :: cs) = trimStart cs := rfl

/-- Anything but a blank is kept. -/
theorem trimStart_cons (hc : isSpace c = false) : trimStart (c :: cs) = c :: cs := by
  simp [trimStart, hc]

/-- Nothing is trimmed exactly where no blank is in front. -/
theorem trimStart_eq_self_iff : trimStart cs = cs ↔ ∀ c ∈ cs.head?, isSpace c = false := by
  cases cs with
  | nil => simp [trimStart]
  | cons c cs =>
    cases hc : isSpace c with
    | false => simp [trimStart, hc]
    | true =>
      have hshort : (trimStart cs).length ≤ cs.length := (List.dropWhile_suffix _).length_le
      have hne : trimStart (c :: cs) ≠ c :: cs := fun h => by
        have hlength := congrArg List.length h
        rw [trimStart, List.dropWhile_cons, if_pos hc, List.length_cons] at hlength
        rw [trimStart] at hshort
        omega
      simp [hne, hc]

/-- So it is at the end. -/
theorem trimEnd_eq_self_iff : trimEnd cs = cs ↔ ∀ c ∈ cs.getLast?, isSpace c = false := by
  rw [← List.head?_reverse, ← trimStart_eq_self_iff, trimStart, trimEnd, List.reverse_eq_iff]

/-- A text is trimmed where it neither begins nor ends with a blank. -/
theorem trim_eq_self_iff : trim cs = cs ↔
    (∀ c ∈ cs.head?, isSpace c = false) ∧ ∀ c ∈ cs.getLast?, isSpace c = false := by
  rw [← trimStart_eq_self_iff, ← trimEnd_eq_self_iff]
  constructor
  · intro h
    -- a text that has lost nothing at both ends has lost nothing at either
    have hsuffix : trimStart cs <:+ cs := List.dropWhile_suffix _
    have hprefix : trim cs <+: trimStart cs := by
      rw [trim, trimEnd, ← List.reverse_suffix, List.reverse_reverse]
      exact List.dropWhile_suffix _
    have hstart : trimStart cs = cs := hsuffix.eq_of_length <|
      Nat.le_antisymm hsuffix.length_le (by simpa [h] using hprefix.length_le)
    rw [trim, hstart] at h
    exact ⟨hstart, h⟩
  · rintro ⟨hstart, hend⟩
    rw [trim, hstart, hend]

/-- Nothing is removed from a trimmed text behind something that does not begin with a blank. -/
theorem trim_append {ds : List Char} (hne : cs ≠ []) (hcs : ∀ c ∈ cs.head?, isSpace c = false)
    (hds : trim ds = ds) (hfilled : ds ≠ []) : trim (cs ++ ds) = cs ++ ds := by
  rw [trim_eq_self_iff, List.head?_append_of_ne_nil _ hne, List.getLast?_append_of_ne_nil _ hfilled]
  exact ⟨hcs, (trim_eq_self_iff.mp hds).2⟩

/-- What is removed at the ends is blank. -/
theorem exists_trim_isBlank (cs : List Char) :
    ∃ left right, isBlank left = true ∧ isBlank right = true ∧ cs = left ++ trim cs ++ right := by
  have hblank (cs : List Char) : isBlank (cs.takeWhile isSpace) = true := List.all_takeWhile
  refine ⟨cs.takeWhile isSpace, ((trimStart cs).reverse.takeWhile isSpace).reverse, hblank cs,
    ?_, ?_⟩
  · rw [isBlank, List.all_reverse]
    exact hblank _
  · rw [trim, trimEnd, List.append_assoc, ← List.reverse_append, List.takeWhile_append_dropWhile,
      List.reverse_reverse, trimStart, List.takeWhile_append_dropWhile]

/-- Blanks are removed at the ends only. -/
theorem exists_trim (cs : List Char) : ∃ left right, cs = left ++ trim cs ++ right := by
  obtain ⟨left, right, -, -, hcs⟩ := exists_trim_isBlank cs
  exact ⟨left, right, hcs⟩

/-- Blanks in front of a text are trimmed with those of the text. -/
theorem trimStart_append_left {left : List Char} (h : isBlank left = true) (cs : List Char) :
    trimStart (left ++ cs) = trimStart cs :=
  List.dropWhile_append_of_pos (List.all_eq_true.mp h)

/-- So are those behind one. -/
theorem trimEnd_append_right (cs : List Char) {right : List Char} (h : isBlank right = true) :
    trimEnd (cs ++ right) = trimEnd cs := by
  rw [trimEnd, List.reverse_append, List.dropWhile_append_of_pos, trimEnd]
  exact fun c hc => List.all_eq_true.mp h c (List.mem_reverse.mp hc)

/-- They make no difference to what is left. -/
theorem trim_append_right (cs : List Char) {right : List Char} (h : isBlank right = true) :
    trim (cs ++ right) = trim cs := by
  rw [trim, trim, trimStart, List.dropWhile_append]
  split
  · rename_i hcs
    have hright : right.dropWhile isSpace = [] := by
      have hall := trimStart_append_left h []
      rwa [List.append_nil] at hall
    rw [hright, trimStart, List.isEmpty_iff.mp hcs]
  · exact trimEnd_append_right _ h

/-- Trimming twice is trimming once. -/
theorem trim_trim (cs : List Char) : trim (trim cs) = trim cs := by
  have hfirst (cs : List Char) : ∀ c ∈ (cs.dropWhile isSpace).head?, isSpace c = false := by
    intro c hc
    have hnot := List.head?_dropWhile_not isSpace cs
    rw [Option.mem_def.mp hc] at hnot
    simpa using hnot
  rw [trim_eq_self_iff]
  constructor
  · -- what is left of the blanks in front begins as it did
    intro c hc
    have hprefix : trim cs <+: trimStart cs := by
      rw [trim, trimEnd, ← List.reverse_suffix, List.reverse_reverse]
      exact List.dropWhile_suffix _
    obtain ⟨more, hmore⟩ := hprefix
    refine hfirst cs c ?_
    show c ∈ (trimStart cs).head?
    rw [← hmore, List.head?_append, Option.mem_def.mp hc, Option.some_or]
    rfl
  · intro c hc
    rw [trim, trimEnd, List.getLast?_reverse] at hc
    exact hfirst _ c hc

end PackageDoc.Text
