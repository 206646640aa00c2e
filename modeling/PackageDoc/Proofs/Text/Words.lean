import PackageDoc.Proofs.Text.Blanks
import Mathlib.Data.List.TakeWhile

namespace PackageDoc.Text

/-!
# Words

The words of a text are what stands between its blanks.  Removing blanks at the ends of a text and
joining texts with blanks keeps the words.

* `words` — the words of a text;
* `words_append_blank` — a blank between two texts keeps their words apart;
* `words_dropWhile` — blanks at an end of a text do not matter;
* `words_join` — texts joined with blanks.
-/

/-- The words of a text: its longest pieces without blanks. -/
def words (cs : List Char) : List (List Char) :=
  (cs.splitOnP isSpace).filter fun w => !w.isEmpty

variable {c : Char} {cs ds : List Char}

@[simp] theorem words_nil : words [] = [] := rfl

/-- A blank keeps the words before and behind it apart. -/
theorem words_append_blank (hc : isSpace c = true) (cs ds : List Char) :
    words (cs ++ c :: ds) = words cs ++ words ds := by
  rw [words, List.splitOnP_append_cons cs ds hc, List.filter_append, words, words]

/-- A blank in front is no part of a word. -/
theorem words_cons_blank (hc : isSpace c = true) (cs : List Char) : words (c :: cs) = words cs :=
  words_append_blank hc [] cs

/-- Nor are several. -/
theorem words_blank_append (h : isBlank cs = true) (ds : List Char) :
    words (cs ++ ds) = words ds := by
  induction cs with
  | nil => rfl
  | cons c cs ih =>
    rw [isBlank, List.all_cons, Bool.and_eq_true] at h
    rw [List.cons_append, words_cons_blank h.1, ih h.2]

/-- Blanks alone have no words. -/
theorem words_of_isBlank (h : isBlank cs = true) : words cs = [] := by
  have hwords : words (cs ++ []) = words [] := words_blank_append h []
  rwa [List.append_nil] at hwords

/-- Blanks behind a text add none. -/
theorem words_append_isBlank (cs : List Char) (h : isBlank ds = true) :
    words (cs ++ ds) = words cs := by
  cases ds with
  | nil => rw [List.append_nil]
  | cons d ds =>
    rw [isBlank, List.all_cons, Bool.and_eq_true] at h
    rw [words_append_blank h.1, words_of_isBlank h.2, List.append_nil]

/-! ### Blanks at the ends -/

variable {p : Char → Bool}

/-- A run of blanks is blank. -/
theorem isBlank_takeWhile (hp : ∀ c, p c = true → isSpace c = true) (cs : List Char) :
    isBlank (cs.takeWhile p) = true :=
  List.all_eq_true.mpr fun c hc => hp c (List.mem_takeWhile_imp hc)

/-- Blanks before a text do not matter. -/
theorem words_dropWhile (hp : ∀ c, p c = true → isSpace c = true) (cs : List Char) :
    words (cs.dropWhile p) = words cs := by
  have hcs : words (cs.takeWhile p ++ cs.dropWhile p) = words (cs.dropWhile p) :=
    words_blank_append (isBlank_takeWhile hp cs) _
  rw [List.takeWhile_append_dropWhile] at hcs
  exact hcs.symm

/-- Blanks behind a text do not matter. -/
theorem words_reverse_dropWhile (hp : ∀ c, p c = true → isSpace c = true) (cs : List Char) :
    words (cs.reverse.dropWhile p).reverse = words cs := by
  have hblank : isBlank (cs.reverse.takeWhile p).reverse = true := by
    rw [isBlank, List.all_reverse]
    exact isBlank_takeWhile hp _
  have hcs := words_append_isBlank (cs.reverse.dropWhile p).reverse hblank
  rw [← List.reverse_append, List.takeWhile_append_dropWhile, List.reverse_reverse] at hcs
  exact hcs.symm

/-- Trimming in front leaves the words. -/
@[simp] theorem words_trimStart (cs : List Char) : words (trimStart cs) = words cs :=
  words_dropWhile (fun _ h => h) cs

/-- So does trimming at the end. -/
@[simp] theorem words_trimEnd (cs : List Char) : words (trimEnd cs) = words cs :=
  words_reverse_dropWhile (fun _ h => h) cs

/-- So does trimming at both. -/
@[simp] theorem words_trim (cs : List Char) : words (trim cs) = words cs := by
  rw [trim, words_trimEnd, words_trimStart]

/-- Nothing is left of a text exactly when it is blank. -/
theorem trim_eq_nil_iff : trim cs = [] ↔ isBlank cs = true := by
  rw [trim, trimEnd, List.reverse_eq_nil_iff, List.dropWhile_eq_nil_iff, isBlank, List.all_eq_true]
  constructor
  · intro h c hc
    by_contra hspace
    rw [← @List.takeWhile_append_dropWhile _ isSpace cs] at hc
    rcases List.mem_append.mp hc with hc | hc
    · exact hspace (List.mem_takeWhile_imp hc)
    · exact hspace (h c (List.mem_reverse.mpr hc))
  · intro h c hc
    exact h c ((List.dropWhile_suffix _).subset (List.mem_reverse.mp hc))

/-- Nothing is left of blanks alone. -/
@[simp] theorem isEmpty_trim (cs : List Char) : (trim cs).isEmpty = isBlank cs := by
  rw [Bool.eq_iff_iff, List.isEmpty_iff, trim_eq_nil_iff]

/-! ### Joined texts -/

/-- Texts joined with blanks are blank where all of them are. -/
theorem isBlank_join {sep : List Char} (hsep : isBlank sep = true) (pieces : List (List Char)) :
    isBlank (join sep pieces) = pieces.all isBlank := by
  induction pieces with
  | nil => rfl
  | cons piece pieces ih =>
    cases pieces with
    | nil => rw [join, List.all_cons, List.all_nil, Bool.and_true]
    | cons piece' pieces =>
      rw [isBlank] at hsep ih
      rw [join, isBlank, List.all_append, List.all_append, hsep, ih, Bool.and_true]
      · rfl
      · exact fun h => List.cons_ne_nil _ _ h

/-- Joining texts with blanks keeps their words. -/
theorem words_join {sep : List Char} (hne : sep ≠ []) (hsep : isBlank sep = true)
    (pieces : List (List Char)) : words (join sep pieces) = pieces.flatMap words := by
  have hbetween : ∀ cs ds, words (cs ++ sep ++ ds) = words cs ++ words ds := by
    intro cs ds
    cases sep with
    | nil => exact absurd rfl hne
    | cons c sep =>
      rw [isBlank, List.all_cons, Bool.and_eq_true] at hsep
      rw [List.append_assoc, List.cons_append, words_append_blank hsep.1,
        words_blank_append hsep.2]
  induction pieces with
  | nil => rfl
  | cons piece pieces ih =>
    cases pieces with
    | nil => rw [join, List.flatMap_cons, List.flatMap_nil, List.append_nil]
    | cons piece' pieces =>
      have hjoin : join sep ([piece] ++ piece' :: pieces) = _ :=
        join_append (List.cons_ne_nil _ _) (List.cons_ne_nil _ _)
      rw [List.singleton_append] at hjoin
      rw [hjoin, hbetween, ih, List.flatMap_cons]
      rfl

end PackageDoc.Text
