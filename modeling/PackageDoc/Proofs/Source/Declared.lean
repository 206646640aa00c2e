import PackageDoc.Source.Encoding
import Mathlib.Data.List.Basic
import Mathlib.Data.List.TakeWhile

namespace PackageDoc

/-!
# Declarations of encodings

A comment declares an encoding at the leftmost place where the word `coding` leads to a name.  What is
looked at is the first place where the word stands at all, whether it leads to a name or not.

* `LeadsTo` — bytes that begin with the word, a separator and a name;
* `DeclaresName` and `NamesAtFirst` — a line that declares a name, and one that does so where the word
  stands first;
* `IsDeclared` — the name that a source declares on its first line, or on its second;
* `codingName?_eq_some_iff` and `declaredEncoding?_eq_some_iff` — what is found in a line, and in a
  source;
* `ShowsName` and `declaredEncoding?_iff` — when the declared name is found.
-/

/-! ### Where the word stands -/

/-- The word in front of the name of an encoding. -/
def codingWord : List UInt8 :=
  Text.asciiBytes "coding".toList

/-- The blanks in a declaration: a space, a tab or a form feed. -/
def IsBlankByte (b : UInt8) : Prop :=
  b = 0x20 ∨ b = 0x09 ∨ b = 0x0c

/-- The name that bytes write. -/
def nameOfBytes (bs : List UInt8) : String :=
  String.ofList (bs.map fun b => Char.ofNat b.toNat)

/-- The bytes begin with the word, `:` or `=`, blanks and a name as long as possible. -/
def LeadsTo (bs : List UInt8) (name : String) : Prop :=
  ∃ sep gap word behind, bs = codingWord ++ sep :: (gap ++ (word ++ behind)) ∧
    (sep = 0x3a ∨ sep = 0x3d) ∧ (∀ b ∈ gap, IsBlankByte b) ∧ word ≠ [] ∧
    (∀ b ∈ word, isNameByte b = true) ∧ (∀ b ∈ behind.head?, isNameByte b = false) ∧
    name = nameOfBytes word

/-- The line is a comment, and `text` stands behind its `#`. -/
def IsCommentOf (line text : List UInt8) : Prop :=
  ∃ lead, line = lead ++ 0x23 :: text ∧ ∀ b ∈ lead, IsBlankByte b

/-- The line is blank, but for the carriage return that may end it. -/
def IsBlankLine (line : List UInt8) : Prop :=
  ∃ lead, (∀ b ∈ lead, IsBlankByte b) ∧ (line = lead ∨ line = lead ++ [0x0d])

/-- The line declares a name: that of the leftmost place where the word leads to one. -/
def DeclaresName (line : List UInt8) (name : String) : Prop :=
  ∃ text i, IsCommentOf line text ∧ LeadsTo (text.drop i) name ∧
    ∀ j < i, ∀ other, ¬LeadsTo (text.drop j) other

/-- The line declares a name where the word stands first. -/
def NamesAtFirst (line : List UInt8) (name : String) : Prop :=
  ∃ text i, IsCommentOf line text ∧ LeadsTo (text.drop i) name ∧
    ∀ j < i, ¬codingWord <+: text.drop j

/-- The source declares a name: on its first line, or on the second below a blank line or a comment
    that declares none. -/
def IsDeclared (body : List UInt8) (name : String) : Prop :=
  ∃ first more, body.splitOn 0x0a = first :: more ∧
    (DeclaresName first name ∨
      (∀ other, ¬DeclaresName first other) ∧ (IsBlankLine first ∨ ∃ text, IsCommentOf first text) ∧
        ∃ second ∈ more.head?, DeclaresName second name)

/-! ### Blanks -/

section Blanks

variable {line lead text rest : List UInt8} {b : UInt8}

/-- Blanks are spaces, tabs and form feeds. -/
theorem isBlankByte_iff :
    IsBlankByte b ↔ (b == 0x20 || b == 0x09 || b == 0x0c) = true := by
  simp [IsBlankByte, or_assoc]

/-- Blanks in front are trimmed. -/
theorem trimBlanks_append (h : ∀ b ∈ lead, IsBlankByte b) (rest : List UInt8) :
    trimBlanks (lead ++ rest) = trimBlanks rest :=
  List.dropWhile_append_of_pos fun b hb => isBlankByte_iff.mp (h b hb)

/-- Nothing but blanks is trimmed. -/
theorem exists_trimBlanks (line : List UInt8) :
    ∃ lead, line = lead ++ trimBlanks line ∧ ∀ b ∈ lead, IsBlankByte b := by
  refine ⟨_, List.takeWhile_append_dropWhile.symm, fun b hb => ?_⟩
  have hblank := List.mem_takeWhile_imp hb
  exact isBlankByte_iff.mpr hblank

/-- What is left of a line begins with no blank. -/
theorem trimBlanks_eq_self (h : ∀ b ∈ line.head?, ¬IsBlankByte b) : trimBlanks line = line := by
  cases line with
  | nil => rfl
  | cons b bs =>
    have hb := h b rfl
    rw [isBlankByte_iff] at hb
    exact List.dropWhile_cons_of_neg hb

/-- A line is a comment when a `#` is left in front after trimming. -/
theorem isCommentOf_iff : IsCommentOf line text ↔ trimBlanks line = 0x23 :: text := by
  constructor
  · rintro ⟨lead, rfl, hlead⟩
    rw [trimBlanks_append hlead, trimBlanks_eq_self]
    rintro _ ⟨⟩
    simp [IsBlankByte]
  · intro h
    obtain ⟨lead, hline, hlead⟩ := exists_trimBlanks line
    exact ⟨lead, h ▸ hline, hlead⟩

/-- A line is blank when nothing is left but a carriage return. -/
theorem isBlankLine_iff : IsBlankLine line ↔ trimBlanks line = [] ∨ trimBlanks line = [0x0d] := by
  constructor
  · rintro ⟨lead, hlead, rfl | rfl⟩
    · have hnil := trimBlanks_append hlead []
      rw [List.append_nil] at hnil
      exact .inl hnil
    · exact .inr (trimBlanks_append hlead _)
  · obtain ⟨lead, hline, hlead⟩ := exists_trimBlanks line
    rintro (h | h)
    · exact ⟨lead, hlead, .inl (by rw [h, List.append_nil] at hline; exact hline)⟩
    · exact ⟨lead, hlead, .inr (h ▸ hline)⟩

end Blanks

/-! ### What is found in a line -/

/-- The name that bytes behind the word lead to. -/
def nameBehind? : List UInt8 → Option String
  | [] => none
  | sep :: rest =>
    let name := (trimBlanks rest).takeWhile isNameByte
    if (sep == 0x3a || sep == 0x3d) && !name.isEmpty then some (nameOfBytes name) else none

section Lines

variable {word text rest behind line bs : List UInt8} {name other : String} {i : Nat}

/-- A blank is no part of the name of an encoding. -/
theorem not_isNameByte_of_blank {b : UInt8} (h : IsBlankByte b) : isNameByte b = false := by
  rcases h with rfl | rfl | rfl <;> decide

/-- The word leads to a name exactly when one is read behind it. -/
theorem leadsTo_append_iff : LeadsTo (codingWord ++ behind) name ↔ nameBehind? behind = some name := by
  constructor
  · rintro ⟨sep, gap, word, more, hbehind, hsep, hgap, hne, hword, hmore, rfl⟩
    obtain rfl := List.append_cancel_left hbehind
    -- blanks are no part of a name, so the blanks and the name end where the code ends them
    have htrim : trimBlanks (gap ++ (word ++ more)) = word ++ more := by
      rw [trimBlanks_append hgap, trimBlanks_eq_self]
      intro b hb hblank
      rw [List.head?_append_of_ne_nil _ hne] at hb
      have hname := hword b (List.mem_of_mem_head? hb)
      rw [not_isNameByte_of_blank hblank] at hname
      cases hname
    have hmore' : more.takeWhile isNameByte = [] := by
      cases more with
      | nil => rfl
      | cons b bs => simp [hmore b rfl]
    have htake : (word ++ more).takeWhile isNameByte = word := by
      rw [List.takeWhile_append_of_pos hword, hmore', List.append_nil]
    rw [nameBehind?, htrim, htake]
    simp [hsep, hne]
  · intro h
    cases behind with
    | nil => cases h
    | cons sep rest =>
      rw [nameBehind?] at h
      obtain ⟨hcond, hname⟩ := Option.ite_none_right_eq_some.mp h
      simp only [Bool.and_eq_true, Bool.or_eq_true, beq_iff_eq, Bool.not_eq_true',
        List.isEmpty_eq_false_iff] at hcond
      obtain ⟨gap, hrest, hgap⟩ := exists_trimBlanks rest
      refine ⟨sep, gap, (trimBlanks rest).takeWhile isNameByte,
        (trimBlanks rest).dropWhile isNameByte, ?_, hcond.1, hgap, hcond.2,
        fun b hb => List.mem_takeWhile_imp hb, fun b hb => ?_, (Option.some.inj hname).symm⟩
      · rw [List.takeWhile_append_dropWhile, ← hrest]
      · have hnot := List.head?_dropWhile_not isNameByte (trimBlanks rest)
        rw [Option.mem_def.mp hb] at hnot
        simpa using hnot

/-- The bytes behind a word are those behind the first place where it stands. -/
theorem afterWord?_eq_some_iff (hword : word ≠ []) : afterWord? word text = some rest ↔
    ∃ i, text.drop i = word ++ rest ∧ ∀ j < i, ¬word <+: text.drop j := by
  induction text with
  | nil =>
    constructor
    · intro h
      cases h
    · rintro ⟨i, hrest, -⟩
      rw [List.drop_nil] at hrest
      exact absurd (List.append_eq_nil_iff.mp hrest.symm).1 hword
  | cons b bs ih =>
    rw [afterWord?]
    split
    -- the word stands here, so that no other place is the first
    · rename_i hhere
      obtain ⟨more, hmore⟩ := List.isPrefixOf_iff_prefix.mp hhere
      constructor
      · intro h
        refine ⟨0, ?_, fun j hj => absurd hj (Nat.not_lt_zero j)⟩
        rw [← Option.some.inj h, ← hmore, List.drop_left, List.drop_zero]
      · rintro ⟨i, hrest, hfirst⟩
        cases i with
        | zero =>
          rw [List.drop_zero] at hrest
          rw [hrest, List.drop_left]
        | succ i => exact absurd ⟨more, hmore⟩ (hfirst 0 (Nat.succ_pos i))
    -- places in `bs` are one further in the whole
    · rename_i hhere
      have hnot : ¬word <+: b :: bs := fun h => hhere (List.isPrefixOf_iff_prefix.mpr h)
      rw [ih]
      constructor
      · rintro ⟨i, hrest, hfirst⟩
        refine ⟨i + 1, hrest, fun j hj => ?_⟩
        cases j with
        | zero => exact hnot
        | succ j => exact hfirst j (Nat.lt_of_succ_lt_succ hj)
      · rintro ⟨i, hrest, hfirst⟩
        cases i with
        | zero => exact absurd ⟨rest, hrest.symm⟩ hnot
        | succ i => exact ⟨i, hrest, fun j hj => hfirst (j + 1) (Nat.succ_lt_succ hj)⟩

/-- A line has one comment. -/
theorem isCommentOf_unique {text' : List UInt8} (h : IsCommentOf line text)
    (h' : IsCommentOf line text') : text = text' :=
  List.tail_eq_of_cons_eq ((isCommentOf_iff.mp h).symm.trans (isCommentOf_iff.mp h'))

/-- What leads to a name is the word, and the name behind it. -/
theorem leadsTo_iff :
    LeadsTo bs name ↔ ∃ behind, bs = codingWord ++ behind ∧ nameBehind? behind = some name := by
  constructor
  · intro h
    obtain ⟨sep, gap, word, more, hbs, -⟩ := id h
    exact ⟨_, hbs, leadsTo_append_iff.mp (hbs ▸ h)⟩
  · rintro ⟨behind, rfl, h⟩
    exact leadsTo_append_iff.mpr h

/-- So it begins with the word. -/
theorem LeadsTo.isPrefix (h : LeadsTo bs name) : codingWord <+: bs := by
  obtain ⟨behind, rfl, -⟩ := leadsTo_iff.mp h
  exact List.prefix_append _ _

/-- It leads to one name. -/
theorem LeadsTo.unique (h : LeadsTo bs name) (h' : LeadsTo bs other) : name = other := by
  obtain ⟨behind, rfl, hname⟩ := leadsTo_iff.mp h
  exact Option.some.inj (hname.symm.trans (leadsTo_append_iff.mp h'))

/-- A line declares one name at most. -/
theorem DeclaresName.unique (h : DeclaresName line name) (h' : DeclaresName line other) :
    name = other := by
  obtain ⟨text, i, hcomment, hleads, hfirst⟩ := h
  obtain ⟨text', i', hcomment', hleads', hfirst'⟩ := h'
  obtain rfl := isCommentOf_unique hcomment hcomment'
  rcases Nat.lt_trichotomy i i' with hlt | rfl | hlt
  · exact absurd hleads (hfirst' i hlt name)
  · exact hleads.unique hleads'
  · exact absurd hleads' (hfirst i' hlt other)

/-- A comment whose first word names an encoding declares it. -/
theorem NamesAtFirst.declaresName (h : NamesAtFirst line name) : DeclaresName line name := by
  obtain ⟨text, i, hcomment, hleads, hfirst⟩ := h
  exact ⟨text, i, hcomment, hleads, fun j hj _ hother => hfirst j hj hother.isPrefix⟩

/-- Only comments declare one. -/
theorem DeclaresName.isComment (h : DeclaresName line name) : ∃ text, IsCommentOf line text := by
  obtain ⟨text, _, hcomment, -⟩ := h
  exact ⟨text, hcomment⟩

/-- The name in a comment is looked for behind the first word. -/
theorem codingName?_of_isCommentOf (h : IsCommentOf line text) :
    codingName? line = (afterWord? codingWord text).bind nameBehind? := by
  rw [codingName?, isCommentOf_iff.mp h]
  refine Option.bind_congr fun rest _ => ?_
  cases rest <;> rfl

/-- It is looked for in comments alone. -/
theorem exists_isCommentOf_of_codingName? (h : codingName? line = some name) :
    ∃ text, IsCommentOf line text := by
  rw [codingName?] at h
  split at h
  · rename_i text htrim
    exact ⟨text, isCommentOf_iff.mpr htrim⟩
  · cases h

/-- What is found in a line is the name at the first place of the word. -/
theorem codingName?_eq_some_iff : codingName? line = some name ↔ NamesAtFirst line name := by
  have hword : codingWord ≠ [] := by decide
  constructor
  · intro h
    obtain ⟨text, hcomment⟩ := exists_isCommentOf_of_codingName? h
    rw [codingName?_of_isCommentOf hcomment] at h
    obtain ⟨rest, hrest, hname⟩ := Option.bind_eq_some_iff.mp h
    obtain ⟨i, hdrop, hfirst⟩ := (afterWord?_eq_some_iff hword).mp hrest
    exact ⟨text, i, hcomment, leadsTo_iff.mpr ⟨rest, hdrop, hname⟩, hfirst⟩
  · rintro ⟨text, i, hcomment, hleads, hfirst⟩
    obtain ⟨rest, hdrop, hname⟩ := leadsTo_iff.mp hleads
    rw [codingName?_of_isCommentOf hcomment,
      (afterWord?_eq_some_iff hword).mpr ⟨i, hdrop, hfirst⟩]
    exact hname

end Lines

/-! ### What is found in a source -/

section Sources

variable {body line rest first : List UInt8} {more : List (List UInt8)} {name : String}

/-- A line is cut off at the line feed. -/
theorem cutLine_append (h : 0x0a ∉ line) (rest : List UInt8) :
    cutLine (line ++ 0x0a :: rest) = (line, some rest) := by
  have htake : (line ++ 0x0a :: rest).takeWhile (fun b => b != 0x0a) = line := by
    rw [List.takeWhile_append_of_pos fun b hb => bne_iff_ne.mpr (ne_of_mem_of_not_mem hb h)]
    simp
  simp [cutLine, htake]

/-- A text without a line feed is one line. -/
theorem cutLine_eq_self (h : 0x0a ∉ line) : cutLine line = (line, none) := by
  have htake : line.takeWhile (fun b => b != 0x0a) = line :=
    List.takeWhile_eq_self_iff.mpr fun b hb => bne_iff_ne.mpr (ne_of_mem_of_not_mem hb h)
  simp [cutLine, htake]

/-- Splitting at line feeds begins with the first line. -/
theorem splitOn_append (h : 0x0a ∉ line) (rest : List UInt8) :
    (line ++ 0x0a :: rest).splitOn 0x0a = line :: rest.splitOn 0x0a := by
  have hsplit := List.splitOn_eq_singleton h
  rw [List.splitOn] at hsplit ⊢
  rw [List.splitOnP_append_cons _ _ (by decide), hsplit]
  rfl

/-- The first line is the one that is cut off. -/
theorem head?_splitOn (body : List UInt8) :
    (body.splitOn 0x0a).head? = some (cutLine body).1 := by
  by_cases hmem : 0x0a ∈ body
  · obtain ⟨line, rest, rfl, hline⟩ := List.eq_append_cons_of_mem hmem
    rw [splitOn_append hline, cutLine_append hline]
    rfl
  · rw [List.splitOn_eq_singleton hmem, cutLine_eq_self hmem]
    rfl

/-- The first two lines that are cut off are those of the text. -/
theorem cutLine_of_splitOn (h : body.splitOn 0x0a = first :: more) :
    (cutLine body).1 = first ∧ (cutLine body).2.map (fun rest => (cutLine rest).1) = more.head? := by
  by_cases hmem : 0x0a ∈ body
  · obtain ⟨line, rest, rfl, hline⟩ := List.eq_append_cons_of_mem hmem
    rw [splitOn_append hline] at h
    obtain ⟨rfl, rfl⟩ := List.cons.inj h
    rw [cutLine_append hline, head?_splitOn]
    exact ⟨rfl, rfl⟩
  · rw [List.splitOn_eq_singleton hmem] at h
    obtain ⟨rfl, rfl⟩ := List.cons.inj h
    rw [cutLine_eq_self hmem]
    exact ⟨rfl, rfl⟩

/-- The second line is read below a blank line or a comment. -/
theorem readsSecond_iff :
    ((trimBlanks first).isEmpty || (trimBlanks first).head? == some 0x23 ||
      trimBlanks first == [0x0d]) = true ↔
      IsBlankLine first ∨ ∃ text, IsCommentOf first text := by
  simp only [isBlankLine_iff, isCommentOf_iff, Bool.or_eq_true, List.isEmpty_iff, beq_iff_eq,
    List.head?_eq_some_iff]
  exact or_right_comm

/-- A name is found on the first line, or else on the second below a blank line or a comment. -/
theorem declaredEncoding?_eq_some_iff (h : body.splitOn 0x0a = first :: more) :
    declaredEncoding? body = some name ↔ NamesAtFirst first name ∨
      (∀ other, ¬NamesAtFirst first other) ∧ (IsBlankLine first ∨ ∃ text, IsCommentOf first text) ∧
        ∃ second ∈ more.head?, NamesAtFirst second name := by
  obtain ⟨hfirst, hsecond⟩ := cutLine_of_splitOn h
  simp only [← readsSecond_iff, ← codingName?_eq_some_iff, ← hsecond, ← hfirst]
  rw [declaredEncoding?]
  cases hname : codingName? (cutLine body).1 with
  | some found => simp [hname]
  | none => cases hrest : (cutLine body).2 <;> simp [hname, hrest]

/-! ### When the declared name is found -/

/-- An encoding is declared in the first line, or in the second behind a comment or a blank line. -/
theorem isDeclared_iff (h : body.splitOn 0x0a = first :: more) :
    IsDeclared body name ↔ DeclaresName first name ∨
      (∀ other, ¬DeclaresName first other) ∧ (IsBlankLine first ∨ ∃ text, IsCommentOf first text) ∧
        ∃ second ∈ more.head?, DeclaresName second name := by
  constructor
  · rintro ⟨first', more', h', hdeclares⟩
    obtain ⟨rfl, rfl⟩ := List.cons.inj (h.symm.trans h')
    exact hdeclares
  · exact fun hdeclares => ⟨first, more, h, hdeclares⟩

/-- The first two lines show the name that they declare: the word stands first in a declaration that
    counts, or the second line has the name of the first. -/
structure ShowsName (first : List UInt8) (more : List (List UInt8)) : Prop where
  onFirst : ∀ name, DeclaresName first name →
    NamesAtFirst first name ∨ ∃ second ∈ more.head?, NamesAtFirst second name
  onSecond : (∀ name, ¬DeclaresName first name) →
    (IsBlankLine first ∨ ∃ text, IsCommentOf first text) →
      ∀ second ∈ more.head?, ∀ name, DeclaresName second name → NamesAtFirst second name

/-- A name that stands on the first line is found there or on the second. -/
theorem ShowsName.found_of_declaresName (h : ShowsName first more)
    (hlines : body.splitOn 0x0a = first :: more) (hdeclares : DeclaresName first name) :
    declaredEncoding? body = some name := by
  rw [declaredEncoding?_eq_some_iff hlines]
  by_cases hnames : NamesAtFirst first name
  · exact .inl hnames
  · -- the first line would show no other name than the one that it declares
    refine .inr ⟨fun other hother => ?_, .inr hdeclares.isComment,
      (h.onFirst name hdeclares).resolve_left hnames⟩
    exact hnames (hdeclares.unique hother.declaresName ▸ hother)

/-- Where the first line declares none, it is found in the second exactly if it is shown there. -/
theorem ShowsName.found_iff_of_forall_not (h : ShowsName first more)
    (hlines : body.splitOn 0x0a = first :: more) (hnone : ∀ other, ¬DeclaresName first other) :
    declaredEncoding? body = some name ↔ IsDeclared body name := by
  rw [declaredEncoding?_eq_some_iff hlines, isDeclared_iff hlines]
  refine or_congr (iff_of_false (fun hnames => hnone name hnames.declaresName) (hnone name)) ?_
  constructor
  · rintro ⟨-, hblank, second, hsecond, hnames⟩
    exact ⟨hnone, hblank, second, hsecond, hnames.declaresName⟩
  · rintro ⟨-, hblank, second, hsecond, hdeclares⟩
    exact ⟨fun other hnames => hnone other hnames.declaresName, hblank, second, hsecond,
      h.onSecond hnone hblank second hsecond name hdeclares⟩

/-- A text of which every declared name is found shows its name. -/
theorem ShowsName.of_found (hlines : body.splitOn 0x0a = first :: more)
    (h : ∀ name, declaredEncoding? body = some name ↔ IsDeclared body name) :
    ShowsName first more where
  onFirst name hdeclares := by
    have hfound := (h name).mpr ((isDeclared_iff hlines).mpr (.inl hdeclares))
    obtain hnames | ⟨-, -, hsecond⟩ := (declaredEncoding?_eq_some_iff hlines).mp hfound
    · exact .inl hnames
    · exact .inr hsecond
  onSecond hnone hblank second hsecond name hdeclares := by
    have hfound := (h name).mpr
      ((isDeclared_iff hlines).mpr (.inr ⟨hnone, hblank, second, hsecond, hdeclares⟩))
    obtain hnames | ⟨-, -, second', hsecond', hnames⟩ :=
      (declaredEncoding?_eq_some_iff hlines).mp hfound
    · exact absurd hnames.declaresName (hnone name)
    · exact Option.mem_unique hsecond hsecond' ▸ hnames

/-- Of a text that shows its name exactly the declared name is found. -/
theorem ShowsName.found_iff (h : ShowsName first more) (hlines : body.splitOn 0x0a = first :: more) :
    declaredEncoding? body = some name ↔ IsDeclared body name := by
  by_cases hfirst : ∃ found, DeclaresName first found
  · obtain ⟨found, hdeclares⟩ := hfirst
    rw [h.found_of_declaresName hlines hdeclares, isDeclared_iff hlines]
    constructor
    · rintro ⟨⟩
      exact .inl hdeclares
    · rintro (hname | ⟨hnone, -⟩)
      · exact congrArg some (hdeclares.unique hname)
      · exact absurd hdeclares (hnone found)
  · exact h.found_iff_of_forall_not hlines fun other hother => hfirst ⟨other, hother⟩

/-- The name that a source declares is the one that is found, exactly when the first two lines show
    it. -/
theorem declaredEncoding?_iff (body : List UInt8) :
    (∀ name, declaredEncoding? body = some name ↔ IsDeclared body name) ↔
      ∃ first more, body.splitOn 0x0a = first :: more ∧ ShowsName first more := by
  constructor
  · intro h
    obtain ⟨first, more, hlines⟩ := List.exists_cons_of_ne_nil (List.splitOn_ne_nil 0x0a body)
    exact ⟨first, more, hlines, .of_found hlines h⟩
  · rintro ⟨first, more, hlines, h⟩ name
    exact h.found_iff hlines

end Sources

/-! ### A word in front of the declaration -/

/-- A comment about the style of the code, with a declaration behind it. -/
def styleComment : List UInt8 :=
  Text.asciiBytes "# coding style, coding: latin-1".toList

/-- The comment about style declares the encoding behind its comma. -/
theorem declaresName_styleComment : DeclaresName styleComment "latin-1" := by
  refine ⟨styleComment.tail, 15, ⟨[], rfl, by simp⟩, ?_, fun j hj other h => ?_⟩
  · exact leadsTo_iff.mpr ⟨Text.asciiBytes ": latin-1".toList, by decide +kernel, by decide +kernel⟩
  · -- at each place in front the word does not stand, or no name is read behind it
    have hnone : ∀ j < 15, ¬codingWord <+: styleComment.tail.drop j ∨
        nameBehind? (styleComment.tail.drop (j + codingWord.length)) = none := by decide +kernel
    obtain ⟨behind, hbehind, hname⟩ := leadsTo_iff.mp h
    rcases hnone j hj with hnot | hnot
    · exact hnot h.isPrefix
    · rw [← List.drop_drop, hbehind, List.drop_left, hname] at hnot
      cases hnot

/-- No name is found where the comment mentions the word before it declares one. -/
theorem declaredEncoding?_styleComment :
    IsDeclared (styleComment ++ [0x0a]) "latin-1" ∧
      declaredEncoding? (styleComment ++ [0x0a]) = none :=
  ⟨⟨styleComment, [[]], by decide +kernel, .inl declaresName_styleComment⟩, by decide +kernel⟩

end PackageDoc
