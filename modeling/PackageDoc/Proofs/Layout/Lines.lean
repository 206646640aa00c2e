import Mathlib.Data.List.DropRight
import PackageDoc.Syntax.StmtGrammar

namespace PackageDoc

/-!
# Logical lines

Where the logical lines of a text begin, at which columns, and how a list of tokens is laid out in
blocks.

* `Text.column` — the column that the blanks before a place lead to;
* `lineStarts` and `lastLineStart` — where logical lines begin;
* `Layout.step` — what a token does to the open line and to the columns of the enclosing blocks;
  it fails on a token that cannot stand there;
* `WellLaid` — tokens in their order that can all stand where they do;
* `Stands` — the layout at a place in a list of tokens.
-/

/-! ### Columns -/

namespace Text

/-- The characters that begin before a byte offset. -/
def before : (offset : Nat) → List Char → List Char
  | 0, _ => []
  | _ + 1, [] => []
  | n + 1, c :: cs => c :: before (n + 1 - c.utf8Size) cs

/-- The column that the blanks before a byte offset lead to. -/
def column (source : List Char) (offset : Nat) : Nat :=
  (spanIndent 0 ((before offset source).rtakeWhile isGap)).1

end Text

/-! ### Logical lines -/

/-- Is the token a part of a statement, and so neither layout nor a comment? -/
def TokenKind.isContent : TokenKind → Bool
  | eof | newline | blankLine | indent | dedent | comment => false
  | _ => true

/-- Where the logical lines in a list of tokens begin.  The flag tells whether a line is open. -/
def lineStarts (isOpen : Bool) : List Token → List Nat
  | [] => []
  | t :: ts =>
    if t.kind.isContent then
      if isOpen then lineStarts true ts else t.span.start :: lineStarts true ts
    else lineStarts (isOpen && t.kind != .newline) ts

/-- Where the logical line begins that holds the token at an offset. -/
def lastLineStart (tokens : List Token) (offset : Nat) : Nat :=
  ((lineStarts false tokens).filter (· ≤ offset)).getLastD 0

/-! ### Layout -/

/-- What is open between two tokens. -/
structure Layout where
  /-- Where the open logical line begins. -/
  line : Option Nat := none
  /-- The columns of the enclosing blocks, innermost first. -/
  columns : List Nat := [0]

namespace Layout

/-- The layout after a token, when the token can stand there. -/
def step (column : Nat → Nat) (l : Layout) (t : Token) : Option Layout :=
  match l.line with
  | some _ =>
    if t.kind = .newline then some { l with line := none }
    else if t.kind.isContent || t.kind = .comment then some l
    else none
  | none =>
    if t.kind.isContent then
      if column t.span.start = l.columns.headD 0 then some { l with line := some t.span.start }
      else none
    else match t.kind with
      | .comment | .blankLine => some l
      | .indent =>
        if l.columns.headD 0 < column t.span.start then
          some { l with columns := column t.span.start :: l.columns }
        else none
      | .dedent => if 1 < l.columns.length then some { l with columns := l.columns.tail } else none
      | .eof => if l.columns.length = 1 then some l else none
      | _ => none

variable {column : Nat → Nat} {l l' : Layout} {t : Token} {first : Nat} {columns : List Nat}

/-! What a step can do, one lemma for each kind of token. -/

/-- An open line goes on with content and comments, until its end. -/
theorem step_open (h : step column ⟨some first, columns⟩ t = some l') :
    (t.kind = .newline ∧ l' = ⟨none, columns⟩) ∨
      ((t.kind.isContent = true ∨ t.kind = .comment) ∧ l' = ⟨some first, columns⟩) := by
  simp only [step] at h
  split at h
  · rename_i hkind
    exact .inl ⟨hkind, (Option.some.inj h).symm⟩
  · split at h
    · rename_i hkind
      exact .inr ⟨by simpa using hkind, (Option.some.inj h).symm⟩
    · exact absurd h (by simp)

/-- Content opens a line at the column of its block. -/
theorem step_content (hkind : t.kind.isContent = true)
    (h : step column ⟨none, columns⟩ t = some l') :
    column t.span.start = columns.headD 0 ∧ l' = ⟨some t.span.start, columns⟩ := by
  simp only [step, hkind, if_true] at h
  split at h
  · rename_i hcolumn
    exact ⟨hcolumn, (Option.some.inj h).symm⟩
  · exact absurd h (by simp)

/-- Comments and blank lines between lines change nothing. -/
theorem step_blank (hkind : t.kind = .comment ∨ t.kind = .blankLine)
    (h : step column ⟨none, columns⟩ t = some l') : l' = ⟨none, columns⟩ := by
  rcases hkind with hkind | hkind <;>
    · simp only [step, hkind, TokenKind.isContent, Bool.false_eq_true, if_false] at h
      exact (Option.some.inj h).symm

/-- Indentation opens a block at a column beyond. -/
theorem step_indent (hkind : t.kind = .indent) (h : step column ⟨none, columns⟩ t = some l') :
    columns.headD 0 < column t.span.start ∧ l' = ⟨none, column t.span.start :: columns⟩ := by
  simp only [step, hkind, TokenKind.isContent, Bool.false_eq_true, if_false] at h
  split at h
  · rename_i hcolumn
    exact ⟨hcolumn, (Option.some.inj h).symm⟩
  · exact absurd h (by simp)

/-- A dedent closes one. -/
theorem step_dedent (hkind : t.kind = .dedent) (h : step column ⟨none, columns⟩ t = some l') :
    1 < columns.length ∧ l' = ⟨none, columns.tail⟩ := by
  simp only [step, hkind, TokenKind.isContent, Bool.false_eq_true, if_false] at h
  split at h
  · rename_i hlength
    exact ⟨hlength, (Option.some.inj h).symm⟩
  · exact absurd h (by simp)

/-- The text ends when all blocks are closed. -/
theorem step_eof (hkind : t.kind = .eof) (h : step column ⟨none, columns⟩ t = some l') :
    columns.length = 1 := by
  simp only [step, hkind, TokenKind.isContent, Bool.false_eq_true, if_false] at h
  split at h
  · assumption
  · exact absurd h (by simp)

/-- No line ends before it begins. -/
theorem step_newline (hkind : t.kind = .newline) : step column ⟨none, columns⟩ t = none := by
  simp [step, hkind, TokenKind.isContent]

/-- What is not content opens no line. -/
theorem line_eq_none (hkind : t.kind.isContent = false)
    (h : step column ⟨none, columns⟩ t = some l') : l'.line = none := by
  simp only [step, hkind, Bool.false_eq_true, if_false] at h
  split at h <;> grind

/-- In an open line the token read last is a part of a statement or a comment. -/
theorem solid_of_open (h : step column l t = some l') (hopen : l'.line = some first) :
    t.kind.isContent = true ∨ t.kind = .comment := by
  obtain ⟨_ | first', columns⟩ := l
  · cases hkind : t.kind.isContent with
    | true => exact .inl rfl
    | false => simp [line_eq_none hkind h] at hopen
  · obtain ⟨-, rfl⟩ | ⟨hkind, -⟩ := step_open h
    · simp at hopen
    · exact hkind

/-- The outermost block is never closed. -/
theorem columns_ne_nil (h : step column l t = some l') (hl : l.columns ≠ []) :
    l'.columns ≠ [] := by
  have htail : 1 < l.columns.length → l.columns.tail ≠ [] := by
    intro hlength htail
    have := List.length_tail (l := l.columns)
    rw [htail, List.length_nil] at this
    omega
  simp only [step] at h
  split at h <;> grind

/-- An open line begins at the column of the innermost block. -/
def Aligned (column : Nat → Nat) (l : Layout) : Prop :=
  ∀ first ∈ l.line, column first = l.columns.headD 0

/-- A line stays aligned with its block at every token. -/
theorem Aligned.step (h : l.Aligned column) (hstep : step column l t = some l') :
    l'.Aligned column := by
  obtain ⟨_ | first, columns⟩ := l
  · cases hkind : t.kind.isContent with
    | true =>
      obtain ⟨hcolumn, rfl⟩ := step_content hkind hstep
      rintro _ ⟨⟩
      exact hcolumn
    | false => simp [Aligned, line_eq_none hkind hstep]
  · obtain ⟨-, rfl⟩ | ⟨-, rfl⟩ := step_open hstep
    · simp [Aligned]
    · exact h

/-- The layout after some tokens, when they can all stand there. -/
def run (column : Nat → Nat) (l : Layout) (ts : List Token) : Option Layout :=
  ts.foldlM (step column) l

/-- Tokens are laid out one after the other. -/
theorem run_cons (column : Nat → Nat) (l : Layout) (t : Token) (ts : List Token) :
    run column l (t :: ts) = (step column l t).bind fun l' => run column l' ts :=
  List.foldlM_cons

/-- So are two lists of them. -/
theorem run_append (column : Nat → Nat) (l : Layout) (ts us : List Token) :
    run column l (ts ++ us) = (run column l ts).bind fun l' => run column l' us :=
  List.foldlM_append

/-- What every step preserves holds after a run. -/
theorem run_preserves {p : Layout → Prop} (hp : ∀ l t l', step column l t = some l' → p l → p l')
    {ts : List Token} (hrun : run column l ts = some l') (hl : p l) : p l' := by
  induction ts generalizing l with
  | nil =>
    obtain rfl := Option.some.inj hrun
    exact hl
  | cons t ts ih =>
    rw [run_cons] at hrun
    obtain ⟨l₁, hstep, hrun⟩ := Option.bind_eq_some_iff.mp hrun
    exact ih hrun (hp l t l₁ hstep hl)

end Layout

/-! ### Tokens in their order -/

/-- Tokens in their order: none begins before the end of the one in front of it, and the parts of
    statements and the comments have characters. -/
structure Ordered (ts : List Token) : Prop where
  apart : ts.Pairwise fun t u => t.span.stop ≤ u.span.start
  forward : ∀ t ∈ ts, t.span.start ≤ t.span.stop
  solid : ∀ t ∈ ts, t.kind.isContent = true ∨ t.kind = .comment → t.span.start < t.span.stop

namespace Ordered

variable {ts us : List Token} {t u : Token} {o : Nat} {isOpen : Bool}

/-- Both parts of ordered tokens are ordered. -/
theorem of_append (h : Ordered (ts ++ us)) : Ordered ts ∧ Ordered us := by
  obtain ⟨hts, hus, -⟩ := List.pairwise_append.mp h.apart
  exact ⟨⟨hts, fun t ht => h.forward t (List.mem_append_left _ ht),
      fun t ht => h.solid t (List.mem_append_left _ ht)⟩,
    ⟨hus, fun t ht => h.forward t (List.mem_append_right _ ht),
      fun t ht => h.solid t (List.mem_append_right _ ht)⟩⟩

/-- Of ordered tokens the first starts first. -/
theorem start_le_start (h : Ordered (t :: us)) (hu : u ∈ t :: us) :
    t.span.start ≤ u.span.start := by
  rcases List.mem_cons.mp hu with rfl | hu
  · exact le_refl _
  · exact le_trans (h.forward t List.mem_cons_self) (List.rel_of_pairwise_cons h.apart hu)

/-- It stops before any later one starts. -/
theorem stop_le_start (h : Ordered (ts ++ us)) (ht : t ∈ ts) (hu : u ∈ us) :
    t.span.stop ≤ u.span.start :=
  (List.pairwise_append.mp h.apart).2.2 t ht u hu

end Ordered

/-- Every line starts at a token of content. -/
theorem exists_of_mem_lineStarts {isOpen : Bool} {ts : List Token} {o : Nat}
    (h : o ∈ lineStarts isOpen ts) : ∃ t ∈ ts, t.kind.isContent = true ∧ t.span.start = o := by
  induction ts generalizing isOpen with
  | nil => exact absurd h (List.not_mem_nil)
  | cons t ts ih =>
    have hmore : ∀ {isOpen}, o ∈ lineStarts isOpen ts →
        ∃ u ∈ t :: ts, u.kind.isContent = true ∧ u.span.start = o := by
      intro isOpen hmem
      obtain ⟨u, hu, hcontent, ho⟩ := ih hmem
      exact ⟨u, List.mem_cons_of_mem _ hu, hcontent, ho⟩
    rw [lineStarts] at h
    split at h
    · rename_i hcontent
      split at h
      · exact hmore h
      · rcases List.mem_cons.mp h with rfl | h
        · exact ⟨t, List.mem_cons_self, hcontent, rfl⟩
        · exact hmore h
    · exact hmore h

namespace Ordered

variable {ts us : List Token} {t u : Token} {o : Nat} {isOpen : Bool}

/-- Lines that begin in front of a token begin before it. -/
theorem lt_of_mem_lineStarts (h : Ordered (ts ++ us)) (ho : o ∈ lineStarts isOpen ts)
    (hu : u ∈ us) : o < u.span.start := by
  obtain ⟨t, ht, hcontent, rfl⟩ := exists_of_mem_lineStarts ho
  have hsolid := h.solid t (List.mem_append_left _ ht) (.inl hcontent)
  have hstop := h.stop_le_start ht hu
  omega

/-- Lines that begin behind a token with characters begin after it. -/
theorem start_lt_of_mem_lineStarts (h : Ordered (t :: us))
    (ht : t.kind.isContent = true ∨ t.kind = .comment) (ho : o ∈ lineStarts isOpen us) :
    t.span.start < o := by
  obtain ⟨u, hu, -, rfl⟩ := exists_of_mem_lineStarts ho
  have hsolid := h.solid t List.mem_cons_self ht
  have hstop := List.rel_of_pairwise_cons h.apart hu
  omega

/-- Lines start one behind the other. -/
theorem lineStarts_pairwise (h : Ordered ts) : (lineStarts isOpen ts).Pairwise (· < ·) := by
  induction ts generalizing isOpen with
  | nil => exact .nil
  | cons t ts ih =>
    have hsplit : Ordered ([t] ++ ts) := h
    have hts : Ordered ts := hsplit.of_append.2
    rw [lineStarts]
    split
    · rename_i hcontent
      split
      · exact ih hts
      · exact List.pairwise_cons.mpr
          ⟨fun o ho => h.start_lt_of_mem_lineStarts (.inl hcontent) ho, ih hts⟩
    · exact ih hts

end Ordered

/-! ### Lines and the layout -/

namespace Layout

variable {column : Nat → Nat} {l l' : Layout} {t : Token} {first : Nat} {ts : List Token}

/-- A token starts a line or goes on with one. -/
theorem lineStarts_cons (h : step column l t = some l') (ts : List Token) :
    lineStarts l.line.isSome (t :: ts) =
      lineStarts l.line.isSome [t] ++ lineStarts l'.line.isSome ts := by
  obtain ⟨_ | first, columns⟩ := l
  · cases hkind : t.kind.isContent with
    | true =>
      obtain ⟨-, rfl⟩ := step_content hkind h
      simp [lineStarts, hkind]
    | false => simp [lineStarts, hkind, line_eq_none hkind h]
  · obtain ⟨hkind, rfl⟩ | ⟨hkind | hkind, rfl⟩ := step_open h
    · simp [lineStarts, hkind, TokenKind.isContent]
    · simp [lineStarts, hkind]
    · rw [lineStarts, lineStarts, hkind]
      rfl

/-- The line that is open was the last to start. -/
theorem getLast?_lineStarts_step (h : step column l t = some l') (hfirst : l'.line = some first) :
    (l.line.toList ++ lineStarts l.line.isSome [t]).getLast? = some first := by
  obtain ⟨_ | first', columns⟩ := l
  · cases hkind : t.kind.isContent with
    | true =>
      obtain ⟨-, rfl⟩ := step_content hkind h
      simpa [lineStarts, hkind] using hfirst
    | false => simp [line_eq_none hkind h] at hfirst
  · obtain ⟨hkind, rfl⟩ | ⟨hkind | hkind, rfl⟩ := step_open h
    · simp at hfirst
    · simpa [lineStarts, hkind] using hfirst
    · simpa [lineStarts, hkind, TokenKind.isContent] using hfirst

/-- A token behind which no line is open begins none. -/
theorem lineStarts_eq_nil (h : step column l t = some l') (hclosed : l'.line = none) :
    lineStarts l.line.isSome [t] = [] := by
  obtain ⟨_ | first', columns⟩ := l
  · cases hkind : t.kind.isContent with
    | true =>
      obtain ⟨-, rfl⟩ := step_content hkind h
      exact absurd hclosed (by simp)
    | false => simp [lineStarts, hkind]
  · simp [lineStarts]

/-- Lines are found in tokens one part after the other. -/
theorem lineStarts_append (h : run column l ts = some l') (us : List Token) :
    lineStarts l.line.isSome (ts ++ us) =
      lineStarts l.line.isSome ts ++ lineStarts l'.line.isSome us := by
  induction ts generalizing l with
  | nil =>
    obtain rfl := Option.some.inj h
    rfl
  | cons t ts ih =>
    rw [run_cons] at h
    obtain ⟨l₁, hstep, hrun⟩ := Option.bind_eq_some_iff.mp h
    rw [List.cons_append, lineStarts_cons hstep (ts ++ us), lineStarts_cons hstep ts, ih hrun,
      List.append_assoc]

/-- The open line is the last that began. -/
theorem getLast?_lineStarts (h : run column l ts = some l') (hfirst : l'.line = some first) :
    (l.line.toList ++ lineStarts l.line.isSome ts).getLast? = some first := by
  induction ts generalizing l with
  | nil =>
    obtain rfl := Option.some.inj h
    simp [lineStarts, hfirst]
  | cons t ts ih =>
    rw [run_cons] at h
    obtain ⟨l₁, hstep, hrun⟩ := Option.bind_eq_some_iff.mp h
    have hlast := ih hrun
    rw [List.getLast?_append] at hlast
    rw [lineStarts_cons hstep ts, ← List.append_assoc, List.getLast?_append]
    cases hmore : (lineStarts l₁.line.isSome ts).getLast? with
    | some o => rwa [hmore] at hlast
    | none =>
      -- no line begins behind the first token
      rw [hmore, Option.none_or] at hlast
      have hline : l₁.line = some first := by
        cases hl₁ : l₁.line with
        | none => simp [hl₁] at hlast
        | some first' => simpa [hl₁] using hlast
      rw [Option.none_or]
      exact getLast?_lineStarts_step hstep hline

end Layout

/-! ### Places -/

/-- The starts up to one in an ordered list are those before it and itself. -/
theorem filter_le_eq {before after : List Nat} {o limit : Nat} (hbefore : ∀ x ∈ before, x < o)
    (ho : o ≤ limit) (hafter : ∀ x ∈ after, limit < x) :
    (before ++ o :: after).filter (· ≤ limit) = before ++ [o] := by
  have hall : before.filter (· ≤ limit) = before :=
    List.filter_eq_self.mpr fun x hx => decide_eq_true (by have := hbefore x hx; omega)
  have hnone : after.filter (· ≤ limit) = [] :=
    List.filter_eq_nil_iff.mpr fun x hx => by have := hafter x hx; simp; omega
  rw [List.filter_append, hall, List.filter_cons_of_pos (by simpa using ho), hnone]

/-- Tokens in their order that can all stand where they do. -/
structure WellLaid (column : Nat → Nat) (tokens : List Token) : Prop where
  ordered : Ordered tokens
  layout : ∃ l, Layout.run column {} tokens = some l

/-- A place in a list of tokens, with the layout there.  What counts as read last at the beginning
    of the list begins before none of its tokens. -/
def Stands (column : Nat → Nat) (tokens : List Token) (l : Layout) (c : Cursor) : Prop :=
  ∃ pre, tokens = pre ++ c.rest ∧ Layout.run column {} pre = some l ∧
    ((pre = [] ∧ ∀ t ∈ tokens, t.span.start ≤ c.prev.span.start) ∨ ∃ before, pre = before ++ [c.prev])

namespace Stands

variable {column : Nat → Nat} {tokens ts : List Token} {l l' : Layout} {c c' : Cursor}
variable {prev t : Token} {first o : Nat} {columns : List Nat}

/-- The token behind a place can stand there. -/
theorem step (h : WellLaid column tokens) (hs : Stands column tokens l ⟨prev, t :: ts⟩) :
    ∃ l', l.step column t = some l' ∧ Stands column tokens l' ⟨t, ts⟩ := by
  obtain ⟨pre, htokens, hrun, -⟩ := hs
  obtain ⟨last, hall⟩ := h.layout
  rw [htokens, Layout.run_append, hrun, Option.bind_some, Layout.run_cons] at hall
  obtain ⟨l', hstep, -⟩ := Option.bind_eq_some_iff.mp hall
  refine ⟨l', hstep, pre ++ [t], ?_, ?_, .inr ⟨pre, rfl⟩⟩
  · rw [htokens, List.append_assoc, List.singleton_append]
  · rw [Layout.run_append, hrun, Option.bind_some, Layout.run_cons, hstep]
    rfl

/-- An open line begins at the column of the innermost block. -/
theorem column_eq (hs : Stands column tokens ⟨some first, columns⟩ c) :
    column first = columns.headD 0 := by
  obtain ⟨pre, -, hrun, -⟩ := hs
  have haligned : Layout.Aligned column {} := by simp [Layout.Aligned]
  exact Layout.run_preserves (fun _ _ _ hstep h => h.step hstep) hrun haligned first rfl

/-- The outermost block is open everywhere. -/
theorem columns_ne_nil (hs : Stands column tokens l c) : l.columns ≠ [] := by
  obtain ⟨pre, -, hrun, -⟩ := hs
  exact Layout.run_preserves (fun _ _ _ => Layout.columns_ne_nil) hrun (by simp)

/-- The token read last begins behind the beginning of the token that was next before. -/
theorem start_le_prev (h : WellLaid column tokens) (hs : Stands column tokens l ⟨prev, t :: ts⟩)
    (hs' : Stands column tokens l' c') (hlength : c'.rest.length < (t :: ts).length) :
    t.span.start ≤ c'.prev.span.start := by
  obtain ⟨pre, htokens, -⟩ := hs
  obtain ⟨pre', htokens', -, hprev⟩ := hs'
  have hordered := h.ordered
  rw [htokens] at htokens' hordered
  -- fewer tokens are ahead, so the token that was next has been read
  have hsplit : ∃ mid, pre' = pre ++ t :: mid := by
    rcases List.append_eq_append_iff.mp htokens' with ⟨mid, hpre, hrest⟩ | ⟨mid, hpre, hrest⟩
    · cases mid with
      | nil =>
        rw [List.nil_append] at hrest
        rw [← hrest] at hlength
        exact absurd hlength (lt_irrefl _)
      | cons t' mid =>
        obtain ⟨rfl, -⟩ := List.cons.inj hrest
        exact ⟨mid, hpre⟩
    · dsimp only at hrest
      rw [hrest, List.length_append] at hlength
      omega
  obtain ⟨mid, rfl⟩ := hsplit
  have hrest : Ordered (t :: mid) := by
    rw [htokens'] at hordered
    exact hordered.of_append.1.of_append.2
  rcases hprev with ⟨hnil, -⟩ | ⟨before, hbefore⟩
  · exact absurd hnil (by simp)
  · have hmem : c'.prev ∈ t :: mid := by
      have hlast : (pre ++ t :: mid).getLast? = some c'.prev := by
        rw [hbefore, List.getLast?_concat]
      rw [List.getLast?_append, List.getLast?_cons, Option.some_or] at hlast
      exact List.mem_of_getLast? (by rw [List.getLast?_cons, hlast])
    exact hrest.start_le_start hmem

/-- The open line began before the token that is next, and at the token read last or before it. -/
theorem first_lt (h : WellLaid column tokens)
    (hs : Stands column tokens ⟨some first, columns⟩ ⟨prev, t :: ts⟩) :
    first < t.span.start ∧ first ≤ prev.span.start := by
  obtain ⟨pre, htokens, hrun, hprev⟩ := hs
  have hordered := h.ordered
  rw [htokens] at hordered
  have hmem := List.mem_of_getLast? (Layout.getLast?_lineStarts hrun rfl)
  refine ⟨hordered.lt_of_mem_lineStarts hmem List.mem_cons_self, ?_⟩
  have hstarts : first ∈ lineStarts false pre := by simpa using hmem
  obtain ⟨w, hw, -, hstart⟩ := exists_of_mem_lineStarts hstarts
  rcases hprev with ⟨rfl, -⟩ | ⟨before, rfl⟩
  · exact absurd hw List.not_mem_nil
  · rw [← hstart]
    rcases List.mem_append.mp hw with hw | hw
    · have hstop := hordered.of_append.1.stop_le_start hw (List.mem_singleton_self _)
      exact le_trans (hordered.forward w (by simp [hw])) hstop
    · rw [List.mem_singleton.mp hw]

/-- The lines around a place inside a line. -/
theorem lineStarts_eq_of_open (h : WellLaid column tokens)
    (hs : Stands column tokens ⟨some first, columns⟩ ⟨prev, t :: ts⟩)
    (ht : t.kind.isContent = true ∨ t.kind = .comment) :
    ∃ before after, lineStarts false tokens = before ++ first :: after ∧
      (∀ o ∈ before, o < first) ∧ ∀ o ∈ after, t.span.start < o := by
  obtain ⟨pre, htokens, hrun, -⟩ := hs
  have hordered := h.ordered
  rw [htokens] at hordered
  obtain ⟨before, hbefore⟩ := List.getLast?_eq_some_iff.mp (Layout.getLast?_lineStarts hrun rfl)
  have hpre : lineStarts false pre = before ++ [first] := hbefore
  -- the line is open, so the next token does not begin one
  have hnext : lineStarts true (t :: ts) = lineStarts true ts := by
    rcases ht with ht | ht
    · simp [lineStarts, ht]
    · rw [lineStarts, ht]
      rfl
  refine ⟨before, lineStarts true ts, ?_, ?_, ?_⟩
  · have hstarts : lineStarts false (pre ++ t :: ts) =
        lineStarts false pre ++ lineStarts true (t :: ts) :=
      Layout.lineStarts_append hrun (t :: ts)
    rw [htokens, hstarts, hpre, hnext, List.append_assoc, List.singleton_append]
  · have hsorted : (lineStarts false pre).Pairwise (· < ·) :=
      hordered.of_append.1.lineStarts_pairwise
    rw [hpre] at hsorted
    exact fun o ho => (List.pairwise_append.mp hsorted).2.2 o ho first (List.mem_singleton_self _)
  · exact fun o ho => hordered.of_append.2.start_lt_of_mem_lineStarts ht ho

/-- The lines around a place where one begins. -/
theorem lineStarts_eq_of_closed (h : WellLaid column tokens)
    (hs : Stands column tokens ⟨none, columns⟩ ⟨prev, t :: ts⟩) (ht : t.kind.isContent = true) :
    ∃ before after, lineStarts false tokens = before ++ t.span.start :: after ∧
      (∀ o ∈ before, o < t.span.start ∧ o < prev.span.start) ∧ ∀ o ∈ after, t.span.start < o := by
  obtain ⟨pre, htokens, hrun, hprev⟩ := hs
  have hordered := h.ordered
  rw [htokens] at hordered
  refine ⟨lineStarts false pre, lineStarts true ts, ?_, fun o ho => ⟨?_, ?_⟩, ?_⟩
  · have hstarts : lineStarts false (pre ++ t :: ts) =
        lineStarts false pre ++ lineStarts false (t :: ts) :=
      Layout.lineStarts_append hrun (t :: ts)
    rw [htokens, hstarts]
    simp [lineStarts, ht]
  · exact hordered.lt_of_mem_lineStarts ho List.mem_cons_self
  · rcases hprev with ⟨rfl, -⟩ | ⟨before, rfl⟩
    · exact absurd ho List.not_mem_nil
    · -- the token read last opens no line, as none is open behind it
      rw [Layout.run_append] at hrun
      obtain ⟨l₁, hbefore, hlast⟩ := Option.bind_eq_some_iff.mp hrun
      rw [Layout.run_cons] at hlast
      obtain ⟨l₂, hstep, hnil⟩ := Option.bind_eq_some_iff.mp hlast
      obtain rfl := Option.some.inj hnil
      have hstarts : lineStarts false (before ++ [prev]) =
          lineStarts false before ++ lineStarts l₁.line.isSome [prev] :=
        Layout.lineStarts_append hbefore [prev]
      rw [hstarts, Layout.lineStarts_eq_nil hstep rfl, List.append_nil] at ho
      exact hordered.of_append.1.lt_of_mem_lineStarts ho (List.mem_singleton_self _)
  · exact fun o ho => hordered.of_append.2.start_lt_of_mem_lineStarts (.inl ht) ho

/-- The token behind a place in a line is held by that line. -/
theorem lastLineStart_of_open (h : WellLaid column tokens)
    (hs : Stands column tokens ⟨some first, columns⟩ ⟨prev, t :: ts⟩)
    (ht : t.kind.isContent = true ∨ t.kind = .comment) :
    lastLineStart tokens t.span.start = first := by
  obtain ⟨before, after, hstarts, hbefore, hafter⟩ := hs.lineStarts_eq_of_open h ht
  rw [lastLineStart, hstarts, filter_le_eq hbefore (hs.first_lt h).1.le hafter]
  simp

/-- The token with which a line begins is held by that line. -/
theorem lastLineStart_of_closed (h : WellLaid column tokens)
    (hs : Stands column tokens ⟨none, columns⟩ ⟨prev, t :: ts⟩) (ht : t.kind.isContent = true) :
    t.span.start ∈ lineStarts false tokens ∧ lastLineStart tokens t.span.start = t.span.start := by
  obtain ⟨before, after, hstarts, hbefore, hafter⟩ := hs.lineStarts_eq_of_closed h ht
  rw [lastLineStart, hstarts, filter_le_eq (fun o ho => (hbefore o ho).1) (le_refl _) hafter]
  simp

/-- A stretch from one place to a later one begins with the first token between them.  Without any
    it reaches back to the token read last. -/
def StartsAt (c : Cursor) (o : Nat) : Prop :=
  o = c.peek.span.start ∨ o = min c.peek.span.start c.prev.span.start

/-- In a line only what begins with its first token begins where a line does. -/
theorem eq_first (h : WellLaid column tokens)
    (hs : Stands column tokens ⟨some first, columns⟩ ⟨prev, t :: ts⟩)
    (ht : t.kind.isContent = true ∨ t.kind = .comment) (ho : StartsAt ⟨prev, t :: ts⟩ o)
    (hmem : o ∈ lineStarts false tokens) : o = first := by
  obtain ⟨before, after, hstarts, hbefore, hafter⟩ := hs.lineStarts_eq_of_open h ht
  obtain ⟨hfirst, hprev⟩ := hs.first_lt h
  have hrange : first ≤ o ∧ o ≤ t.span.start := by
    rcases ho with rfl | rfl
    · exact ⟨hfirst.le, le_refl _⟩
    · exact ⟨le_min hfirst.le hprev, min_le_left _ _⟩
  rw [hstarts] at hmem
  rcases List.mem_append.mp hmem with hmem | hmem
  · have hlt := hbefore o hmem
    omega
  · rcases List.mem_cons.mp hmem with rfl | hmem
    · rfl
    · have hlt := hafter o hmem
      omega

/-- Where a line begins, only what begins there begins where a line does. -/
theorem eq_start (h : WellLaid column tokens)
    (hs : Stands column tokens ⟨none, columns⟩ ⟨prev, t :: ts⟩) (ht : t.kind.isContent = true)
    (ho : StartsAt ⟨prev, t :: ts⟩ o) (hmem : o ∈ lineStarts false tokens) :
    o = t.span.start := by
  obtain ⟨before, after, hstarts, hbefore, hafter⟩ := hs.lineStarts_eq_of_closed h ht
  rcases ho with rfl | rfl
  · rfl
  · change min t.span.start prev.span.start = t.span.start
    change min t.span.start prev.span.start ∈ lineStarts false tokens at hmem
    rw [hstarts] at hmem
    rcases List.mem_append.mp hmem with hmem | hmem
    · have hlt := hbefore _ hmem
      omega
    · rcases List.mem_cons.mp hmem with heq | hmem
      · exact heq
      · have hlt := hafter _ hmem
        omega

/-- The beginning of the tokens. -/
theorem start {stop : Nat} (hstop : ∀ t ∈ tokens, t.span.start ≤ stop) :
    Stands column tokens {} (Cursor.start tokens stop) :=
  ⟨[], rfl, rfl, .inl ⟨rfl, hstop⟩⟩

end Stands

end PackageDoc
