import PackageDoc.Proofs.Layout.InLine
import PackageDoc.Proofs.Layout.Lines

namespace PackageDoc

/-!
# Moving through well laid tokens

What the layout is at the places that the readers of statements pass.

* `Place` — a place in front of the end of the text, with the layout there;
* `InLine` — a place in a line, or in front of the first token of one;
* `InLine.pastHeader` — behind a header the line that holds it is open;
* `simpleLine_place` — behind a line of simple statements no line is open, and a statement that
  begins where a line does begins with the line that was open or begins in front.
-/

/-- A place in front of the end of the text, with the layout there. -/
structure Place (column : Nat → Nat) (tokens : List Token) (l : Layout) (c : Cursor) : Prop where
  stands : Stands column tokens l c
  ahead : ∃ t ∈ c.rest, t.kind = .eof

/-- A place in a line inside blocks at `columns`, or in front of the first token of one. -/
def InLine (column : Nat → Nat) (tokens : List Token) (columns : List Nat) (c : Cursor) : Prop :=
  (∃ first, Place column tokens ⟨some first, columns⟩ c) ∨
    (Place column tokens ⟨none, columns⟩ c ∧ c.kind.isContent = true)

variable {column : Nat → Nat} {tokens : List Token} {l l' : Layout} {c c' : Cursor}
variable {columns : List Nat} {first o : Nat}

theorem ne_newline_of_inner (h : c.kind.isLineEnd = false) : c.kind ≠ .newline := by
  intro hkind
  rw [hkind] at h
  cases h

namespace Place

theorem exists_cons (hp : Place column tokens l c) : ∃ prev t ts, c = ⟨prev, t :: ts⟩ := by
  obtain ⟨prev, _ | ⟨t, ts⟩⟩ := c
  · obtain ⟨t, ht, -⟩ := hp.ahead
    exact absurd ht List.not_mem_nil
  · exact ⟨prev, t, ts, rfl⟩

theorem length_pos (hp : Place column tokens l c) : 0 < c.rest.length := by
  obtain ⟨prev, t, ts, rfl⟩ := hp.exists_cons
  exact Nat.succ_pos _

/-- No more is left than the text has. -/
theorem length_le (hp : Place column tokens l c) : c.rest.length ≤ tokens.length := by
  obtain ⟨⟨pre, htokens, -⟩, -⟩ := hp
  rw [htokens, List.length_append]
  omega

/-- The token there is one of the text. -/
theorem peek_mem (hp : Place column tokens l c) : c.peek ∈ tokens := by
  obtain ⟨prev, t, ts, rfl⟩ := hp.exists_cons
  obtain ⟨⟨pre, rfl, -⟩, -⟩ := hp
  exact List.mem_append_right _ List.mem_cons_self

/-- The token that is next can stand there. -/
theorem step (h : WellLaid column tokens) (hp : Place column tokens l c) (hkind : c.kind ≠ .eof) :
    ∃ l', l.step column c.peek = some l' ∧ Place column tokens l' c.advance ∧
      c.advance.rest.length < c.rest.length := by
  obtain ⟨prev, t, ts, rfl⟩ := hp.exists_cons
  obtain ⟨l', hstep, hstands⟩ := hp.stands.step h
  obtain ⟨u, hu, heof⟩ := hp.ahead
  refine ⟨l', hstep, ⟨hstands, u, ?_, heof⟩, Nat.lt_succ_self _⟩
  rcases List.mem_cons.mp hu with rfl | hu
  · exact absurd heof hkind
  · exact hu

/-- Where a line is open the next token goes on with it or ends it. -/
theorem kind_of_open (h : WellLaid column tokens)
    (hp : Place column tokens ⟨some first, columns⟩ c) :
    c.kind = .newline ∨ c.kind.isContent = true ∨ c.kind = .comment := by
  obtain ⟨prev, t, ts, rfl⟩ := hp.exists_cons
  obtain ⟨l', hstep, -⟩ := hp.stands.step h
  obtain ⟨hkind, -⟩ | ⟨hkind, -⟩ := Layout.step_open hstep
  · exact .inl hkind
  · exact .inr hkind

/-- The open line began before the token that is next, and at the token read last or before it. -/
theorem first_lt (h : WellLaid column tokens) (hp : Place column tokens ⟨some first, columns⟩ c) :
    first < c.peek.span.start ∧ first ≤ c.prev.span.start := by
  obtain ⟨prev, t, ts, rfl⟩ := hp.exists_cons
  exact hp.stands.first_lt h

/-- One token further in a line. -/
theorem advance_open (h : WellLaid column tokens)
    (hp : Place column tokens ⟨some first, columns⟩ c) (hkind : c.kind.isLineEnd = false) :
    Place column tokens ⟨some first, columns⟩ c.advance ∧
      c.advance.rest.length < c.rest.length := by
  have heof : c.kind ≠ .eof := by
    intro heof
    rw [heof] at hkind
    cases hkind
  obtain ⟨l', hstep, hp', hlength⟩ := hp.step h heof
  obtain ⟨hkind', -⟩ | ⟨-, rfl⟩ := Layout.step_open hstep
  · exact absurd hkind' (ne_newline_of_inner hkind)
  · exact ⟨hp', hlength⟩

/-- The end of a line. -/
theorem advance_newline (h : WellLaid column tokens)
    (hp : Place column tokens ⟨some first, columns⟩ c) (hkind : c.kind = .newline) :
    Place column tokens ⟨none, columns⟩ c.advance ∧ c.advance.rest.length < c.rest.length := by
  obtain ⟨l', hstep, hp', hlength⟩ := hp.step h (by rw [hkind]; simp)
  obtain ⟨-, rfl⟩ | ⟨hkind', -⟩ := Layout.step_open hstep
  · exact ⟨hp', hlength⟩
  · rw [show c.peek.kind = .newline from hkind] at hkind'
    simp [TokenKind.isContent] at hkind'

/-- The first token of a line. -/
theorem advance_content (h : WellLaid column tokens)
    (hp : Place column tokens ⟨none, columns⟩ c) (hkind : c.kind.isContent = true) :
    column c.peek.span.start = columns.headD 0 ∧
      Place column tokens ⟨some c.peek.span.start, columns⟩ c.advance ∧
      c.advance.rest.length < c.rest.length := by
  obtain ⟨l', hstep, hp', hlength⟩ := hp.step h (by rintro heof; rw [heof] at hkind; cases hkind)
  obtain ⟨hcolumn, rfl⟩ := Layout.step_content hkind hstep
  exact ⟨hcolumn, hp', hlength⟩

/-- A comment or a blank line between the lines of statements. -/
theorem advance_blank (h : WellLaid column tokens) (hp : Place column tokens ⟨none, columns⟩ c)
    (hkind : c.kind = .comment ∨ c.kind = .blankLine) :
    Place column tokens ⟨none, columns⟩ c.advance ∧ c.advance.rest.length < c.rest.length := by
  obtain ⟨l', hstep, hp', hlength⟩ :=
    hp.step h (by rcases hkind with hkind | hkind <;> rw [hkind] <;> simp)
  obtain rfl := Layout.step_blank hkind hstep
  exact ⟨hp', hlength⟩

/-- Behind an indentation the place is in a block at a column beyond. -/
theorem advance_indent (h : WellLaid column tokens) (hp : Place column tokens ⟨none, columns⟩ c)
    (hkind : c.kind = .indent) :
    ∃ column', columns.headD 0 < column' ∧
      Place column tokens ⟨none, column' :: columns⟩ c.advance ∧
      c.advance.rest.length < c.rest.length := by
  obtain ⟨l', hstep, hp', hlength⟩ := hp.step h (by rw [hkind]; simp)
  obtain ⟨hcolumn, rfl⟩ := Layout.step_indent hkind hstep
  exact ⟨_, hcolumn, hp', hlength⟩

/-- Behind a dedent it is in the block around. -/
theorem advance_dedent (h : WellLaid column tokens) (hp : Place column tokens ⟨none, columns⟩ c)
    (hkind : c.kind = .dedent) :
    1 < columns.length ∧ Place column tokens ⟨none, columns.tail⟩ c.advance ∧
      c.advance.rest.length < c.rest.length := by
  obtain ⟨l', hstep, hp', hlength⟩ := hp.step h (by rw [hkind]; simp)
  obtain ⟨hcolumns, rfl⟩ := Layout.step_dedent hkind hstep
  exact ⟨hcolumns, hp', hlength⟩

/-- At the end no block is open. -/
theorem length_of_eof (h : WellLaid column tokens) (hp : Place column tokens ⟨none, columns⟩ c)
    (hkind : c.kind = .eof) : columns.length = 1 := by
  obtain ⟨prev, t, ts, rfl⟩ := hp.exists_cons
  obtain ⟨l', hstep, -⟩ := hp.stands.step h
  exact Layout.step_eof hkind hstep

/-- Between lines there is no line end. -/
theorem ne_newline (h : WellLaid column tokens) (hp : Place column tokens ⟨none, columns⟩ c) :
    c.kind ≠ .newline := by
  intro hkind
  obtain ⟨l', hstep, -⟩ := hp.step h (by rw [hkind]; simp)
  rw [Layout.step_newline hkind] at hstep
  cases hstep

/-- Further on in the same line. -/
theorem within (h : WellLaid column tokens) (hp : Place column tokens ⟨some first, columns⟩ c)
    (hw : c.Within c') : Place column tokens ⟨some first, columns⟩ c' := by
  exact hw.preserves (fun c hp hkind => (hp.advance_open h hkind).1) hp

/-- A later place in a line that is open lies behind the token that was next before. -/
theorem start_le_prev (h : WellLaid column tokens) (hp : Place column tokens l c)
    (hp' : Place column tokens l' c') (hlength : c'.rest.length < c.rest.length) :
    c.peek.span.start ≤ c'.prev.span.start := by
  obtain ⟨prev, t, ts, rfl⟩ := hp.exists_cons
  exact hp.stands.start_le_prev h hp'.stands hlength

end Place

namespace InLine

theorem length_pos (hc : InLine column tokens columns c) : 0 < c.rest.length := by
  rcases hc with ⟨first, hp⟩ | ⟨hp, -⟩
  · exact hp.length_pos
  · exact hp.length_pos

/-- What is no line break is no end of a line. -/
theorem kind_ne (h : WellLaid column tokens) (hc : InLine column tokens columns c)
    (hkind : c.kind ≠ .newline) : c.kind.isLineEnd = false := by
  have hsolid : c.kind.isContent = true ∨ c.kind = .comment := by
    rcases hc with ⟨first, hp⟩ | ⟨-, hcontent⟩
    · exact (hp.kind_of_open h).resolve_left hkind
    · exact .inl hcontent
  rcases hsolid with hsolid | hsolid
  · cases hc : c.kind <;> rw [hc] at hsolid <;> first | rfl | cases hsolid
  · rw [hsolid]
    rfl

/-- One token further in a line. -/
theorem advance (h : WellLaid column tokens) (hc : InLine column tokens columns c)
    (hkind : c.kind.isLineEnd = false) :
    ∃ first, Place column tokens ⟨some first, columns⟩ c.advance ∧
      c.advance.rest.length < c.rest.length := by
  rcases hc with ⟨first, hp⟩ | ⟨hp, hcontent⟩
  · obtain ⟨hp', hlength⟩ := hp.advance_open h hkind
    exact ⟨first, hp', hlength⟩
  · obtain ⟨-, hp', hlength⟩ := hp.advance_content h hcontent
    exact ⟨_, hp', hlength⟩

/-- Further on in the same line. -/
theorem within (h : WellLaid column tokens) (hc : InLine column tokens columns c)
    (hw : c.Within c') : InLine column tokens columns c' := by
  refine hw.preserves (fun c hc hkind => ?_) hc
  obtain ⟨first, hp, -⟩ := hc.advance h hkind
  exact .inl ⟨first, hp⟩

end InLine

/-- Behind the colon of a header, in the line that holds it. -/
def BehindHeader (column : Nat → Nat) (tokens : List Token) (columns : List Nat) (c : Cursor) :
    Prop :=
  ∃ first, Place column tokens ⟨some first, columns⟩ c ∧ first < c.prev.span.start

/-- Behind a header a cursor is still in its line. -/
theorem BehindHeader.inLine (hc : BehindHeader column tokens columns c) :
    InLine column tokens columns c := by
  obtain ⟨first, hp, -⟩ := hc
  exact .inl ⟨first, hp⟩

/-- Further on in a line that is open. -/
theorem Place.behindHeader (h : WellLaid column tokens)
    (hp : Place column tokens ⟨some first, columns⟩ c) (hkind : c.kind.isLineEnd = false)
    (hw : c.advance.Within c') :
    BehindHeader column tokens columns c' ∧ c'.rest.length < c.rest.length := by
  obtain ⟨hp₁, hlength⟩ := hp.advance_open h hkind
  have hp' := hp₁.within h hw
  have hle := hw.length_le
  refine ⟨⟨first, hp', ?_⟩, by omega⟩
  exact lt_of_lt_of_le (hp.first_lt h).1 (hp.start_le_prev h hp' (by omega))

/-- Behind a header. -/
theorem InLine.pastHeader (h : WellLaid column tokens) (hc : InLine column tokens columns c)
    (hheader : StmtReader.PastHeader c c') :
    BehindHeader column tokens columns c' ∧ c'.rest.length + 2 ≤ c.rest.length := by
  obtain ⟨first, hp, hlength⟩ := hc.advance h hheader.first
  obtain ⟨hbehind, hlength'⟩ := hp.behindHeader h hheader.second hheader.within
  exact ⟨hbehind, by omega⟩

theorem BehindHeader.within (h : WellLaid column tokens) (hc : BehindHeader column tokens columns c)
    (hw : c.Within c') : BehindHeader column tokens columns c' := by
  rcases hw.eq_or_advance with rfl | ⟨hkind, hw⟩
  · exact hc
  · obtain ⟨first, hp, -⟩ := hc
    exact (hp.behindHeader h hkind hw).1

/-! ### Where statements start -/

open Stands (StartsAt)

/-- What is read in a line starts where its first token does. -/
theorem InLine.startsAt (h : WellLaid column tokens) (hc : InLine column tokens columns c)
    (hw : c.Within c') (ho : o = min c.peek.span.start c'.prev.span.start) : StartsAt c o := by
  rcases hw.eq_or_advance with rfl | ⟨hkind, hw⟩
  · exact .inr ho
  · obtain ⟨first, hp', hlength⟩ := hc.advance h hkind
    have hle := hw.length_le
    have hprev : c.peek.span.start ≤ c'.prev.span.start := by
      rcases hc with ⟨_, hp⟩ | ⟨hp, -⟩
      · exact hp.start_le_prev h (hp'.within h hw) (by omega)
      · exact hp.start_le_prev h (hp'.within h hw) (by omega)
    exact .inl (ho.trans (min_eq_left hprev))

/-- What begins in a line and where some line does begins at the column of the block. -/
theorem InLine.column_eq (h : WellLaid column tokens) (hc : InLine column tokens columns c)
    (hkind : c.kind.isLineEnd = false) (ho : StartsAt c o) (hmem : o ∈ lineStarts false tokens) :
    column o = columns.headD 0 := by
  rcases hc with ⟨first, hp⟩ | ⟨hp, hcontent⟩
  · have hsolid := (hp.kind_of_open h).resolve_left (ne_newline_of_inner hkind)
    obtain ⟨prev, t, ts, rfl⟩ := hp.exists_cons
    rw [hp.stands.eq_first h hsolid ho hmem]
    exact hp.stands.column_eq
  · obtain ⟨hcolumn, -⟩ := hp.advance_content h hcontent
    obtain ⟨prev, t, ts, rfl⟩ := hp.exists_cons
    rw [hp.stands.eq_start h hcontent ho hmem]
    exact hcolumn

/-- Nothing begins a line behind the header in it. -/
theorem BehindHeader.not_mem (h : WellLaid column tokens)
    (hc : BehindHeader column tokens columns c) (hkind : c.kind.isLineEnd = false)
    (ho : StartsAt c o) : o ∉ lineStarts false tokens := by
  intro hmem
  obtain ⟨first, hp, hprev⟩ := hc
  have hpeek := (hp.first_lt h).1
  have hsolid := (hp.kind_of_open h).resolve_left (ne_newline_of_inner hkind)
  obtain ⟨prev, t, ts, rfl⟩ := hp.exists_cons
  obtain rfl := hp.stands.eq_first h hsolid ho hmem
  rcases ho with heq | heq
  · omega
  · omega

/-- The column of the logical line that holds the token at an offset. -/
def lineColumn (column : Nat → Nat) (tokens : List Token) (offset : Nat) : Nat :=
  column (lastLineStart tokens offset)

/-- The first token of a line. -/
theorem Place.lineColumn_eq (h : WellLaid column tokens)
    (hp : Place column tokens ⟨none, columns⟩ c) (hkind : c.kind.isContent = true) :
    c.peek.span.start ∈ lineStarts false tokens ∧
      lineColumn column tokens c.peek.span.start = columns.headD 0 := by
  obtain ⟨hcolumn, -⟩ := hp.advance_content h hkind
  obtain ⟨prev, t, ts, rfl⟩ := hp.exists_cons
  obtain ⟨hmem, hlast⟩ := hp.stands.lastLineStart_of_closed h hkind
  refine ⟨hmem, ?_⟩
  rw [lineColumn]
  exact (congrArg column hlast).trans hcolumn

/-- The second token of a header. -/
theorem InLine.lineColumn_eq (h : WellLaid column tokens) (hc : InLine column tokens columns c)
    (hheader : StmtReader.PastHeader c c') :
    lineColumn column tokens c.advance.peek.span.start = columns.headD 0 := by
  obtain ⟨first, hp, -⟩ := hc.advance h hheader.first
  have hsolid := (hp.kind_of_open h).resolve_left (ne_newline_of_inner hheader.second)
  generalize c.advance = c₁ at hp hsolid
  obtain ⟨prev, t, ts, rfl⟩ := hp.exists_cons
  rw [lineColumn]
  exact (congrArg column (hp.stands.lastLineStart_of_open h hsolid)).trans hp.stands.column_eq

/-- Inside a line no token begins one. -/
theorem Place.start_not_mem (h : WellLaid column tokens)
    (hp : Place column tokens ⟨some first, columns⟩ c) (hkind : c.kind.isLineEnd = false) :
    c.peek.span.start ∉ lineStarts false tokens := by
  intro hmem
  have hlt := (hp.first_lt h).1
  have hsolid := (hp.kind_of_open h).resolve_left (ne_newline_of_inner hkind)
  obtain ⟨prev, t, ts, rfl⟩ := hp.exists_cons
  have heq := hp.stands.eq_first h hsolid (.inl rfl) hmem
  omega

/-! ### Lines of simple statements -/

namespace StmtReader

variable {s s' : StmtState} {stmts : List (Placed Stmt)} {p : Placed Stmt}

/-- A statement with a token begins with it. -/
theorem ReadAt.start_eq (h : WellLaid column tokens) (hc : InLine column tokens columns c)
    (hp : ReadAt c p) (hempty : p.stmt.isEmpty = false) : p.span.start = c.peek.span.start := by
  obtain ⟨c', -, hstart, hpasses⟩ := hp.span
  obtain ⟨first, hp', hlength⟩ := hc.advance h hp.inner
  have hpasses := hpasses hempty
  have hle := hpasses.2.length_le
  have hp' := hp'.within h hpasses.2
  rw [hstart, min_eq_left]
  rcases hc with ⟨_, hp⟩ | ⟨hp, -⟩
  · exact hp.start_le_prev h hp' (by omega)
  · exact hp.start_le_prev h hp' (by omega)

/-- Behind the first statement of a line none begins a line. -/
theorem InLineFrom.not_mem (h : WellLaid column tokens)
    (hp : Place column tokens ⟨some first, columns⟩ c) (hin : InLineFrom c p)
    (hempty : p.stmt.isEmpty = false) : p.span.start ∉ lineStarts false tokens := by
  obtain ⟨c₁, hc₁, hread⟩ := hin
  have hp₁ := hp.within h hc₁
  rw [hread.start_eq h (.inl ⟨first, hp₁⟩) hempty]
  exact hp₁.start_not_mem h hread.inner

/-- Behind a line of simple statements no line is open. -/
theorem simpleLine_place (h : WellLaid column tokens) (hrun : simpleLine.run s = .ok stmts s')
    (hclean : s'.issues = []) (hc : InLine column tokens columns s.cursor)
    (hkind : s.cursor.kind ≠ .newline) :
    Place column tokens ⟨none, columns⟩ s'.cursor ∧
      s'.cursor.rest.length < s.cursor.rest.length ∧ s'.cursor.prev.kind = .newline ∧
      LineFrom s.cursor stmts := by
  obtain ⟨-, c, hwithin, hend, hstmts⟩ := simpleLine_ok hrun hclean
  have hc' := hc.within h hwithin
  have hinner := hc.kind_ne h hkind
  have hahead : ∃ t ∈ s.cursor.rest, t.kind = .eof := by
    rcases hc with ⟨first, hp⟩ | ⟨hp, -⟩
    · exact hp.ahead
    · exact hp.ahead
  rcases hend with ⟨hnewline, heq⟩ | ⟨heof, -⟩
  · rcases hc' with ⟨first, hp⟩ | ⟨-, hcontent⟩
    · obtain ⟨hp', hlength⟩ := hp.advance_newline h hnewline
      have hle := hwithin.length_le
      obtain ⟨prev, t, ts, rfl⟩ := hp.exists_cons
      rw [heq]
      exact ⟨hp', by omega, hnewline, hstmts hinner hahead⟩
    · rw [hnewline] at hcontent
      cases hcontent
  · -- the end of the text stands in no line
    have hne := hc'.kind_ne h (by rw [heof]; simp)
    rw [heof] at hne
    cases hne

end StmtReader

end PackageDoc
