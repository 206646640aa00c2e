import PackageDoc.Declaration.Table
import PackageDoc.Proofs.Annotation.Hints
import PackageDoc.Proofs.Annotation.Slices
import PackageDoc.Proofs.Layout.Blocks
import PackageDoc.Proofs.Text.Blanks

namespace PackageDoc

/-!
# Annotations that are read again

What is recorded of an annotation is the text where it stands, without blanks at the ends.  Reading
that text leads back to the annotation exactly when the text stands alone: it has no blanks at its
ends, it does not begin with a byte order mark, and it is one logical line whose brackets are closed.

* `StandsAlone` — the condition;
* `Expr.Stretch` — the part of a text where an expression stands;
* `Expr.exists_stretch` — where a modelled annotation stands;
* `Expr.Stretch.exists_parse?` and `Expr.Stretch.standsAlone` — the two directions;
* `BodyContext.reparses_iff` — the result.
-/

/-- The text can be read without what stands around it. -/
def StandsAlone (text : String) : Prop :=
  trimmed text = text ∧ text.toList.head?.map Char.toNat ≠ some 0xfeff ∧ IsLine text

instance (text : String) : Decidable (StandsAlone text) :=
  inferInstanceAs (Decidable (_ ∧ _ ∧ _))

namespace Expr

variable {e e' : Expr} {source text : String} {slice : List Char}

/-! ### Where an annotation stands -/

/-- The expression stands where `slice` is in the text: it is what the tokens there are, in
    parentheses that do not count. -/
def Stretch (source : String) (slice : List Char) (e : Expr) : Prop :=
  ∃ behind before ts opens core closes s s',
    Lexer.Cut source.toList slice behind before core s s' ∧ e.span = ⟨s.offset, s'.offset⟩ ∧
      Framed e ts opens core closes ∧ ∀ t ∈ core, t.kind.isContent = true

/-- A modelled annotation stands somewhere in the text. -/
theorem exists_stretch (h : (Suite.parse source).issues = []) (he : e ∈ (Suite.parse source).hints)
    (hmodelled : e.isUnmodelled = false) : ∃ slice, Stretch source slice e := by
  have hissues := Suite.tokenize_issues h
  obtain ⟨before, ts, after, htokens, hparses⟩ :=
    (Suite.sourced_of_mem_hints he).resolve_left (by simp [hmodelled])
  have horder := (tokenize_wellLaid source hissues).1.ordered
  rw [htokens] at horder
  obtain ⟨opens, core, closes, hframed⟩ := hparses.framed horder.of_append.1.of_append.2
  -- brackets around an expression are no part of its span, so the text is cut inside them
  obtain ⟨first, hfirst, hstart⟩ := hframed.start
  obtain ⟨last, hlast, hstop⟩ := hframed.stop
  have hcore : ∀ t ∈ core, t.kind.isContent = true := fun t ht =>
    hparses.isContent t (by simp [hframed.eq, ht])
  have hsplit : (tokenize source).1 = (before ++ opens) ++ core ++ (closes ++ after) := by
    rw [htokens, hframed.eq]
    simp
  obtain ⟨slice, behind, s, s', hcut, hstart', hstop'⟩ :=
    Lexer.exists_cut hissues hsplit hcore hfirst hlast
  refine ⟨slice, behind, _, ts, opens, core, closes, s, s', hcut, ?_, hframed, hcore⟩
  rw [← hstart', ← hstop', ← hstart, ← hstop]

namespace Stretch

/-- The text of an expression that is a stretch of a source is that stretch. -/
theorem text_eq (h : Stretch source slice e) : e.span.text source.toList = String.ofList slice := by
  obtain ⟨behind, before, ts, opens, core, closes, s, s', hcut, hspan, -⟩ := h
  rw [hspan, hcut.text_eq]

/-- It is as long as the stretch, which is not empty. -/
theorem length_eq (h : Stretch source slice e) :
    e.span.stop - e.span.start = Text.byteLength slice ∧ 0 < Text.byteLength slice := by
  obtain ⟨behind, before, ts, opens, core, closes, s, s', hcut, hspan, -⟩ := h
  obtain ⟨c, cs, hslice, -⟩ := hcut.head
  refine ⟨?_, Text.byteLength_pos (by simp [hslice])⟩
  rw [hspan]
  have hoffset := hcut.offset
  simp only
  omega

end Stretch

/-! ### Reading a text that stands alone -/

/-- A text whose tokens are an expression is read as the expression. -/
theorem parse?_of_tokens {ts : List Token} {stop : Nat} (h : Parses (.read e) ts)
    (hissues : (tokenize text).2 = [])
    (htokens : (tokenize text).1 = ts ++ [⟨.newline, ⟨stop, stop⟩, ""⟩, ⟨.eof, ⟨stop, stop⟩, ""⟩]) :
    parse? text = some e := by
  have hbound : 5 * ts.length + 3 ≤
      depthBound (Cursor.start (tokenize text).1 (Text.byteLength text.toList)) := by
    simp only [depthBound, Cursor.start, htokens, List.length_append, List.length_cons]
    omega
  obtain ⟨last, hrun⟩ := h.isRead ⟨.eof, ⟨Text.byteLength text.toList, Text.byteLength text.toList⟩, ""⟩
    ⟨.newline, ⟨stop, stop⟩, ""⟩ [⟨.eof, ⟨stop, stop⟩, ""⟩] _ (TokenKind.not_goesOnUnion (by simp)) hbound
  simp only [Cursor.start] at hrun
  rw [htokens] at hrun
  simp [parse?, hissues, htokens, Cursor.start, hrun, Cursor.at?, Cursor.kind, Cursor.peek,
    Cursor.advance, Cursor.skipWhile, Cursor.skipTokens]

/-- An expression that stands alone is read there. -/
theorem Stretch.exists_parse? (h : Stretch source slice e)
    (halone : StandsAlone (String.ofList slice)) :
    ∃ e', parse? (String.ofList slice) = some e' ∧ e'.SameButPlace e := by
  obtain ⟨behind, before, ts, opens, core, closes, s, s', hcut, hspan, hframed, hcontent⟩ := h
  obtain ⟨-, hmark, hline⟩ := halone
  obtain ⟨last, hlast, -⟩ := hframed.stop
  have hmark' : ∀ c ∈ slice.head?, c.toNat ≠ 0xfeff := fun c hc hc' => by
    rw [String.toList_ofList, Option.mem_def.mp hc, Option.map_some, hc'] at hmark
    exact hmark rfl
  obtain ⟨us, stop, hcore, hbalanced, htokens⟩ :=
    hcut.tokenize_eq hline hmark' hlast (hcontent last (List.mem_of_getLast? hlast))
  -- the tokens of the slice are balanced, so those of the expression are without the parentheses
  have hparses : Parses (.read e) core := hframed.parses (hcore ▸ hbalanced.mapSpan _)
  have hus : core.map (Token.mapSpan (Span.back s.offset)) = us := by
    rw [hcore, List.map_map]
    exact List.map_id'' (fun t => congrArg (fun span => { t with span }) (Span.back_shift _ _)) us
  have hback : Parses (.read (e.mapSpan (Span.back s.offset))) us :=
    hus ▸ hparses.mapSpan (Span.back_cover s.offset)
  refine ⟨_, parse?_of_tokens hback hline.1 htokens, s.offset, .inl ?_⟩
  refine Parses.unique ?_ hparses
  rw [hcore]
  exact hback.mapSpan (Span.shift_cover s.offset)

/-! ### Reading a text that does not -/

/-- What is read of a text that is one expression: its tokens, up to the end of the line. -/
theorem exists_of_parse? (h : parse? text = some e) :
    (tokenize text).2 = [] ∧ ∃ ts t after, (tokenize text).1 = ts ++ t :: after ∧
      Parses (.read e) ts ∧ t.kind.isContent = false ∧ t.kind ≠ .comment := by
  unfold parse? at h
  dsimp only at h
  split at h
  · rename_i hissues
    refine ⟨List.isEmpty_iff.mp hissues, ?_⟩
    split at h
    · rename_i e' c' hread
      obtain ⟨hend, hsome⟩ := Option.ite_none_right_eq_some.mp h
      obtain rfl := Option.some.inj hsome
      obtain ⟨hbefore, ts, hrest, hparses⟩ :=
        (readersYield _).read _ _ _ hread (tokenize_eof text)
      obtain ⟨prev, t, after, rfl⟩ := hbefore.exists_cons
      refine ⟨ts, t, after, hrest, hparses, ?_⟩
      -- what is passed over at the end is layout
      by_cases hnewline : t.kind = .newline
      · simp [hnewline, TokenKind.isContent]
      by_cases hdedent : t.kind = .dedent
      · simp [hdedent, TokenKind.isContent]
      have heof : t.kind = .eof := by
        simpa [Cursor.at?_cons, hnewline, Cursor.skipWhile, Cursor.skipTokens, hdedent] using hend
      simp [heof, TokenKind.isContent]
    · cases h
  · cases h

/-- When what is read from the text is as long as the expression there, the text stands alone. -/
theorem Stretch.standsAlone (h : Stretch source slice e)
    (hparse : parse? (trimmed (String.ofList slice)) = some e') (hsame : e'.SameButPlace e) :
    StandsAlone (String.ofList slice) := by
  obtain ⟨hissues, ts, t, after, htokens, hparses, -⟩ := exists_of_parse? hparse
  obtain ⟨hwell, hbound⟩ := tokenize_wellLaid _ hissues
  have horder := hwell.ordered
  rw [htokens] at horder
  obtain ⟨opens, core, closes, hframed⟩ := hparses.framed horder.of_append.1
  obtain ⟨first, hfirst, hstart⟩ := hframed.start
  obtain ⟨last, hlast, hstop⟩ := hframed.stop
  have hmem {t : Token} (ht : t ∈ core) : t ∈ ts := by simp [hframed.eq, ht]
  have hlast' := hmem (List.mem_of_getLast? hlast)
  have hfirst' := hmem (List.mem_of_mem_head? hfirst)
  obtain ⟨left, right, htrim⟩ := Text.exists_trim slice
  -- the text is no longer than the slice, and what is read in it no shorter
  have hle := hbound last (by simp [htokens, hlast'])
  obtain ⟨hlength, hpos⟩ := h.length_eq
  rw [← hsame.length_eq] at hlength
  have hslice : Text.byteLength slice = Text.byteLength left + Text.byteLength (Text.trim slice) +
      Text.byteLength right := by
    conv_lhs => rw [htrim, Text.byteLength_append, Text.byteLength_append]
  have hraw : (trimmed (String.ofList slice)).toList = Text.trim slice := by simp [trimmed]
  rw [hraw, ← hstop] at hle
  have hleft : left = [] := by
    by_contra hne
    have hleft := Text.byteLength_pos hne
    omega
  have hright : right = [] := by
    by_contra hne
    have hright := Text.byteLength_pos hne
    omega
  have hsame : trimmed (String.ofList slice) = String.ofList slice := by
    conv_rhs => rw [htrim, hleft, hright]
    simp [trimmed]
  rw [hsame] at hissues htokens
  refine ⟨hsame, fun hbom => ?_, hissues, fun t ht hkind => ?_⟩
  · -- the first token stands behind the byte order mark, and so not at the beginning
    have hbegin := Lexer.start_offset_le hissues (t := first) (by simp [htokens, hfirst'])
    rw [String.toList_ofList] at hbom hbegin
    obtain ⟨c, hc, hmark⟩ := Option.map_eq_some_iff.mp hbom
    obtain ⟨cs, rfl⟩ := List.head?_eq_some_iff.mp hc
    have hsize := c.utf8Size_pos
    rw [Lexer.start, if_pos hmark] at hbegin
    simp only [Lexer.skip, Text.byteLength] at hbegin
    omega
  · rw [htokens] at ht
    rcases List.mem_append.mp ht with ht | ht
    · have hcontent := hparses.isContent t ht
      rcases hkind with hkind | hkind <;> rw [hkind] at hcontent <;> cases hcontent
    · have hafter := horder.stop_le_start hlast' ht
      rw [String.toList_ofList]
      omega

end Expr

/-- **Which annotations are read again from what is recorded of them.** -/
theorem BodyContext.reparses_iff {source : String} (h : (Suite.parse source).issues = []) {e : Expr}
    (he : e ∈ (Suite.parse source).hints) (hmodelled : e.isUnmodelled = false)
    {ctx : BodyContext} (hctx : ctx.source = source.toList) :
    (∃ e', Expr.parse? (ctx.hint e).raw = some e' ∧ e'.SameButPlace e) ↔
      StandsAlone (e.span.text source.toList) := by
  obtain ⟨slice, hslice⟩ := Expr.exists_stretch h he hmodelled
  rw [BodyContext.hint, BodyContext.text, hctx, hslice.text_eq]
  constructor
  · rintro ⟨e', hparse, hsame⟩
    exact hslice.standsAlone hparse hsame
  · intro halone
    rw [halone.1]
    exact hslice.exists_parse? halone

/-- An annotation that runs over lines inside its brackets, and one in parentheses. -/
def spreadHints : String :=
  "def f(x: dict[\n    str, int], y: (a)):\n  pass\n"

/-- A hint that goes over two lines stands alone and is read back. -/
theorem BodyContext.reparses_iff_spread :
    (Suite.parse spreadHints).issues = [] ∧ ∃ e ∈ (Suite.parse spreadHints).hints,
      e.isUnmodelled = false ∧
      ((∃ e', Expr.parse? ((BodyContext.mk spreadHints.toList "" false false).hint e).raw = some e' ∧
          e'.SameButPlace e) ↔ StandsAlone (e.span.text spreadHints.toList)) ∧
      StandsAlone (e.span.text spreadHints.toList) := by
  have hissues : (Suite.parse spreadHints).issues = [] := by decide +kernel
  refine ⟨hissues, _, List.get_mem (Suite.parse spreadHints).hints ⟨0, by decide +kernel⟩,
    by decide +kernel, ?_, by decide +kernel⟩
  exact BodyContext.reparses_iff hissues (List.get_mem _ _) (by decide +kernel) rfl

/-- An annotation whose first operand is in parentheses. -/
def groupedHint : String :=
  "x: (list)[int] = []\n"

/-- The place of the annotation begins behind the opening parenthesis, so what is recorded of it is
    no expression. -/
theorem BodyContext.parse?_hint_grouped :
    (Suite.parse groupedHint).issues = [] ∧ ∃ e ∈ (Suite.parse groupedHint).hints,
      e.isUnmodelled = false ∧
      ((BodyContext.mk groupedHint.toList "" false false).hint e).raw = "list)[int]" ∧
      (Expr.parse? ((BodyContext.mk groupedHint.toList "" false false).hint e).raw).isNone = true := by
  refine ⟨by decide +kernel, _, List.get_mem (Suite.parse groupedHint).hints ⟨0, by decide +kernel⟩, ?_⟩
  decide +kernel

end PackageDoc
