import PackageDoc.Proofs.Skipping.Commas
import PackageDoc.Proofs.Skipping.Lambdas

namespace PackageDoc

/-!
# Lambdas that are assigned

A lambda that is assigned may be cut at its commas, and is then read as a tuple of what stands
between them.  The tuple stands where the lambda does all the same.

* `Span.EndsAmong` — a span that begins and ends with tokens; those of expressions do
  (`Expr.Parses.endsAmong`);
* `Segment` — what is left of a lambda behind a comma: there is a colon in it, so it is no expression
  of the modelled language;
* `LambdaExpr.readTupleUntil_iff` — the value stands where the lambda does unless an `=` outside
  brackets ends it in it.
-/

/-! ### Spans that begin and end with tokens -/

/-- The span begins where one of the tokens does, and ends where one of them does. -/
def Span.EndsAmong (s : Span) (ts : List Token) : Prop :=
  (∃ t ∈ ts, s.start = t.span.start) ∧ ∃ t ∈ ts, s.stop = t.span.stop

/-- The cover of two spans begins where one of them does, and ends where one of them does. -/
theorem Span.cover_ends {P Q : Nat → Prop} {s s' : Span} (h : P s.start ∧ Q s.stop)
    (h' : P s'.start ∧ Q s'.stop) : P (s.cover s').start ∧ Q (s.cover s').stop := by
  constructor
  · show P (min s.start s'.start)
    rcases Nat.le_total s.start s'.start with hle | hle
    · rw [Nat.min_eq_left hle]
      exact h.1
    · rw [Nat.min_eq_right hle]
      exact h'.1
  · show Q (max s.stop s'.stop)
    rcases Nat.le_total s.stop s'.stop with hle | hle
    · rw [Nat.max_eq_right hle]
      exact h'.2
    · rw [Nat.max_eq_left hle]
      exact h.2

namespace Span.EndsAmong

variable {s s' : Span} {ts us : List Token} {t : Token}

/-- A token's span ends among tokens that it is one of. -/
theorem of_mem (h : t ∈ ts) : t.span.EndsAmong ts :=
  ⟨⟨t, h, rfl⟩, t, h, rfl⟩

/-- A span that ends among tokens ends among more. -/
theorem mono (h : s.EndsAmong ts) (hsub : ts ⊆ us) : s.EndsAmong us := by
  obtain ⟨⟨t, ht, hstart⟩, u, hu, hstop⟩ := h
  exact ⟨⟨t, hsub ht, hstart⟩, u, hsub hu, hstop⟩

/-- So does a span that covers two such. -/
theorem cover (h : s.EndsAmong ts) (h' : s'.EndsAmong ts) : (s.cover s').EndsAmong ts :=
  cover_ends (P := fun offset => ∃ t ∈ ts, offset = t.span.start)
    (Q := fun offset => ∃ t ∈ ts, offset = t.span.stop) h h'

end Span.EndsAmong

namespace Expr

open Skipping

/-- Where the expression of a phrase stands.  What goes on with an expression leads to one that
    begins and ends with its tokens or with those of the first. -/
def Phrase.EndsAmong : Phrase → List Token → Prop
  | .read e, ts | .operand e, ts | .atom e, ts => e.span.EndsAmong ts
  | .unionTail b e, ts | .trailers b e, ts =>
    ∀ us, b.span.EndsAmong us → e.span.EndsAmong (us ++ ts)
  | _, _ => True

/-- The span of joined literals ends among them. -/
theorem endsAmong_joinLiterals (value : StringValue) {span : Span} (prev : Token) {us : List Token}
    (ts : List Token) (h : span.EndsAmong us) :
    (joinLiterals value span prev ts).2.1.EndsAmong (us ++ ts) := by
  induction ts generalizing value span prev us with
  | nil => exact h.mono (List.subset_append_left _ _)
  | cons t ts ih =>
    rw [joinLiterals]
    split
    · have hcover : (span.cover t.span).EndsAmong (us ++ [t]) :=
        (h.mono (List.subset_append_left _ _)).cover (.of_mem (by simp))
      have hmore := ih ⟨value.value ++ (decodeLiteral t.text).value,
        value.isBytes || (decodeLiteral t.text).isBytes,
        value.isFormatted || (decodeLiteral t.text).isFormatted⟩ t hcover
      rwa [List.append_assoc] at hmore
    · exact h.mono (List.subset_append_left _ _)

/-- **Expressions begin and end with their tokens.** -/
theorem Parses.endsAmong {p : Phrase} {ts : List Token} (h : Parses p ts) : p.EndsAmong ts := by
  induction h with
  | read _ _ ih ih' => exact ih' _ ih
  | applied _ _ ih ih' => exact ih' _ ih
  | unionEnd | trailersEnd => exact fun us hus => by simpa using hus
  | @unionMore l r e p ts us _ _ _ ih ih' =>
    intro vs hvs
    have hcover : (l.span.cover r.span).EndsAmong (vs ++ p :: ts) :=
      (hvs.mono (by simp)).cover (ih.mono (by simp))
    simpa using ih' _ hcover
  | negative => exact (Span.EndsAmong.of_mem (by simp)).cover (.of_mem (by simp))
  | @attr b e d t us _ _ _ ih =>
    intro vs hvs
    have hcover : (b.span.cover t.span).EndsAmong (vs ++ [d, t]) :=
      (hvs.mono (by simp)).cover (.of_mem (by simp))
    simpa using ih _ hcover
  | @subscript b i e o c ts us _ _ _ _ _ ih | @call b e i o c ts us _ _ _ _ _ ih =>
    intro vs hvs
    have hcover : (b.span.cover c.span).EndsAmong (vs ++ o :: (ts ++ [c])) :=
      (hvs.mono (by simp)).cover (.of_mem (by simp))
    simpa using ih _ hcover
  | single hsingle =>
    show Span.EndsAmong (Expr.span _) _
    rw [span_of_ofToken? hsingle]
    exact .of_mem (by simp)
  | @literals t ts _ =>
    have hjoin := endsAmong_joinLiterals ⟨"", false, false⟩ t (t :: ts)
      (Span.EndsAmong.of_mem (List.mem_singleton_self t))
    exact Span.EndsAmong.mono hjoin (by simp)
  | emptyTuple | list | dict | tuple =>
    exact (Span.EndsAmong.of_mem (by simp)).cover (.of_mem (by simp))
  | @group e o c ts _ _ _ ih =>
    exact Span.EndsAmong.mono ih (List.subset_cons_of_subset o (List.subset_append_left ts [c]))
  | _ => trivial

/-- The scan gives the offset where the last token ends that it passes. -/
theorem exists_passed (stops : List TokenKind) (depth lambdas stop : Nat) (prev : Token)
    (ts : List Token) :
    ∃ passed, ts = passed ++ (skipShape stops depth lambdas stop prev ts).2.rest ∧
      (skipShape stops depth lambdas stop prev ts).1 =
        (passed.getLast?.map fun t => t.span.stop).getD stop := by
  induction ts generalizing depth lambdas stop prev with
  | nil => exact ⟨[], rfl, rfl⟩
  | cons t ts ih =>
    rw [skipShape_cons]
    cases behind? stops ⟨depth, lambdas⟩ t with
    | none => exact ⟨[], rfl, rfl⟩
    | some s =>
      obtain ⟨passed, hts, hstop⟩ := ih s.depth s.lambdas t.span.stop t
      refine ⟨t :: passed, by rw [List.cons_append, ← hts], ?_⟩
      dsimp only
      rw [hstop]
      cases passed with
      | nil => rfl
      | cons u passed => rw [List.getLast?_cons_cons]; rfl

/-- The span of what is skipped ends among the tokens that are passed. -/
theorem endsAmong_readUnmodelled {stops : List TokenKind} {c : Cursor} {passed : List Token}
    (hpassed : c.rest = passed ++ (readUnmodelled stops c).2.rest) (hne : passed ≠ []) :
    (readUnmodelled stops c).1.span.EndsAmong passed := by
  obtain ⟨passed', hrest, hstop⟩ := exists_passed stops 0 0 c.peek.span.start c.prev c.rest
  obtain rfl : passed = passed' := List.append_cancel_right (hpassed.symm.trans hrest)
  obtain ⟨t, more, rfl⟩ := List.exists_cons_of_ne_nil hne
  have hpeek : c.peek = t := by
    rw [Cursor.peek, hpassed]
    rfl
  have hlast := List.getLast?_eq_some_getLast hne
  refine ⟨⟨t, List.mem_cons_self, congrArg (·.span.start) hpeek⟩, _, List.getLast_mem hne, ?_⟩
  show (skipShape stops 0 0 c.peek.span.start c.prev c.rest).1 = _
  rw [hstop, hlast]
  rfl

/-- An expression begins and ends with tokens that are passed, if there are any. -/
theorem endsAmong_readUntil {stops : List TokenKind} {c : Cursor} {passed : List Token}
    (hc : c.BeforeEnd) (hpassed : c.rest = passed ++ (readUntil stops c).2.rest)
    (hne : passed ≠ []) : (readUntil stops c).1.span.EndsAmong passed := by
  unfold readUntil at hpassed ⊢
  -- either an expression is read up to a stop, or the span is that of what is skipped
  split
  · rename_i e c' hread
    simp only [hread] at hpassed
    split
    · rename_i hend
      rw [if_pos hend] at hpassed
      obtain ⟨-, ts, hrest, hparses⟩ := (readersYield _).read c e c' hread hc
      obtain rfl : passed = ts := List.append_cancel_right (hpassed.symm.trans hrest)
      exact hparses.endsAmong
    · rename_i hend
      rw [if_neg hend] at hpassed
      exact endsAmong_readUnmodelled hpassed hne
  · rename_i hread
    simp only [hread] at hpassed
    exact endsAmong_readUnmodelled hpassed hne

end Expr

/-! ### Colons behind commas -/

/-- Behind every comma stands a colon. -/
def Held : List Token → Prop
  | [] => True
  | t :: ts => (t.kind = .comma → ∃ u ∈ ts, u.kind = .colon) ∧ Held ts

variable {ts us : List Token} {t c : Token}

/-- Two lists with a colon behind every comma have one joined. -/
theorem Held.append (hts : Held ts) (hus : Held us) : Held (ts ++ us) := by
  induction ts with
  | nil => exact hus
  | cons t ts ih =>
    refine ⟨fun hcomma => ?_, ih hts.2⟩
    obtain ⟨u, hu, hcolon⟩ := hts.1 hcomma
    exact ⟨u, List.mem_append_left _ hu, hcolon⟩

/-- Whatever stands in front of a colon. -/
theorem Held.behind_colon (ts : List Token) (hc : c.kind = .colon) (hus : Held us) :
    Held (ts ++ c :: us) := by
  induction ts with
  | nil => exact ⟨fun hcomma => absurd (hc.symm.trans hcomma) (by simp), hus⟩
  | cons t ts ih => exact ⟨fun _ => ⟨c, by simp, hc⟩, ih⟩

/-- If a colon stands behind every comma of two lists joined, it does in the second. -/
theorem Held.of_append (h : Held (ts ++ us)) : Held us := by
  induction ts with
  | nil => exact h
  | cons t ts ih => exact ih h.2

/-- Of a lambda everything but what is in brackets stands outside. -/
theorem outside_lambda {k : Token} (hk : k.kind = .keyword .Lambda) (hts : Balanced ts)
    (hc : c.kind = .colon) (us : List Token) :
    outside 0 (k :: (ts ++ c :: us)) = k :: (outside 0 ts ++ c :: outside 0 us) := by
  rw [outside_cons (by rw [hk]; exact ⟨rfl, rfl⟩), outside_append (hts 0),
    outside_cons (by rw [hc]; exact ⟨rfl, rfl⟩)]

/-- A part of a lambda is balanced. -/
theorem Written.balanced {p : LambdaPart} (h : Written p ts) : Balanced ts :=
  (h.skips (List.nil_subset _)).balanced

/-- In an expression the commas outside brackets stand between the parameters of lambdas. -/
theorem Written.held {p : LambdaPart} (h : Written p ts) (hp : p = .expr) : Held (outside 0 ts) := by
  induction h with
  | @token t hloose =>
    simp only [TokenKind.isLoose, Bool.not_eq_true', Bool.or_eq_false_iff] at hloose
    rw [outside_cons ⟨hloose.1.1.2, hloose.1.2⟩]
    refine ⟨fun hcomma => ?_, trivial⟩
    rw [hcomma] at hloose
    exact absurd hloose.1.1.1 (by decide)
  | group ho hts _ _ =>
    rw [outside_group ho hts]
    refine ⟨fun hcomma => ?_, trivial⟩
    rw [hcomma] at ho
    cases ho
  | lambda hk hparams hc _ _ ih =>
    rw [outside_lambda hk hparams.balanced hc]
    exact .behind_colon (_ :: _) hc (ih rfl)
  | append hfirst _ ih ih' =>
    rw [outside_append (hfirst.balanced 0)]
    exact (ih rfl).append (ih' rfl)
  | _ => cases hp

/-! ### What is left of a lambda -/

namespace Skipping

variable {stops : List TokenKind}

/-- Skipping counts the brackets that are open. -/
theorem depthBehind?_of_behind? {s s' : Skipping} (h : behind? stops s t = some s') :
    t.kind.depthBehind? s.depth = some s'.depth := by
  unfold behind? at h
  split at h
  · cases h
  · split at h
    -- outside brackets the value goes on behind a colon of a `lambda`, and behind any token that
    -- does not end it
    · rename_i hdepth
      split at h
      · rename_i hcolon
        cases h
        rw [hcolon.1, hdepth]
        rfl
      · split at h
        · cases h
        · rename_i hend
          cases h
          have hclose : t.kind.isCloseBracket = false := by
            rw [Bool.not_eq_true, Bool.or_eq_false_iff] at hend
            exact hend.1
          rw [TokenKind.depthBehind?, hclose, hdepth]
          split <;> rfl
    · obtain ⟨depth, hdepth, rfl⟩ := Option.map_eq_some_iff.mp h
      exact hdepth

/-- Behind tokens that are passed as many brackets are open as the scan counts. -/
theorem depthBehind?_of_behindAll? {s s' : Skipping} (h : behindAll? stops s ts = some s') :
    depthBehind? s.depth ts = some s'.depth := by
  induction ts generalizing s with
  | nil =>
    obtain rfl := Option.some.inj h
    rfl
  | cons t ts ih =>
    rw [behindAll?_cons] at h
    obtain ⟨s₁, ht, hts⟩ := Option.bind_eq_some_iff.mp h
    rw [depthBehind?_cons, depthBehind?_of_behind? ht]
    exact ih hts

/-- Where no colon is a stop, skipping goes on whatever lambdas are open. -/
theorem behindAll?_lambdas (hcolon : .colon ∉ stops) {depth lambdas : Nat} {s : Skipping}
    (h : behindAll? stops ⟨depth, lambdas⟩ ts = some s) (lambdas' : Nat) :
    ∃ k, behindAll? stops ⟨depth, lambdas'⟩ ts = some ⟨s.depth, k⟩ := by
  induction ts generalizing depth lambdas lambdas' with
  | nil =>
    obtain rfl := Option.some.inj h
    exact ⟨lambdas', rfl⟩
  | cons t ts ih =>
    rw [behindAll?_cons] at h
    obtain ⟨s₁, ht, hts⟩ := Option.bind_eq_some_iff.mp h
    have hstep := (behind?_lambdas hcolon depth lambdas t).trans
      (behind?_lambdas hcolon depth lambdas' t).symm
    rw [ht, Option.map_some, eq_comm, Option.map_eq_some_iff] at hstep
    obtain ⟨s₂, ht', hdepth⟩ := hstep
    obtain ⟨k, hk⟩ := ih hts s₂.lambdas
    refine ⟨k, ?_⟩
    rw [behindAll?_cons, ht', Option.bind_some, ← hk, ← hdepth]

/-- Tokens that are passed are passed up to the first comma outside brackets, if there is one. -/
theorem behindAll?_comma {s s' : Skipping} (h : behindAll? stops s ts = some s') :
    behindAll? (.comma :: stops) s ts = some s' ∨
      ∃ passed comma more s₁, ts = passed ++ comma :: more ∧ comma.kind = .comma ∧
        behindAll? (.comma :: stops) s passed = some s₁ ∧ s₁.depth = 0 ∧
        behindAll? stops s₁ (comma :: more) = some s' := by
  induction ts generalizing s with
  | nil => exact .inl h
  | cons t ts ih =>
    by_cases hcomma : s.depth = 0 ∧ t.kind = .comma
    · exact .inr ⟨[], t, ts, s, rfl, hcomma.2, rfl, hcomma.1, h⟩
    · have hstep := behind?_comma stops s t
      rw [if_neg hcomma] at hstep
      rw [behindAll?_cons] at h
      obtain ⟨s₂, ht, hts⟩ := Option.bind_eq_some_iff.mp h
      rw [ht] at hstep
      obtain hall | ⟨passed, comma, more, s₁, rfl, hkind, hpassed, hdepth, hmore⟩ := ih hts
      · left
        rw [behindAll?_cons, hstep]
        exact hall
      · refine .inr ⟨t :: passed, comma, more, s₁, rfl, hkind, ?_, hdepth, hmore⟩
        rw [behindAll?_cons, hstep]
        exact hpassed

end Skipping

/-- Tokens behind which a value may go on: skipping passes all of them, and outside brackets a
    colon stands among them, behind every comma too. -/
structure Segment (stops : List TokenKind) (ts : List Token) : Prop where
  passed : ∃ k, Skipping.behindAll? stops ⟨0, 0⟩ ts = some ⟨0, k⟩
  held : Held (outside 0 ts)
  colon : ∃ t ∈ outside 0 ts, t.kind = .colon

namespace Segment

open Skipping

variable {stops : List TokenKind}

/-- A segment has no comma outside brackets, or one with a segment behind it. -/
theorem cut (h : Segment stops ts) (hcolon : .colon ∉ stops) :
    (∃ k, behindAll? (.comma :: stops) ⟨0, 0⟩ ts = some ⟨0, k⟩) ∨
      ∃ passed comma more, ts = passed ++ comma :: more ∧ comma.kind = .comma ∧
        (∃ k, behindAll? (.comma :: stops) ⟨0, 0⟩ passed = some ⟨0, k⟩) ∧ Segment stops more := by
  obtain ⟨k, hpassed⟩ := h.passed
  obtain hall | ⟨passed, comma, more, ⟨_, k₁⟩, rfl, hkind, hfront, rfl, hmore⟩ :=
    behindAll?_comma hpassed
  · exact .inl ⟨k, hall⟩
  · refine .inr ⟨passed, comma, more, rfl, hkind, ⟨k₁, hfront⟩, ?_⟩
    -- the comma is outside brackets, so what is held outside them divides at it
    have hplain : comma.kind.isOpenBracket = false ∧ comma.kind.isCloseBracket = false := by
      rw [hkind]
      exact ⟨rfl, rfl⟩
    have houtside : outside 0 (passed ++ comma :: more) =
        outside 0 passed ++ comma :: outside 0 more := by
      rw [outside_append (depthBehind?_of_behindAll? hfront), outside_cons hplain]
    rw [behindAll?_cons] at hmore
    obtain ⟨⟨depth, k₂⟩, hcomma, hrest⟩ := Option.bind_eq_some_iff.mp hmore
    obtain rfl : 0 = depth := by
      have hdepth := depthBehind?_of_behind? hcomma
      rw [TokenKind.depthBehind?, hplain.1, hplain.2] at hdepth
      exact Option.some.inj hdepth
    have hheld := h.held
    rw [houtside] at hheld
    exact ⟨behindAll?_lambdas hcolon hrest 0, hheld.of_append.2, hheld.of_append.1 hkind⟩

theorem ne_nil (h : Segment stops ts) : ts ≠ [] := by
  rintro rfl
  obtain ⟨t, ht, -⟩ := h.colon
  exact nomatch ht

/-- A segment is no expression of the modelled language. -/
theorem not_parses (h : Segment stops ts) {e : Expr} : ¬ Expr.Parses (.read e) ts := by
  intro hparses
  obtain ⟨t, ht, hcolon⟩ := h.colon
  rcases hparses.plain trivial t ht with hloose | hopen
  · exact TokenKind.ne_colon_of_isLoose hloose hcolon
  · rw [hcolon] at hopen
    cases hopen

/-- A segment that is passed where a comma ends expressions is read as one unmodelled expression. -/
theorem readUntil_of_passed (h : Segment stops ts) (hstops : stops ⊆ Expr.stopKinds)
    (hcolon : .colon ∉ stops) {k : Nat}
    (hall : behindAll? (.comma :: stops) ⟨0, 0⟩ ts = some ⟨0, k⟩) {prev t : Token}
    {after : List Token} (hc : Cursor.BeforeEnd ⟨prev, ts ++ t :: after⟩)
    (hend : t.kind.isCloseBracket = true ∨ Expr.endsAt stops t.kind = true) :
    ∃ first last, first ∈ ts.head? ∧ last ∈ ts.getLast? ∧
      Expr.readUntil (.comma :: stops) ⟨prev, ts ++ t :: after⟩ =
        (.unmodelled ⟨first.span.start, last.span.stop⟩, ⟨last, t :: after⟩) := by
  have hcolon' : .colon ∉ .comma :: stops := by simpa using hcolon
  obtain ⟨first, more, rfl⟩ := List.exists_cons_of_ne_nil h.ne_nil
  have hlast := List.getLast?_eq_some_getLast (List.cons_ne_nil first more)
  have hskip := Expr.readUnmodelled_of_passed prev hall hlast fun stop last =>
    (Expr.skipShape_lambdas hcolon' 0 k stop last (t :: after)).trans
      (Expr.skipShape_end (hend.imp_right Expr.endsAt_comma) after)
  refine ⟨first, _, rfl, hlast, ?_⟩
  rw [← hskip]
  unfold Expr.readUntil
  split
  · rename_i e c' hread
    split
    · -- what is read up to there would be the whole segment
      rename_i hstop
      have hplace := Expr.place_readUnmodelled hc (Expr.comma_subset hstops) hread hstop
      rw [hskip] at hplace
      obtain ⟨-, us, hrest, hparses⟩ := (Expr.readersYield _).read _ e c' hread hc
      rw [← hplace] at hrest
      obtain rfl : first :: more = us := List.append_cancel_right hrest
      exact absurd hparses h.not_parses
    · rfl
  · rfl

/-- Reading at the beginning of a segment reads all of it, as one unmodelled expression, or reads up
    to a comma with a segment behind it. -/
theorem read (h : Segment stops ts) (hstops : stops ⊆ Expr.stopKinds) (hcolon : .colon ∉ stops)
    {prev t : Token} {after : List Token} (hc : Cursor.BeforeEnd ⟨prev, ts ++ t :: after⟩)
    (hend : t.kind.isCloseBracket = true ∨ Expr.endsAt stops t.kind = true) :
    (∃ first last, first ∈ ts.head? ∧ last ∈ ts.getLast? ∧
        Expr.readUntil (.comma :: stops) ⟨prev, ts ++ t :: after⟩ =
          (.unmodelled ⟨first.span.start, last.span.stop⟩, ⟨last, t :: after⟩)) ∨
      ∃ passed comma more last, ts = passed ++ comma :: more ∧ comma.kind = .comma ∧
        Segment stops more ∧
        (Expr.readUntil (.comma :: stops) ⟨prev, ts ++ t :: after⟩).2 =
          ⟨last, comma :: (more ++ t :: after)⟩ := by
  obtain ⟨k, hall⟩ | ⟨passed, comma, more, rfl, hkind, ⟨k, hpassed⟩, hmore⟩ := h.cut hcolon
  · exact .inl (h.readUntil_of_passed hstops hcolon hall hc hend)
  · refine .inr ⟨passed, comma, more, passed.getLastD prev, rfl, hkind, hmore, ?_⟩
    have hcolon' : .colon ∉ .comma :: stops := by simpa using hcolon
    have hstop : Expr.endsAt (.comma :: stops) comma.kind = true := by simp [Expr.endsAt, hkind]
    rw [Expr.place_readUntil hc (Expr.comma_subset hstops)]
    show (Expr.skipShape _ 0 0 _ prev (passed ++ comma :: more ++ t :: after)).2 = _
    rw [List.append_assoc, Expr.skipShape_append hpassed, Expr.skipShape_lambdas hcolon',
      List.cons_append, Expr.skipShape_end (.inr hstop)]

end Segment

/-! ### Where a tuple stands -/

namespace Expr

open Skipping

variable {stops : List TokenKind} {first prev comma : Token} {after passed : List Token} {c : Cursor}
variable {s : Span} {lo hi : Nat}

/-- Tokens that stand between two offsets. -/
def Between (lo hi : Nat) (ts : List Token) : Prop :=
  ∀ t ∈ ts, lo ≤ t.span.start ∧ t.span.start ≤ t.span.stop ∧ t.span.stop ≤ hi

/-- An expression stands between two offsets when the tokens that are passed do, and the next. -/
theorem between_readUntil {last next : Token} (hc : c.BeforeEnd)
    (hplace : (readUntil stops c).2 = ⟨last, next :: after⟩) (hrest : c.rest = passed ++ next :: after)
    (hpassed : Between lo hi passed)
    (hnext : lo ≤ next.span.start ∧ next.span.start ≤ next.span.stop ∧ next.span.stop ≤ hi) :
    lo ≤ (readUntil stops c).1.span.start ∧ (readUntil stops c).1.span.stop ≤ hi := by
  by_cases hne : passed = []
  · -- nothing is passed, so the expression is empty and stands where the next token begins
    subst hne
    rcases passes_readUntil stops c (by rw [hrest]; exact List.cons_ne_nil _ _) with hpasses | heq
    · have hlength := hpasses.2.length_le
      rw [hplace, Cursor.advance, hrest] at hlength
      exact absurd hlength (Nat.not_succ_le_self _)
    · have hpeek : c.peek = next := by
        rw [Cursor.peek, hrest]
        rfl
      rw [heq]
      show lo ≤ c.peek.span.start ∧ c.peek.span.start ≤ hi
      rw [hpeek]
      exact ⟨hnext.1, hnext.2.1.trans hnext.2.2⟩
  · have hends := endsAmong_readUntil hc (by rw [hrest, hplace] : c.rest = passed ++ _) hne
    obtain ⟨⟨t, ht, hstart⟩, u, hu, hstop⟩ := hends
    rw [hstart, hstop]
    exact ⟨(hpassed t ht).1, (hpassed u hu).2.2⟩

/-- What is passed outside brackets ends nothing. -/
theorem endsAt_of_behind? {k : Skipping} (h : behind? stops ⟨0, 0⟩ t = some k) :
    endsAt stops t.kind = false := by
  rw [behind?, if_pos rfl] at h
  split at h
  · cases h
  · split at h
    · rename_i hcolon
      exact absurd hcolon.2 (Nat.lt_irrefl 0)
    · split at h
      · cases h
      · rename_i hend
        rw [Bool.not_eq_true, Bool.or_eq_false_iff] at hend
        exact hend.2

/-- What ends a value is no comma, unless that is a stop. -/
theorem ne_comma_of_ends (hcomma : .comma ∉ stops)
    (hend : t.kind.isCloseBracket = true ∨ endsAt stops t.kind = true) : t.kind ≠ .comma := by
  intro hkind
  rw [hkind] at hend
  simp [endsAt, hcomma, TokenKind.isCloseBracket, TokenKind.isLineEnd] at hend

/-- Without a comma there are no further items. -/
theorem readItems_of_ne_comma (hkind : t.kind ≠ .comma) (n : Nat) :
    readItems stops n ⟨prev, t :: after⟩ = ([], ⟨prev, t :: after⟩) := by
  cases n with
  | zero => rfl
  | succ n =>
    have hat : (⟨prev, t :: after⟩ : Cursor).at? .comma = false := by
      simp [Cursor.at?_cons, hkind]
    rw [readItems, hat, if_neg Bool.false_ne_true]

/-- A span covers from the first start to the last stop. -/
theorem cover_of_le {s s' : Span} (hstart : s.start ≤ s'.start) (hstop : s.stop ≤ s'.stop) :
    s.cover s' = ⟨s.start, s'.stop⟩ :=
  congrArg₂ Span.mk (Nat.min_eq_left hstart) (Nat.max_eq_right hstop)

/-- Behind a comma with a segment behind it, the items lead to the end of the segment. -/
theorem readItems_span (hstops : stops ⊆ stopKinds) (hcolon : .colon ∉ stops)
    (hcomma : .comma ∉ stops)
    (hend : t.kind.isCloseBracket = true ∨ endsAt stops t.kind = true) {n : Nat}
    (h : Segment stops ts) (hn : ts.length < n) (hkind : comma.kind = .comma)
    (hc : Cursor.BeforeEnd ⟨prev, comma :: (ts ++ t :: after)⟩) (hbetween : Between lo hi ts)
    (hlast : ∀ u ∈ ts.getLast?, u.span.stop = hi) (hstart : s.start ≤ lo) (hstop : s.stop ≤ hi) :
    (readItems stops n ⟨prev, comma :: (ts ++ t :: after)⟩).1.foldl (fun s e => s.cover e.span) s =
      ⟨s.start, hi⟩ := by
  induction n generalizing ts prev comma s with
  | zero => exact absurd hn (Nat.not_lt_zero _)
  | succ n ih =>
    have hcomma' : (⟨prev, comma :: (ts ++ t :: after)⟩ : Cursor).at? .comma = true := by
      simp [Cursor.at?_cons, hkind]
    have hc' : Cursor.BeforeEnd ⟨comma, ts ++ t :: after⟩ :=
      (hc.advance (show comma.kind ≠ .eof by rw [hkind]; simp)).1
    have hgo : endsAt stops (Cursor.mk comma (ts ++ t :: after)).kind = false := by
      obtain ⟨k, hpassed⟩ := h.passed
      obtain ⟨first, more, rfl⟩ := List.exists_cons_of_ne_nil h.ne_nil
      rw [behindAll?_cons] at hpassed
      obtain ⟨k', hfirst, -⟩ := Option.bind_eq_some_iff.mp hpassed
      exact endsAt_of_behind? hfirst
    rw [readItems, if_pos hcomma', Cursor.advance_cons]
    dsimp only
    rw [hgo, if_neg Bool.false_ne_true, List.foldl_cons]
    obtain ⟨first, last, hfirst, hlast', heq⟩ | ⟨passed, comma', more, last, rfl, hkind', hmore, hplace⟩ :=
      h.read hstops hcolon hc' hend
    · rw [heq, readItems_of_ne_comma (ne_comma_of_ends hcomma hend), ← hlast last hlast']
      have hle := (hbetween first (List.mem_of_mem_head? hfirst)).1
      exact cover_of_le (hstart.trans hle) (hlast last hlast' ▸ hstop)
    · obtain ⟨hfront, hback⟩ := List.forall_mem_append.mp hbetween
      obtain ⟨hnext, hmore'⟩ := List.forall_mem_cons.mp hback
      have hitem := between_readUntil hc' hplace (by simp) hfront hnext
      have hahead := (within_readUntil (.comma :: stops) _).ahead hc'
      -- the item stands behind the first one, so the span still begins where it did
      have hcover := Nat.min_eq_left (hstart.trans hitem.1)
      rw [hplace] at hahead ⊢
      have hlength : more.length < n := by
        simp only [List.length_append, List.length_cons] at hn
        omega
      have hlast' : ∀ u ∈ more.getLast?, u.span.stop = hi := fun u hu =>
        hlast u (mem_getLast?_append _ (mem_getLast?_append [comma'] hu))
      refine (ih hmore hlength hkind' hahead hmore' hlast'
        (hcover.trans_le hstart) (Nat.max_le.mpr ⟨hstop, hitem.2⟩)).trans ?_
      exact congrArg (Span.mk · hi) hcover

end Expr

/-! ### Assigned lambdas -/

namespace LambdaExpr

variable (l : LambdaExpr) {stops : List TokenKind} {prev : Token} {after : List Token}

/-- The tokens of a lambda lie between its keyword and its last token. -/
theorem between (hapart : l.tokens.Pairwise fun t u => t.span.stop ≤ u.span.start)
    (hforward : ∀ t ∈ l.tokens, t.span.start ≤ t.span.stop) :
    Expr.Between l.keyword.span.start l.last.span.stop l.tokens := by
  intro t ht
  refine ⟨?_, hforward t ht, ?_⟩
  · rcases List.mem_cons.mp ht with rfl | hmore
    · exact le_rfl
    · exact (hforward _ List.mem_cons_self).trans (List.rel_of_pairwise_cons hapart hmore)
  · obtain ⟨us, heq⟩ := List.getLast?_eq_some_iff.mp l.getLast?_tokens
    rw [heq] at ht hapart hforward
    rcases List.mem_append.mp ht with hfront | hlast
    · have hle := (List.pairwise_append.mp hapart).2.2 t hfront l.last (List.mem_singleton_self _)
      exact hle.trans (hforward l.last (by simp))
    · rw [List.mem_singleton.mp hlast]

/-- A value may go on behind a lambda that is whole. -/
theorem segment (hstops : stops ⊆ Expr.stopKinds) (hwhole : Whole stops l.tokens) :
    Segment stops l.tokens where
  passed := ⟨0, (l.skips hstops).passed hwhole 0⟩
  held := (Written.lambda l.isKeyword l.isParams l.isColon l.isBody).held rfl
  colon := by
    refine ⟨l.colon, ?_, l.isColon⟩
    rw [tokens, outside_lambda l.isKeyword l.isParams.balanced l.isColon]
    simp

/-- A lambda that is cut at its commas makes up a value that stands where the lambda does. -/
theorem span_readTupleUntil (hstops : stops ⊆ Expr.stopKinds) (hcolon : .colon ∉ stops)
    (hcomma : .comma ∉ stops)
    (hafter : t.kind.isCloseBracket = true ∨ Expr.endsAt stops t.kind = true)
    (hc : Cursor.BeforeEnd ⟨prev, l.tokens ++ t :: after⟩)
    (hbetween : Expr.Between l.keyword.span.start l.last.span.stop l.tokens)
    (hwhole : Whole stops l.tokens) :
    (Expr.readTupleUntil stops ⟨prev, l.tokens ++ t :: after⟩).1.span = l.span := by
  unfold Expr.readTupleUntil
  dsimp only
  obtain ⟨first, last, hfirst, hlast, heq⟩ | ⟨passed, comma, more, last, htokens, hkind, hmore, hplace⟩ :=
    (l.segment hstops hwhole).read hstops hcolon hc hafter
  · obtain rfl : first = l.keyword := (Option.some.inj hfirst).symm
    obtain rfl : last = l.last := Option.some.inj (hlast.symm.trans l.getLast?_tokens)
    have hnone : (⟨l.last, t :: after⟩ : Cursor).at? .comma = false := by
      simp [Cursor.at?_cons, Expr.ne_comma_of_ends hcomma hafter]
    rw [heq, hnone, if_neg Bool.false_ne_true]
    rfl
  · -- the first part begins with the keyword, and the items lead to the end of the body
    have hat : (⟨last, comma :: (more ++ t :: after)⟩ : Cursor).at? .comma = true := by
      simp [Cursor.at?_cons, hkind]
    have hahead := (Expr.within_readUntil (.comma :: stops) _).ahead hc
    have hstart := congrArg (·.1.span.start) (l.readUntil_eq (.comma :: stops) prev (t :: after))
    rw [htokens] at hbetween
    obtain ⟨hfront, hback⟩ := List.forall_mem_append.mp hbetween
    obtain ⟨hnext, hmore'⟩ := List.forall_mem_cons.mp hback
    have hfirst := Expr.between_readUntil hc hplace (by simp [htokens]) hfront hnext
    have hend : ∀ u ∈ more.getLast?, u.span.stop = l.last.span.stop := by
      intro u hu
      have hmem := Expr.mem_getLast?_append passed (Expr.mem_getLast?_append [comma] hu)
      rw [List.singleton_append, ← htokens, l.getLast?_tokens] at hmem
      rw [Option.some.inj hmem]
    have hlength : more.length < (comma :: (more ++ t :: after)).length := by
      simp only [List.length_cons, List.length_append]
      omega
    rw [hplace] at hahead
    rw [hplace, hat, if_pos rfl]
    have hspan := Expr.readItems_span hstops hcolon hcomma hafter hmore hlength hkind hahead hmore'
      hend hstart.le hfirst.2
    exact hspan.trans (congrArg (Span.mk · l.last.span.stop) hstart)

/-- **A lambda that may be cut at its commas** makes up a value that stands where the lambda does,
    unless a token outside brackets ends the value in it. -/
theorem readTupleUntil_iff (hstops : stops ⊆ Expr.stopKinds) (hcolon : .colon ∉ stops)
    (hcomma : .comma ∉ stops)
    (hafter : t.kind.isCloseBracket = true ∨ Expr.endsAt stops t.kind = true)
    (hc : Cursor.BeforeEnd ⟨prev, l.tokens ++ t :: after⟩)
    (hbetween : Expr.Between l.keyword.span.start l.last.span.stop l.tokens) :
    ((Expr.readTupleUntil stops ⟨prev, l.tokens ++ t :: after⟩).1.span = l.span ∧
        (Expr.readTupleUntil stops ⟨prev, l.tokens ++ t :: after⟩).2 = ⟨l.last, t :: after⟩) ↔
      Whole stops l.tokens := by
  have hplace := Expr.place_tuple hcolon hcomma hstops hc
  constructor
  · rintro ⟨-, hbehind⟩
    apply l.whole_of_readUnmodelled hstops
    exact hplace.symm.trans hbehind
  · intro hwhole
    refine ⟨l.span_readTupleUntil hstops hcolon hcomma hafter hc hbetween hwhole, ?_⟩
    rw [hplace, l.readUnmodelled_of_whole hstops hafter hwhole]

/-- As a value the lambda is one expression unless a comma outside brackets cuts it, or a token that
    ends the value. -/
theorem readTupleUntil_eq_iff (hstops : stops ⊆ Expr.stopKinds) (hcomma : .comma ∉ stops)
    (hafter : t.kind.isCloseBracket = true ∨ Expr.endsAt stops t.kind = true) :
    Expr.readTupleUntil stops ⟨prev, l.tokens ++ t :: after⟩ =
        (.unmodelled l.span, ⟨l.last, t :: after⟩) ↔ Whole (.comma :: stops) l.tokens := by
  have hfirst : Expr.readUntil (.comma :: stops) ⟨prev, l.tokens ++ t :: after⟩ =
      (.unmodelled l.span, ⟨l.last, t :: after⟩) ↔ _ :=
    l.readUntil_iff (Expr.comma_subset hstops) (hafter.imp_right Expr.endsAt_comma)
  rw [← hfirst]
  unfold Expr.readTupleUntil
  dsimp only
  constructor
  · intro heq
    split at heq
    · cases (Prod.mk.inj heq).1
    · exact heq
  · intro heq
    have hnone : (⟨l.last, t :: after⟩ : Cursor).at? .comma = false := by
      simp [Cursor.at?_cons, Expr.ne_comma_of_ends hcomma hafter]
    rw [heq, hnone, if_neg Bool.false_ne_true]

end LambdaExpr

end PackageDoc
