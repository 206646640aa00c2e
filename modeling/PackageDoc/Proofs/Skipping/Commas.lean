import PackageDoc.Proofs.Skipping.Places

namespace PackageDoc

/-!
# Commas do not end a value

An assigned value may be several expressions that commas separate.  Where it ends, neither the
commas nor the lambdas met on the way make a difference.

* `Expr.skipShape_comma` — from where a comma ends the scan, it goes on to the same place;
* `Expr.place_tuple` — behind expressions separated by commas a statement goes on where skipping
  ends that takes no notice of commas.
-/

namespace Skipping

variable {stops : List TokenKind} {s : Skipping} {t : Token}

/-- A comma among the stops ends an expression outside brackets; that is all the difference. -/
theorem behind?_comma (stops : List TokenKind) (s : Skipping) (t : Token) :
    behind? (.comma :: stops) s t =
      if s.depth = 0 ∧ t.kind = .comma then none else behind? stops s t := by
  unfold behind?
  by_cases hdepth : s.depth = 0
  · by_cases hcomma : t.kind = .comma
    · simp [hdepth, hcomma, Expr.endsAt, TokenKind.isLineEnd]
    · simp [hdepth, hcomma, Expr.endsAt]
  · simp [hdepth]

/-- Where no colon ends an expression, lambdas make no difference. -/
theorem behind?_lambdas (hcolon : .colon ∉ stops) (depth lambdas : Nat) (t : Token) :
    (behind? stops ⟨depth, lambdas⟩ t).map Skipping.depth =
      (behind? stops ⟨depth, 0⟩ t).map Skipping.depth := by
  unfold behind?
  by_cases hkind : t.kind = .colon
  · by_cases hdepth : depth = 0 <;> by_cases hlambdas : 0 < lambdas <;>
      simp [hkind, hdepth, hlambdas, Expr.endsAt, hcolon, TokenKind.isLineEnd,
        TokenKind.isCloseBracket, TokenKind.isOpenBracket, TokenKind.depthBehind?]
  · by_cases hdepth : depth = 0
    · simp only [hkind, hdepth, false_and, if_false, if_true, apply_ite (Option.map Skipping.depth),
        Option.map_some, Option.map_none]
    · simp only [hdepth, if_false, apply_ite (Option.map Skipping.depth), Option.map_map]
      rfl

/-- The end of a line ends every expression. -/
theorem endsAt_of_isLineEnd {kind : TokenKind} (h : kind.isLineEnd = true) :
    Expr.endsAt stops kind = true := by
  simp [Expr.endsAt, h]

/-- The scan ends in front of a token that ends expressions, or of a closing bracket. -/
theorem ends_of_behind? (h : behind? stops s t = none) :
    t.kind.isCloseBracket = true ∨ Expr.endsAt stops t.kind = true := by
  unfold behind? at h
  split at h
  · exact .inr (endsAt_of_isLineEnd ‹_›)
  · split at h
    · split at h
      · cases h
      · split at h
        · rename_i hend
          exact Bool.or_eq_true_iff.mp hend
        · cases h
    · rename_i hdepth
      rw [Option.map_eq_none_iff, TokenKind.depthBehind?] at h
      split_ifs at h

end Skipping

namespace Expr

open Skipping

variable {stops : List TokenKind} {depth lambdas stop : Nat} {prev t : Token} {ts : List Token}
variable {c : Cursor}

/-- Where no colon is a stop, lambdas need not be counted. -/
theorem skipShape_lambdas (hcolon : .colon ∉ stops) (depth lambdas stop : Nat) (prev : Token)
    (ts : List Token) :
    skipShape stops depth lambdas stop prev ts = skipShape stops depth 0 stop prev ts := by
  induction ts generalizing depth lambdas stop prev with
  | nil => rfl
  | cons t ts ih =>
    have hstep := behind?_lambdas hcolon depth lambdas t
    rw [skipShape_cons, skipShape_cons]
    cases h : behind? stops ⟨depth, lambdas⟩ t with
    | none =>
      rw [h, Option.map_none, eq_comm, Option.map_eq_none_iff] at hstep
      rw [hstep]
    | some s =>
      rw [h, Option.map_some, eq_comm, Option.map_eq_some_iff] at hstep
      obtain ⟨s', h', hdepth⟩ := hstep
      rw [h']
      dsimp only
      rw [ih, ih s'.depth s'.lambdas, hdepth]

/-- The scan ends at the end of the tokens, at a token that ends expressions or at a closing
    bracket. -/
theorem ends_skipShape (stops : List TokenKind) (depth lambdas stop : Nat) (prev : Token)
    (ts : List Token) :
    ∀ t ∈ (skipShape stops depth lambdas stop prev ts).2.rest.head?,
      t.kind.isCloseBracket = true ∨ endsAt stops t.kind = true := by
  induction ts generalizing depth lambdas stop prev with
  | nil => exact fun t ht => nomatch ht
  | cons u ts ih =>
    rw [skipShape_cons]
    cases h : behind? stops ⟨depth, lambdas⟩ u with
    | some s => exact ih s.depth s.lambdas u.span.stop u
    | none =>
      rintro t ⟨⟩
      exact ends_of_behind? h

/-- Where the scan ends has nothing to do with the offset it would give. -/
theorem place_skipShape (stops : List TokenKind) (depth lambdas stop stop' : Nat) (prev : Token)
    (ts : List Token) :
    (skipShape stops depth lambdas stop prev ts).2 =
      (skipShape stops depth lambdas stop' prev ts).2 := by
  cases ts with
  | nil => rfl
  | cons t ts =>
    rw [skipShape_cons, skipShape_cons]
    cases behind? stops ⟨depth, lambdas⟩ t <;> rfl

/-- From where a comma ends the scan, it goes on to the place where it ends without commas. -/
theorem skipShape_comma (hcolon : .colon ∉ stops) (depth lambdas stop stop' : Nat) (prev : Token)
    (ts : List Token) :
    (skipShape stops depth lambdas stop prev ts).2 =
      (skipShape stops 0 0 stop' (skipShape (.comma :: stops) depth lambdas stop prev ts).2.prev
        (skipShape (.comma :: stops) depth lambdas stop prev ts).2.rest).2 := by
  induction ts generalizing depth lambdas stop prev with
  | nil => rfl
  | cons t ts ih =>
    have hcomma := behind?_comma stops ⟨depth, lambdas⟩ t
    rw [skipShape_cons stops, skipShape_cons (.comma :: stops), hcomma]
    -- only a comma outside brackets ends the one scan but not the other
    by_cases houtside : depth = 0 ∧ t.kind = .comma
    · rw [if_pos houtside]
      obtain ⟨rfl, -⟩ := houtside
      rw [← skipShape_cons, skipShape_lambdas hcolon]
      exact place_skipShape stops 0 0 stop stop' prev (t :: ts)
    · rw [if_neg houtside]
      cases h : behind? stops ⟨depth, lambdas⟩ t with
      | some s => exact ih s.depth s.lambdas t.span.stop t
      | none =>
        dsimp only
        rw [skipShape_end (ends_of_behind? h)]

/-! ### Skipping several expressions -/

/-- With the comma as a stop, what ends an expression still does. -/
theorem endsAt_comma {kind : TokenKind} (h : endsAt stops kind = true) :
    endsAt (.comma :: stops) kind = true := by
  simp only [endsAt, Bool.or_eq_true, List.contains_cons] at h ⊢
  tauto

/-- What ends an expression where a comma does, and is no comma, ends it where a comma does not. -/
theorem ends_of_comma (h : t.kind.isCloseBracket = true ∨ endsAt (.comma :: stops) t.kind = true)
    (hkind : t.kind ≠ .comma) : t.kind.isCloseBracket = true ∨ endsAt stops t.kind = true := by
  refine h.imp_right fun hend => ?_
  simpa [endsAt, hkind] using hend

/-- Skipping items one by one goes where skipping past their commas goes. -/
theorem skipItems_eq (hcolon : .colon ∉ stops) (hcomma : .comma ∉ stops) (stop : Nat) {n : Nat}
    (hn : c.rest.length ≤ n) (hc : c.BeforeEnd)
    (hends : ∀ t ∈ c.rest.head?, t.kind.isCloseBracket = true ∨ endsAt (.comma :: stops) t.kind = true) :
    skipItems stops n c = (skipShape stops 0 0 stop c.prev c.rest).2 := by
  induction n generalizing c stop with
  | zero =>
    obtain ⟨prev, t, ts, rfl⟩ := hc.exists_cons
    cases hn
  | succ n ih =>
    obtain ⟨prev, t, ts, rfl⟩ := hc.exists_cons
    have hat : (⟨prev, t :: ts⟩ : Cursor).at? .comma = (t.kind == .comma) := rfl
    rw [skipItems, hat]
    by_cases hkind : t.kind = .comma
    -- a comma is no stop, so passing over all goes on behind it, where the next item begins
    · have hpass : behind? stops ⟨0, 0⟩ t = some ⟨0, 0⟩ := by
        simp [behind?, hkind, endsAt, hcomma, TokenKind.isLineEnd, TokenKind.isCloseBracket,
          TokenKind.isOpenBracket]
      have hc' : (⟨t, ts⟩ : Cursor).BeforeEnd :=
        (hc.advance (show t.kind ≠ .eof by rw [hkind]; simp)).1
      rw [if_pos (by simp [hkind]), skipShape_cons, hpass, Cursor.advance_cons]
      dsimp only
      split
      · obtain ⟨_, u, us, hcons⟩ := hc'.exists_cons
        obtain ⟨rfl, rfl⟩ := Cursor.mk.inj hcons
        rw [skipShape_end (.inr ‹_›)]
      · have hwithin := within_readUnmodelled (.comma :: stops) ⟨t, ts⟩
        have hlength := hwithin.length_le
        simp only [List.length_cons] at hn hlength
        have hnext := ends_skipShape (.comma :: stops) 0 0 (Cursor.mk t ts).peek.span.start t ts
        rw [ih t.span.stop (by omega) (hwithin.ahead hc') hnext]
        rw [place_skipShape stops 0 0 t.span.stop (Cursor.mk t ts).peek.span.start t ts]
        exact (skipShape_comma hcolon 0 0 _ _ t ts).symm
    · have hend := ends_of_comma (hends t rfl) hkind
      rw [if_neg (by simp [hkind]), skipShape_end hend]

/-- **Commas do not end a value.**  Behind expressions that commas separate a statement goes on
    where skipping ends that takes no notice of commas. -/
theorem place_tuple (hcolon : .colon ∉ stops) (hcomma : .comma ∉ stops)
    (hstops : stops ⊆ stopKinds) (hc : c.BeforeEnd) :
    (readTupleUntil stops c).2 = (readUnmodelled stops c).2 := by
  have hwithin := within_readUnmodelled (.comma :: stops) c
  have hends := ends_skipShape (.comma :: stops) 0 0 c.peek.span.start c.prev c.rest
  rw [place_readTupleUntil hc hstops]
  show skipTuple stops c = (skipShape stops 0 0 c.peek.span.start c.prev c.rest).2
  rw [skipShape_comma hcolon 0 0 c.peek.span.start 0, skipTuple]
  split
  · exact skipItems_eq hcolon hcomma 0 le_rfl (hwithin.ahead hc) hends
  · rename_i hat
    have hfirst : (readUnmodelled (.comma :: stops) c).2.BeforeEnd := hwithin.ahead hc
    obtain ⟨prev, t, ts, hplace⟩ := hfirst.exists_cons
    have hshape : (skipShape (.comma :: stops) 0 0 c.peek.span.start c.prev c.rest).2 =
        ⟨prev, t :: ts⟩ := hplace
    have hkind : t.kind ≠ .comma := by
      intro hkind
      rw [hplace] at hat
      exact hat (by simp [Cursor.at?_cons, hkind])
    rw [hshape] at hends ⊢
    rw [hplace, skipShape_end (ends_of_comma (hends t rfl) hkind)]

end Expr
end PackageDoc
