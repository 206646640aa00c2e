import PackageDoc.Proofs.Annotation.Hints
import PackageDoc.Proofs.Skipping.Passing

namespace PackageDoc

/-!
# Where a statement goes on behind an expression

Behind an expression a statement goes on where skipping the expression ends, whether its shape is
modelled or not.

* `Expr.place_readUnmodelled` — skipping ends where reading does, when reading ends at a stop;
* `Expr.skipTuple` — skipping expressions separated by commas;
* `Expr.place_behind` — the places behind an expression of any shape and behind a tuple of such.
-/

namespace Expr

open Skipping

variable {stops : List TokenKind} {c c' : Cursor} {e : Expr}

/-- What reading passes, skipping passes too. -/
theorem place_readUnmodelled (hc : c.BeforeEnd) (hstops : stops ⊆ stopKinds) {n : Nat}
    (hread : (read n).run c = some (e, c')) (hend : endsAt stops c'.kind = true) :
    (readUnmodelled stops c).2 = c' := by
  obtain ⟨hc', ts, hrest, hparses⟩ := (readersYield n).read c e c' hread hc
  obtain ⟨passed, hpassed, -, hprev⟩ := (readersStay n).read c e c' hread
  obtain rfl : passed = ts := List.append_cancel_right (hpassed.symm.trans hrest)
  obtain ⟨prev, t, after, rfl⟩ := hc'.exists_cons
  have hend : endsAt stops t.kind = true := hend
  have hskip := hparses.passed hstops 0
  unfold readUnmodelled
  rw [hrest]
  dsimp only
  rw [skipShape_append hskip]
  dsimp only
  rw [skipShape_end (.inr hend)]
  exact congrArg (Cursor.mk · _) hprev.symm

/-- Behind an expression a statement goes on where skipping it ends. -/
theorem place_readUntil (hc : c.BeforeEnd) (hstops : stops ⊆ stopKinds) :
    (readUntil stops c).2 = (readUnmodelled stops c).2 := by
  unfold readUntil
  split
  · rename_i e c' hread
    split
    · rename_i hend
      exact (place_readUnmodelled hc hstops hread hend).symm
    · rfl
  · rfl

/-- Skip expressions after a comma each, up to one of `stops`, in at most `n` steps. -/
def skipItems (stops : List TokenKind) : (n : Nat) → Cursor → Cursor
  | 0, c => c
  | n + 1, c =>
    if c.at? .comma then
      if endsAt stops c.advance.kind then c.advance
      else skipItems stops n (readUnmodelled (.comma :: stops) c.advance).2
    else c

/-- Skip expressions separated by commas. -/
def skipTuple (stops : List TokenKind) (c : Cursor) : Cursor :=
  let first := (readUnmodelled (.comma :: stops) c).2
  if first.at? .comma then skipItems stops first.rest.length first else first

/-- The comma is among the stops that there are. -/
theorem comma_subset (hstops : stops ⊆ stopKinds) : (.comma :: stops) ⊆ stopKinds :=
  List.cons_subset.mpr ⟨List.mem_cons_self, hstops⟩

/-- Items are read to where they are skipped to. -/
theorem place_readItems (hc : c.BeforeEnd) (hstops : stops ⊆ stopKinds) (n : Nat) :
    (readItems stops n c).2 = skipItems stops n c := by
  induction n generalizing c with
  | zero => rfl
  | succ n ih =>
    rw [readItems, skipItems]
    by_cases hcomma : c.at? .comma = true
    · rw [if_pos hcomma, if_pos hcomma]
      have hkind : c.kind = .comma := eq_of_beq hcomma
      have hc' : c.advance.BeforeEnd := (hc.advance (by rw [hkind]; simp)).1
      dsimp only
      split
      · rfl
      · have hwithin := within_readUnmodelled (.comma :: stops) c.advance
        have hplace := place_readUntil hc' (comma_subset hstops)
        show (readItems stops n (readUntil (.comma :: stops) c.advance).2).2 = _
        rw [hplace]
        exact ih (hwithin.ahead hc')
    · rw [if_neg hcomma, if_neg hcomma]

/-- So is a tuple without brackets. -/
theorem place_readTupleUntil (hc : c.BeforeEnd) (hstops : stops ⊆ stopKinds) :
    (readTupleUntil stops c).2 = skipTuple stops c := by
  have hplace := place_readUntil hc (comma_subset hstops)
  have hwithin := within_readUnmodelled (.comma :: stops) c
  unfold readTupleUntil skipTuple
  dsimp only
  rw [hplace]
  split
  · exact place_readItems (hwithin.ahead hc) hstops _
  · exact hplace

/-- **Modelled and skipped expressions end at the same token.**  Where reading an expression ends at
    one of `stops`, skipping it ends too.  So behind an expression, and behind several that commas
    separate, a statement goes on where it would if no shape were modelled. -/
theorem place_behind {source : String} (hc : c.Amid (tokenize source).1)
    (hstops : stops ⊆ stopKinds) :
    (∀ n e c', (read n).run c = some (e, c') → endsAt stops c'.kind = true →
        (readUnmodelled stops c).2 = c') ∧
      (readUntil stops c).2 = (readUnmodelled stops c).2 ∧
      (readTupleUntil stops c).2 = skipTuple stops c :=
  ⟨fun _ _ _ hread hend => place_readUnmodelled hc.beforeEnd hstops hread hend,
    place_readUntil hc.beforeEnd hstops, place_readTupleUntil hc.beforeEnd hstops⟩

/-- An annotation that the modelled language reaches to its end. -/
def annotatedName : String := "m: dict[str, int] = {}\n"

/-- The place behind the colon. -/
def behindAnnotatedName : Cursor :=
  ⟨((tokenize annotatedName).1.drop 1).head?.getD default, (tokenize annotatedName).1.drop 2⟩

/-- An annotation is read to where it is skipped to, in front of the `=`. -/
theorem place_behind_annotatedName :
    ∃ e c', (read (depthBound behindAnnotatedName)).run behindAnnotatedName = some (e, c') ∧
      c'.kind = .equals ∧ (readUnmodelled [.equals] behindAnnotatedName).2 = c' := by
  have hread : ((read (depthBound behindAnnotatedName)).run behindAnnotatedName).map
      (fun r => r.2.kind) = some .equals := by decide +kernel
  obtain ⟨⟨e, c'⟩, hrun, hkind⟩ := Option.map_eq_some_iff.mp hread
  have hbefore : ∃ t ∈ behindAnnotatedName.rest, t.kind = .eof := by decide +kernel
  have hamid : behindAnnotatedName.Amid (tokenize annotatedName).1 :=
    ⟨List.drop_suffix 2 _, hbefore⟩
  have hend : endsAt [.equals] c'.kind = true := by rw [show c'.kind = .equals from hkind]; rfl
  exact ⟨e, c', hrun, hkind, (place_behind hamid (by decide)).1 _ e c' hrun hend⟩

end Expr
end PackageDoc
