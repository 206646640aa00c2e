import PackageDoc.Proofs.Annotation.Hints

namespace PackageDoc

/-!
# Loops whose rounds advance

A loop over tokens goes down a bound, and so comes to an end whether it passes a token in each round
or not.  That the bound is never what ends it is said with a round that may go on in any way at all.

* `Advances` — what a round does depends on the loop only at later places;
* `Repeats` — a loop with such a round, which as many rounds as there are tokens left bring to its end;
* `ExprReader.Agrees` and `StmtReader.Agrees` — two readers that do the same at a place, and how they
  are put together;
* `StmtReader.advances` — a round of a reader of statements that advances.
-/

/-! ### Rounds -/

section Rounds

variable {ι σ β : Type}

/-- A round of a loop, entered at the places `enters`, either ends it or goes on from a later place:
    how the loop goes on, which `again` stands for, matters only where fewer tokens are left. -/
def Advances (place : σ → Cursor) (enters : Cursor → Prop) (round : (ι → σ → β) → ι → σ → β) :
    Prop :=
  ∀ again again' i s, enters (place s) →
    (∀ j s', enters (place s') → (place s').rest.length < (place s).rest.length →
      again j s' = again' j s') →
    round again i s = round again' i s

/-- The loop does one round after the other, each of which advances.  It is over when there have been
    as many rounds as there are tokens left, so that it does not matter what would come then. -/
structure Repeats (place : σ → Cursor) (enters : Cursor → Prop) (loop : Nat → ι → σ → β)
    (round : (ι → σ → β) → ι → σ → β) : Prop where
  advances : Advances place enters round
  ends : ∀ base n i s, enters (place s) → (place s).rest.length ≤ n →
    loop n i s = round^[n] base i s

/-- A loop whose bound goes down by one in each round. -/
theorem Repeats.of_succ {place : σ → Cursor} {enters : Cursor → Prop} {loop : Nat → ι → σ → β}
    {round : (ι → σ → β) → ι → σ → β} (hadvances : Advances place enters round)
    (hsucc : ∀ n i s, enters (place s) → loop (n + 1) i s = round (loop n) i s)
    (henters : ∀ c, enters c → c.BeforeEnd) : Repeats place enters loop round := by
  refine ⟨hadvances, fun base n => ?_⟩
  induction n with
  | zero =>
    intro i s hs hn
    obtain ⟨prev, t, ts, hc⟩ := (henters _ hs).exists_cons
    rw [hc] at hn
    cases hn
  | succ n ih =>
    intro i s hs hn
    rw [hsucc n i s hs, Function.iterate_succ_apply']
    exact hadvances _ _ i s hs fun j s' hs' hlt => ih j s' hs' (by omega)

end Rounds

namespace Cursor

variable {c c' : Cursor}

theorem BeforeEnd.length_pos (h : c.BeforeEnd) : 0 < c.rest.length := by
  obtain ⟨prev, t, ts, rfl⟩ := h.exists_cons
  exact Nat.succ_pos _

/-- Passing a token leaves one fewer. -/
theorem BeforeEnd.length_advance (h : c.BeforeEnd) : c.advance.rest.length + 1 = c.rest.length := by
  obtain ⟨prev, t, ts, rfl⟩ := h.exists_cons
  rfl

/-- A cursor within a line is in front of the end if the line's start is. -/
theorem Within.beforeEnd (h : c.Within c') (hc : c.BeforeEnd) : c'.BeforeEnd :=
  h.ahead hc

/-- A place among the tokens that are left at another. -/
theorem Amid.length_le (h : c'.Amid c.rest) : c'.rest.length ≤ c.rest.length :=
  h.suffix.length_le

/-- In front of the end a cursor is amid the tokens that are left. -/
theorem amid_self (h : c.BeforeEnd) : c.Amid c.rest :=
  ⟨List.suffix_refl _, h⟩

end Cursor

/-! ### Readers of expressions that do the same -/

namespace ExprReader

open Cursor

variable {α β : Type} {k : Nat} {c : Cursor} {kind : TokenKind}

/-- In front of the end of the text, with at most `k` tokens left, both readers do the same. -/
def Agrees (k : Nat) (m m' : ExprReader α) (c : Cursor) : Prop :=
  c.BeforeEnd → c.rest.length ≤ k → m.run c = m'.run c

namespace Agrees

theorem refl (m : ExprReader α) : Agrees k m m c :=
  fun _ _ => rfl

/-- Where no tokens are left is not in front of the end of the text. -/
theorem zero (m m' : ExprReader α) : Agrees 0 m m' c := fun hc hk => by
  have := hc.length_pos
  omega

/-- One reader after another, the first of which stays in its line. -/
theorem bind_run {m m' : ExprReader α} {f f' : α → ExprReader β} (hm : Agrees k m m' c)
    (hstays : Stays m c) (hf : ∀ a c', m.run c = some (a, c') → Agrees k (f a) (f' a) c') :
    Agrees k (m >>= f) (m' >>= f') c := by
  intro hc hk
  rw [StateT.run_bind, StateT.run_bind, ← hm hc hk]
  refine Option.bind_congr fun r hrun => ?_
  obtain ⟨a, c'⟩ := r
  have hwithin := hstays a c' hrun
  exact hf a c' hrun (hwithin.beforeEnd hc) (hwithin.length_le.trans hk)

theorem bind {m m' : ExprReader α} {f f' : α → ExprReader β} (hm : Agrees k m m' c) (hstays : Stays m c)
    (hf : ∀ a c, Agrees k (f a) (f' a) c) : Agrees k (m >>= f) (m' >>= f') c :=
  hm.bind_run hstays fun a c' _ => hf a c'

/-- The same reader with one or another behind it. -/
theorem seq {m : ExprReader α} {f f' : α → ExprReader β} (hstays : Stays m c)
    (hf : ∀ a c, Agrees k (f a) (f' a) c) : Agrees k (m >>= f) (m >>= f') c :=
  bind (refl m) hstays hf

/-- The same reader behind one or another. -/
theorem bind_left {m m' : ExprReader α} (hm : Agrees k m m' c) (f : α → ExprReader β) :
    Agrees k (m >>= f) (m' >>= f) c := by
  intro hc hk
  rw [StateT.run_bind, StateT.run_bind, hm hc hk]

theorem ite {p : Prop} [Decidable p] {m₁ m₁' m₂ m₂' : ExprReader α} (h₁ : p → Agrees k m₁ m₁' c)
    (h₂ : ¬p → Agrees k m₂ m₂' c) : Agrees k (if p then m₁ else m₂) (if p then m₁' else m₂') c := by
  split
  · exact h₁ ‹_›
  · exact h₂ ‹_›

/-! Looking at the present place changes nothing. -/

theorem peek_bind {f f' : Token → ExprReader β} (h : Agrees k (f c.peek) (f' c.peek) c) :
    Agrees k (peek >>= f) (peek >>= f') c := h

theorem get_bind {f f' : Cursor → ExprReader β} (h : Agrees k (f c) (f' c) c) :
    Agrees k (get >>= f) (get >>= f') c := h

theorem at_bind {f f' : Bool → ExprReader β} (h : Agrees k (f (c.at? kind)) (f' (c.at? kind)) c) :
    Agrees k (at? kind >>= f) (at? kind >>= f') c := h

theorem atKeyword_bind {f f' : Bool → ExprReader β}
    (h : Agrees k (f (c.at? .name && c.kindAfter == .equals))
      (f' (c.at? .name && c.kindAfter == .equals)) c) :
    Agrees k (Expr.atKeyword >>= f) (Expr.atKeyword >>= f') c := h

/-! Behind a token that is passed there is one fewer left. -/

/-- Behind a token other than the end one fewer is left. -/
theorem advance_bind {f f' : Token → ExprReader β} (hkind : c.kind ≠ .eof)
    (h : Agrees k (f c.peek) (f' c.peek) c.advance) :
    Agrees (k + 1) (advance >>= f) (advance >>= f') c := by
  intro hc hk
  have hlength := hc.length_advance
  exact h (hc.advance hkind).1 (by omega)

/-- One way to go on behind a token of the kind, another one without it. -/
theorem eat_ite {m m' n n' : ExprReader β} (hkind : kind ≠ .eof) (hm : ∀ c, Agrees k m m' c)
    (hn : Agrees (k + 1) n n' c) :
    Agrees (k + 1) (eat kind >>= fun found => if found = true then m else n)
      (eat kind >>= fun found => if found = true then m' else n') c := by
  by_cases hat : c.at? kind = true
  · have hc : c.kind = kind := eq_of_beq hat
    intro hend hk
    have hlength := hend.length_advance
    rw [StateT.run_bind, StateT.run_bind, run_eat, if_pos hat, hat]
    exact hm c.advance (hend.advance (hc ▸ hkind)).1 (by omega)
  · intro hend hk
    rw [StateT.run_bind, StateT.run_bind, run_eat, if_neg hat, Bool.eq_false_iff.mpr hat]
    exact hn hend hk

end Agrees
end ExprReader

/-! ### Readers of statements that do the same -/

namespace StmtReader

open Cursor

variable {α β : Type} {k : Nat} {s : StmtState} {kind : TokenKind} {P : α → Prop}

/-- In front of the end of the text, with at most `k` tokens left, both readers do the same. -/
def Agrees (k : Nat) (m m' : StmtReader α) (s : StmtState) : Prop :=
  s.cursor.BeforeEnd → s.cursor.rest.length ≤ k → m.run s = m'.run s

/-- A reader that gathers something goes on amid the tokens. -/
theorem Gathers.goesOn {tokens : List Token} {m : StmtReader α} (h : Gathers tokens P m s) :
    GoesOn tokens m s :=
  h.mono fun _ _ => trivial

/-- Behind a reader that returns, the next goes on from there. -/
theorem run_bind_of_ok {m : StmtReader α} {a : α} {s' : StmtState} (h : m.run s = .ok a s')
    (f : α → StmtReader β) : (m >>= f).run s = (f a).run s' := by
  change EStateM.bind m f s = _
  unfold EStateM.bind
  rw [show m s = .ok a s' from h]
  rfl

/-- A token of one kind is passed exactly if it is there. -/
theorem run_eat_bind (f : Bool → StmtReader β) : (eat kind >>= f).run s =
    if s.cursor.at? kind = true then (f true).run { s with cursor := s.cursor.advance }
    else (f false).run s := by
  change ((if s.cursor.at? kind = true then do let _ ← advance; return true else pure false) >>= f).run
    s = _
  split <;> rfl

namespace Agrees

theorem refl (m : StmtReader α) : Agrees k m m s :=
  fun _ _ => rfl

/-- Where no tokens are left is not in front of the end of the text. -/
theorem zero (m m' : StmtReader α) : Agrees 0 m m' s := fun hs hk => by
  have := hs.length_pos
  omega

/-- One reader after another, the first of which goes on among the tokens that are left. -/
theorem bind {m m' : StmtReader α} {f f' : α → StmtReader β} (hm : Agrees k m m' s)
    (hgoes : Gathers s.cursor.rest P m s) (hf : ∀ a s, Agrees k (f a) (f' a) s) :
    Agrees k (m >>= f) (m' >>= f') s := by
  intro hs hk
  have hfirst := hgoes (amid_self hs)
  have hsame : m s = m' s := hm hs hk
  change EStateM.bind m f s = EStateM.bind m' f' s
  unfold EStateM.bind
  rw [← hsame]
  unfold EStateM.run at hfirst
  split
  · rename_i a s' hrun
    rw [hrun] at hfirst
    exact hf a s' hfirst.1.beforeEnd (hfirst.1.length_le.trans hk)
  · rfl

/-- The same reader with one or another behind it. -/
theorem seq {m : StmtReader α} {f f' : α → StmtReader β} (hgoes : Gathers s.cursor.rest P m s)
    (hf : ∀ a s, Agrees k (f a) (f' a) s) : Agrees k (m >>= f) (m >>= f') s :=
  bind (refl m) hgoes hf

/-- The same reader behind one or another. -/
theorem bind_left {m m' : StmtReader α} (hm : Agrees k m m' s) (f : α → StmtReader β) :
    Agrees k (m >>= f) (m' >>= f) s := by
  intro hs hk
  have hsame : m s = m' s := hm hs hk
  change EStateM.bind m f s = EStateM.bind m' f s
  unfold EStateM.bind
  rw [hsame]

theorem ite {p : Prop} [Decidable p] {m₁ m₁' m₂ m₂' : StmtReader α} (h₁ : p → Agrees k m₁ m₁' s)
    (h₂ : ¬p → Agrees k m₂ m₂' s) : Agrees k (if p then m₁ else m₂) (if p then m₁' else m₂') s := by
  split
  · exact h₁ ‹_›
  · exact h₂ ‹_›

/-! Looking at the present place changes nothing. -/

theorem cursor_bind {f f' : Cursor → StmtReader β} (h : Agrees k (f s.cursor) (f' s.cursor) s) :
    Agrees k (cursor >>= f) (cursor >>= f') s := h

theorem peek_bind {f f' : Token → StmtReader β}
    (h : Agrees k (f s.cursor.peek) (f' s.cursor.peek) s) :
    Agrees k (peek >>= f) (peek >>= f') s := h

theorem at_bind {f f' : Bool → StmtReader β}
    (h : Agrees k (f (s.cursor.at? kind)) (f' (s.cursor.at? kind)) s) :
    Agrees k (at? kind >>= f) (at? kind >>= f') s := h

theorem rounds_bind {f f' : Nat → StmtReader β}
    (h : Agrees k (f (s.cursor.rest.length + 1)) (f' (s.cursor.rest.length + 1)) s) :
    Agrees k (rounds >>= f) (rounds >>= f') s := h

theorem report_bind {f f' : Unit → StmtReader β} {issue : SyntaxIssue}
    (h : Agrees k (f ()) (f' ()) { s with issues := issue :: s.issues }) :
    Agrees k (report issue >>= f) (report issue >>= f') s := h

/-! Behind a token that is passed there is one fewer left. -/

/-- Behind a token other than the end one fewer is left to them. -/
theorem advance_bind {f f' : Token → StmtReader β} (hkind : s.cursor.kind ≠ .eof)
    (h : Agrees k (f s.cursor.peek) (f' s.cursor.peek) { s with cursor := s.cursor.advance }) :
    Agrees (k + 1) (advance >>= f) (advance >>= f') s := by
  intro hs hk
  have hlength := hs.length_advance
  exact h (hs.advance hkind).1 (show s.cursor.advance.rest.length ≤ k by omega)

/-- One way to go on behind a token of the kind, another one without it. -/
theorem eat_ite {m m' n n' : StmtReader β} (hkind : kind ≠ .eof) (hm : ∀ s, Agrees k m m' s)
    (hn : Agrees (k + 1) n n' s) :
    Agrees (k + 1) (eat kind >>= fun found => if found = true then m else n)
      (eat kind >>= fun found => if found = true then m' else n') s := by
  intro hs hk
  rw [run_eat_bind, run_eat_bind]
  by_cases hat : s.cursor.at? kind = true
  · have hs' : s.cursor.kind ≠ .eof := by rwa [show s.cursor.kind = kind from eq_of_beq hat]
    have hlength := hs.length_advance
    rw [if_pos hat, if_pos hat]
    exact hm { s with cursor := s.cursor.advance } (hs.advance hs').1
      (show s.cursor.advance.rest.length ≤ k by omega)
  · rw [if_neg hat, if_neg hat]
    exact hn hs hk

end Agrees

/-- A round of a reader advances when, behind at least one token that is passed, only what the loop
    does there matters. -/
theorem advances {ι : Type} {round : (ι → StmtReader α) → ι → StmtReader α}
    (h : ∀ k again again' i s, (∀ j s, Agrees k (again j) (again' j) s) →
      Agrees (k + 1) (round again i) (round again' i) s) :
    Advances StmtState.cursor BeforeEnd round := by
  intro again again' i s hs hagain
  have hpos := hs.length_pos
  refine h (s.cursor.rest.length - 1) again again' i s (fun j s' hs' hk => ?_) hs (by omega)
  exact hagain j s' hs' (by omega)

end StmtReader

end PackageDoc
