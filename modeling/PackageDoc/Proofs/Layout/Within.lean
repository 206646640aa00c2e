import PackageDoc.Proofs.Syntax.Reading

namespace PackageDoc

/-!
# Reading inside a line

Reading an expression never passes the end of a logical line.

* `Cursor.Within` — from one place to a later one in the same line;
* `ExprReader.Stays` — a reader that stays in its line;
* `Expr.readersStay` — every reader of the grammar of expressions does;
* `Expr.within_readUntil` and `Expr.within_readTupleUntil` — so do the readers of expressions of any
  shape;
* `Expr.passes_readTupleUntil` — such an expression has a token, unless it is unmodelled and empty.
-/

/-! ### Places in a line -/

namespace Cursor

/-- From one place to a later one without passing the end of a line. -/
def Within (c c' : Cursor) : Prop :=
  ∃ passed, c.rest = passed ++ c'.rest ∧ (∀ t ∈ passed, t.kind.isLineEnd = false) ∧
    c'.prev = passed.getLastD c.prev

namespace Within

variable {c c' c₁ c₂ c₃ : Cursor}

theorem refl (c : Cursor) : Within c c :=
  ⟨[], rfl, by simp, rfl⟩

theorem trans (h : Within c₁ c₂) (h' : Within c₂ c₃) : Within c₁ c₃ := by
  obtain ⟨passed, hrest, hinner, hprev⟩ := h
  obtain ⟨passed', hrest', hinner', hprev'⟩ := h'
  refine ⟨passed ++ passed', by rw [hrest, hrest', List.append_assoc],
    fun t ht => (List.mem_append.mp ht).elim (hinner t) (hinner' t), ?_⟩
  rw [hprev', hprev]
  cases passed' with
  | nil => simp
  | cons t ts => simp [List.getLastD_eq_getLast?, List.getLast?_append]

/-- A token other than a line end does not leave a line. -/
theorem cons {prev t : Token} {ts : List Token} (ht : t.kind.isLineEnd = false)
    (h : Within ⟨t, ts⟩ c) : Within ⟨prev, t :: ts⟩ c :=
  trans ⟨[t], rfl, by simpa using ht, rfl⟩ h

/-- So passing one stays within. -/
theorem advance (h : c.kind.isLineEnd = false) : Within c c.advance := by
  obtain ⟨prev, _ | ⟨t, ts⟩⟩ := c
  · exact refl _
  · exact cons h (refl _)

/-- Within a line no more is left than at its start. -/
theorem length_le (h : Within c c') : c'.rest.length ≤ c.rest.length := by
  obtain ⟨passed, hrest, -⟩ := h
  rw [hrest, List.length_append]
  omega

/-- Either nothing is passed, or the next token is. -/
theorem eq_or_advance (h : Within c c') :
    c' = c ∨ (c.kind.isLineEnd = false ∧ Within c.advance c') := by
  obtain ⟨prev, rest⟩ := c
  obtain ⟨prev', rest'⟩ := c'
  obtain ⟨_ | ⟨t, ts⟩, hrest, hinner, hprev⟩ := h
  · obtain rfl : rest = rest' := hrest
    obtain rfl : prev' = prev := hprev
    exact .inl rfl
  · obtain ⟨ht, hts⟩ := List.forall_mem_cons.mp hinner
    obtain rfl : rest = t :: (ts ++ rest') := hrest
    refine .inr ⟨ht, ts, rfl, hts, ?_⟩
    rw [hprev]
    cases ts <;> rfl

/-- The end of the text stays ahead. -/
theorem ahead (h : Within c c') (hc : ∃ t ∈ c.rest, t.kind = .eof) :
    ∃ t ∈ c'.rest, t.kind = .eof := by
  obtain ⟨passed, hrest, hinner, -⟩ := h
  obtain ⟨t, ht, heof⟩ := hc
  rw [hrest] at ht
  rcases List.mem_append.mp ht with ht | ht
  · have hline := hinner t ht
    rw [heof] at hline
    cases hline
  · exact ⟨t, ht, heof⟩

/-- Two places that each move on by one token. -/
theorem advance_advance (h : Within c c') (hend : c'.kind.isLineEnd = false) :
    c.kind.isLineEnd = false ∧ Within c.advance c'.advance := by
  rcases h.eq_or_advance with rfl | ⟨hkind, hwithin⟩
  · exact ⟨hend, refl _⟩
  · exact ⟨hkind, hwithin.trans (advance hend)⟩

/-- What passing a token inside a line preserves holds further on in the line. -/
theorem preserves {p : Cursor → Prop} (hp : ∀ c, p c → c.kind.isLineEnd = false → p c.advance)
    (h : Within c c') (hc : p c) : p c' := by
  obtain ⟨prev, rest⟩ := c
  obtain ⟨passed, hrest, hinner, hprev⟩ := h
  obtain rfl : rest = passed ++ c'.rest := hrest
  induction passed generalizing prev with
  | nil =>
    obtain rfl : c'.prev = prev := hprev
    exact hc
  | cons t ts ih =>
    obtain ⟨ht, hts⟩ := List.forall_mem_cons.mp hinner
    refine ih t hts (hp _ hc ht) ?_
    rw [hprev]
    cases ts <;> rfl

end Within

/-- From one place to a later one in the same line, the next token among those passed. -/
def Passes (c c' : Cursor) : Prop :=
  c.kind.isLineEnd = false ∧ c.advance.Within c'

namespace Passes

variable {c c' c₁ c₂ c₃ : Cursor}

theorem within (h : Passes c c') : Within c c' :=
  (Within.advance h.1).trans h.2

/-- What is within a line from behind a token is past it. -/
theorem trans_within (h : Passes c₁ c₂) (h' : Within c₂ c₃) : Passes c₁ c₃ :=
  ⟨h.1, h.2.trans h'⟩

/-- What is past a later token is past an earlier one. -/
theorem of_within (h : Within c₁ c₂) (h' : Passes c₂ c₃) : Passes c₁ c₃ := by
  obtain ⟨hkind, hwithin⟩ := h.advance_advance h'.1
  exact ⟨hkind, hwithin.trans h'.2⟩

end Passes

/-- Skipping tokens stays in the line if no line end is skipped. -/
theorem within_skipTokens {p : TokenKind → Bool} (hp : ∀ kind, p kind = true → kind.isLineEnd = false)
    (prev : Token) (ts : List Token) : Within ⟨prev, ts⟩ (skipTokens p prev ts) := by
  induction ts generalizing prev with
  | nil => exact .refl _
  | cons t ts ih =>
    rw [skipTokens]
    split
    · rename_i ht
      exact .cons (hp t.kind ht) (ih t)
    · exact .refl _

/-- So does skipping from a cursor. -/
theorem within_skipWhile {c : Cursor} {p : TokenKind → Bool}
    (hp : ∀ kind, p kind = true → kind.isLineEnd = false) : c.Within (c.skipWhile p) :=
  within_skipTokens hp c.prev c.rest

/-- So does skipping a group in brackets. -/
theorem within_skipGroup (depth : Nat) (prev : Token) (ts : List Token) :
    Within ⟨prev, ts⟩ (skipGroup depth prev ts) := by
  induction ts generalizing depth prev with
  | nil => exact .refl _
  | cons t ts ih =>
    rw [skipGroup]
    split
    · exact .refl _
    · rename_i hend
      have hinner : t.kind.isLineEnd = false := by simpa using hend
      split
      · exact .cons hinner (ih ..)
      · split
        -- the last bracket is closed, or one of several
        · split
          · exact .cons hinner (.refl _)
          · exact .cons hinner (ih ..)
        · exact .cons hinner (ih ..)

end Cursor

/-! ### Readers -/

namespace ExprReader

open Cursor

variable {α β : Type} {c c' : Cursor} {kind : TokenKind}

/-- The reader stays in the line of the place where it begins. -/
def Stays (m : ExprReader α) (c : Cursor) : Prop :=
  ∀ a c', m.run c = some (a, c') → c.Within c'

namespace Stays

/-- A reader that reads nothing stays in its line. -/
theorem pure (a : α) : Stays (pure a) c := by
  intro b c' h
  obtain ⟨rfl, rfl⟩ := Prod.mk.inj (Option.some.inj h)
  exact .refl c

/-- So does one that fails. -/
theorem failure : Stays (failure : ExprReader α) c :=
  fun _ _ h => nomatch h

/-- So do two readers in sequence. -/
theorem bind {m : ExprReader α} {f : α → ExprReader β} (hm : Stays m c)
    (hf : ∀ a c', m.run c = some (a, c') → Stays (f a) c') : Stays (m >>= f) c := by
  intro b c'' h
  rw [StateT.run_bind] at h
  obtain ⟨⟨a, c'⟩, hrun, hrest⟩ := Option.bind_eq_some_iff.mp h
  exact (hm a c' hrun).trans (hf a c' hrun b c'' hrest)

/-- One reader after another, each of which stays in the line wherever it begins. -/
theorem seq {m : ExprReader α} {f : α → ExprReader β} (hm : ∀ c, Stays m c)
    (hf : ∀ a c, Stays (f a) c) : Stays (m >>= f) c :=
  bind (hm c) fun a c' _ => hf a c'

/-- So does one that reads a token other than a line end. -/
theorem advance (h : c.kind.isLineEnd = false) : Stays advance c := by
  intro a c' hrun
  obtain ⟨-, rfl⟩ := Prod.mk.inj (Option.some.inj hrun)
  exact .advance h

/-- A reader may read such a token first. -/
theorem advance_bind {f : Token → ExprReader β} (h : c.kind.isLineEnd = false)
    (hf : Stays (f c.peek) c.advance) : Stays (ExprReader.advance >>= f) c := by
  refine bind (advance h) fun a c' hrun => ?_
  obtain ⟨rfl, rfl⟩ := Prod.mk.inj (Option.some.inj hrun)
  exact hf

theorem ite {p : Prop} [Decidable p] {m m' : ExprReader α} (hm : p → Stays m c)
    (hm' : ¬p → Stays m' c) : Stays (if p then m else m') c := by
  split
  · exact hm ‹_›
  · exact hm' ‹_›

/-- Looking at the next token changes nothing. -/
theorem peek_bind {f : Token → ExprReader β} (hf : Stays (f c.peek) c) :
    Stays (peek >>= f) c := hf

theorem get_bind {f : Cursor → ExprReader β} (hf : Stays (f c) c) : Stays (get >>= f) c := hf

theorem at_bind {f : Bool → ExprReader β} (hf : Stays (f (c.at? kind)) c) :
    Stays (at? kind >>= f) c := hf

theorem atKeyword_bind {f : Bool → ExprReader β}
    (hf : Stays (f (c.at? .name && c.kindAfter == .equals)) c) :
    Stays (Expr.atKeyword >>= f) c := hf

theorem eat (hkind : kind.isLineEnd = false) (c : Cursor) : Stays (eat kind) c := by
  refine at_bind (ite (fun h => ?_) fun _ => pure false)
  have hc : c.kind = kind := eq_of_beq h
  exact advance_bind (hc ▸ hkind) (pure true)

theorem expect (hkind : kind.isLineEnd = false) (c : Cursor) : Stays (expect kind) c := by
  refine at_bind (ite (fun h => ?_) fun _ => failure)
  have hc : c.kind = kind := eq_of_beq h
  exact advance (hc ▸ hkind)

theorem ident (c : Cursor) : Stays ident c :=
  seq (expect rfl) fun _ _ => pure _

end Stays

/-- The reader passes the next token, and stays in its line. -/
def Passes (m : ExprReader α) (c : Cursor) : Prop :=
  ∀ a c', m.run c = some (a, c') → c.Passes c'

namespace Passes

theorem failure : Passes (failure : ExprReader α) c :=
  fun _ _ h => nomatch h

/-- The first of two readers passes the next token. -/
theorem bind {m : ExprReader α} {f : α → ExprReader β} (hm : Passes m c)
    (hf : ∀ a c, Stays (f a) c) : Passes (m >>= f) c := by
  intro b c'' h
  rw [StateT.run_bind] at h
  obtain ⟨⟨a, c'⟩, hrun, hrest⟩ := Option.bind_eq_some_iff.mp h
  exact (hm a c' hrun).trans_within (hf a c' b c'' hrest)

/-- Reading a token other than a line end passes it. -/
theorem advance_bind {f : Token → ExprReader β} (h : c.kind.isLineEnd = false)
    (hf : Stays (f c.peek) c.advance) : Passes (advance >>= f) c :=
  fun b c'' hrun => ⟨h, hf b c'' hrun⟩

theorem peek_bind {f : Token → ExprReader β} (hf : Passes (f c.peek) c) :
    Passes (peek >>= f) c := hf

theorem get_bind {f : Cursor → ExprReader β} (hf : Passes (f c) c) : Passes (get >>= f) c := hf

end Passes
end ExprReader

/-! ### Expressions of the modelled language -/

namespace Expr

open ExprReader

/-- Joining string literals stays in the line. -/
theorem within_joinLiterals (value : StringValue) (span : Span) (prev : Token) (ts : List Token) :
    Cursor.Within ⟨prev, ts⟩ (joinLiterals value span prev ts).2.2 := by
  induction ts generalizing value span prev with
  | nil => exact .refl _
  | cons t ts ih =>
    rw [joinLiterals]
    split
    · rename_i hkind
      exact .cons (by rw [hkind]; rfl) (ih ..)
    · exact .refl _

/-- So does reading them. -/
theorem stays_literals (c : Cursor) : Stays literals c := by
  intro e c' h
  obtain ⟨-, rfl⟩ := Prod.mk.inj (Option.some.inj h)
  exact within_joinLiterals ..

/-- Within `n` levels every reader of the grammar stays in its line. -/
structure ReadersStay (n : Nat) : Prop where
  read : ∀ c, Stays (read n) c
  unionTail : ∀ left c, Stays (unionTail n left) c
  operand : ∀ c, Stays (operand n) c
  trailers : ∀ e c, Stays (trailers n e) c
  atom : ∀ c, Stays (atom n) c
  parenthesized : ∀ openParen c, Stays (parenthesized n openParen) c
  elements : ∀ close c, Stays (elements n close) c
  moreElements : ∀ close c, Stays (moreElements n close) c
  subscripts : ∀ c, Stays (subscripts n) c
  dictEntry : ∀ c, Stays (dictEntry n) c
  dictEntries : ∀ c, Stays (dictEntries n) c
  argument : ∀ c, Stays (argument n) c
  arguments : ∀ c, Stays (arguments n) c

namespace ReadersStay

open Stays

variable {n : Nat} {c : Cursor}

theorem zero : ReadersStay 0 := by
  constructor <;> intros <;> exact failure

/-- An expression stays in its line. -/
theorem succ_read (ih : ReadersStay n) : Stays (Expr.read (n + 1)) c :=
  seq ih.operand fun left c => ih.unionTail left c

/-- So does the tail of a union. -/
theorem succ_unionTail (ih : ReadersStay n) (left : Expr) :
    Stays (Expr.unionTail (n + 1) left) c := by
  refine seq (eat rfl) fun found c => ite (fun _ => ?_) fun _ => pure _
  exact seq ih.operand fun right c => ih.unionTail _ c

/-- So does an operand. -/
theorem succ_operand (ih : ReadersStay n) : Stays (Expr.operand (n + 1)) c := by
  refine get_bind (ite (fun h => ?_) fun _ => seq ih.atom fun e c => ih.trailers e c)
  obtain ⟨hminus, hnumber⟩ := Bool.and_eq_true_iff.mp h
  have hkind : c.kind = .minus := eq_of_beq hminus
  have hafter : c.advance.kind = .number := eq_of_beq hnumber
  exact advance_bind (by rw [hkind]; rfl) (advance_bind (by rw [hafter]; rfl) (pure _))

/-- So do the trailers behind it. -/
theorem succ_trailers (ih : ReadersStay n) (e : Expr) : Stays (Expr.trailers (n + 1) e) c := by
  refine peek_bind ?_
  split
  · rename_i hkind
    refine advance_bind (by rw [Cursor.kind, hkind]; rfl) ?_
    exact seq ident fun field c => ih.trailers _ c
  · rename_i hkind
    refine advance_bind (by rw [Cursor.kind, hkind]; rfl) ?_
    exact seq ih.subscripts fun index c => seq (expect rfl) fun close c => ih.trailers _ c
  · rename_i hkind
    refine advance_bind (by rw [Cursor.kind, hkind]; rfl) ?_
    exact seq ih.arguments fun args c => seq (expect rfl) fun close c => ih.trailers _ c
  · exact pure e

/-- So does an atom. -/
theorem succ_atom (ih : ReadersStay n) : Stays (Expr.atom (n + 1)) c := by
  refine peek_bind ?_
  split <;> try
    · rename_i hkind
      exact advance_bind (by rw [Cursor.kind, hkind]; rfl) (pure _)
  · exact stays_literals c
  · rename_i hkind
    exact advance_bind (by rw [Cursor.kind, hkind]; rfl) (ih.parenthesized _ _)
  · rename_i hkind
    refine advance_bind (by rw [Cursor.kind, hkind]; rfl) ?_
    exact seq (ih.elements _) fun items c => seq (expect rfl) fun close c => pure _
  · rename_i hkind
    refine advance_bind (by rw [Cursor.kind, hkind]; rfl) ?_
    exact seq ih.dictEntries fun entries c => seq (expect rfl) fun close c => pure _
  · exact failure

/-- So does what stands in parentheses. -/
theorem succ_parenthesized (ih : ReadersStay n) (openParen : Token) :
    Stays (Expr.parenthesized (n + 1) openParen) c := by
  refine at_bind (ite (fun h => ?_) fun _ => ?_)
  · have hkind : c.kind = .rparen := eq_of_beq h
    exact advance_bind (by rw [hkind]; rfl) (pure _)
  · refine seq ih.read fun first c => at_bind (ite (fun _ => ?_) fun _ => ?_)
    · exact seq (ih.moreElements _) fun others c => seq (expect rfl) fun close c => pure _
    · exact seq (expect rfl) fun close c => pure first

/-- So do the elements of a display. -/
theorem succ_elements (ih : ReadersStay n) (close : TokenKind) :
    Stays (Expr.elements (n + 1) close) c := by
  refine at_bind (ite (fun _ => pure []) fun _ => ?_)
  exact seq ih.read fun first c => seq (ih.moreElements close) fun others c => pure _

/-- So do those behind the first. -/
theorem succ_moreElements (ih : ReadersStay n) (close : TokenKind) :
    Stays (Expr.moreElements (n + 1) close) c := by
  refine seq (eat rfl) fun found c => ite (fun _ => ?_) fun _ => pure []
  refine at_bind (ite (fun _ => pure []) fun _ => ?_)
  exact seq ih.read fun first c => seq (ih.moreElements close) fun others c => pure _

/-- So do subscripts. -/
theorem succ_subscripts (ih : ReadersStay n) : Stays (Expr.subscripts (n + 1)) c := by
  refine seq ih.read fun first c => at_bind (ite (fun _ => ?_) fun _ => pure first)
  exact seq (ih.moreElements _) fun others c => pure _

/-- So does an entry. -/
theorem succ_dictEntry (ih : ReadersStay n) : Stays (Expr.dictEntry (n + 1)) c := by
  refine seq (eat rfl) fun found c => ite (fun _ => ?_) fun _ => ?_
  · exact seq ih.read fun value c => pure _
  · exact seq ih.read fun key c => seq (expect rfl) fun colon c =>
      seq ih.read fun value c => pure _

/-- So do all entries. -/
theorem succ_dictEntries (ih : ReadersStay n) : Stays (Expr.dictEntries (n + 1)) c := by
  refine at_bind (ite (fun _ => pure []) fun _ => ?_)
  refine seq ih.dictEntry fun entry c => seq (eat rfl) fun found c => ite (fun _ => ?_) fun _ => ?_
  · exact seq ih.dictEntries fun others c => pure _
  · exact pure _

/-- So does an argument. -/
theorem succ_argument (ih : ReadersStay n) : Stays (Expr.argument (n + 1)) c := by
  refine seq (eat rfl) fun found c => ite (fun _ => ?_) fun _ => ?_
  · exact seq ih.read fun value c => pure _
  · refine atKeyword_bind (ite (fun h => ?_) fun _ => ?_)
    · obtain ⟨hname, hequals⟩ := Bool.and_eq_true_iff.mp h
      have hkind : c.kind = .name := eq_of_beq hname
      have hafter : c.advance.kind = .equals := eq_of_beq hequals
      refine bind (ident c) fun key c' hrun => ?_
      -- the name is there, so the place behind it is the one that `atKeyword` looked at
      have hc' : c' = c.advance := by
        rw [run_ident, if_pos hname] at hrun
        exact (Prod.mk.inj (Option.some.inj hrun)).2.symm
      rw [hc']
      exact advance_bind (by rw [hafter]; rfl) (seq ih.read fun value c => pure _)
    · exact seq (eat rfl) fun star c => seq ih.read fun value c => pure _

/-- So do all arguments. -/
theorem succ_arguments (ih : ReadersStay n) : Stays (Expr.arguments (n + 1)) c := by
  refine at_bind (ite (fun _ => pure ([], [])) fun _ => ?_)
  refine seq ih.argument fun first c => seq (eat rfl) fun found c => ite (fun _ => ?_) fun _ => ?_
  · exact seq ih.arguments fun others c => pure _
  · exact pure _

end ReadersStay

/-- Reading an expression stays in its line. -/
theorem readersStay (n : Nat) : ReadersStay n := by
  induction n with
  | zero => exact .zero
  | succ n ih =>
    exact {
      read := fun _ => ih.succ_read
      unionTail := fun left _ => ih.succ_unionTail left
      operand := fun _ => ih.succ_operand
      trailers := fun e _ => ih.succ_trailers e
      atom := fun _ => ih.succ_atom
      parenthesized := fun openParen _ => ih.succ_parenthesized openParen
      elements := fun close _ => ih.succ_elements close
      moreElements := fun close _ => ih.succ_moreElements close
      subscripts := fun _ => ih.succ_subscripts
      dictEntry := fun _ => ih.succ_dictEntry
      dictEntries := fun _ => ih.succ_dictEntries
      argument := fun _ => ih.succ_argument
      arguments := fun _ => ih.succ_arguments }

/-- Joining string literals passes the first. -/
theorem passes_joinLiterals (value : StringValue) (span : Span) (prev t : Token)
    (ts : List Token) (ht : t.kind = .string) :
    Cursor.Passes ⟨prev, t :: ts⟩ (joinLiterals value span prev (t :: ts)).2.2 := by
  rw [joinLiterals, if_pos ht]
  refine ⟨?_, within_joinLiterals ..⟩
  rw [Cursor.kind_cons, ht]
  rfl

/-- An atom has at least one token. -/
theorem passes_atom (n : Nat) (c : Cursor) (hc : c.rest ≠ []) : Passes (atom n) c := by
  cases n with
  | zero => exact .failure
  | succ n =>
    have ih := readersStay n
    refine .peek_bind ?_
    -- one token, then literals, and brackets of the three shapes
    split <;> try
      · rename_i hkind
        exact .advance_bind (by rw [Cursor.kind, hkind]; rfl) (.pure _)
    · rename_i hkind
      obtain ⟨prev, t, ts, rfl⟩ : ∃ prev t ts, c = ⟨prev, t :: ts⟩ := by
        obtain ⟨prev, rest⟩ := c
        obtain ⟨t, ts, rfl⟩ := List.exists_cons_of_ne_nil hc
        exact ⟨prev, t, ts, rfl⟩
      intro e c' h
      obtain ⟨-, rfl⟩ := Prod.mk.inj (Option.some.inj h)
      exact passes_joinLiterals _ _ prev t ts hkind
    · rename_i hkind
      exact .advance_bind (by rw [Cursor.kind, hkind]; rfl) (ih.parenthesized _ _)
    · rename_i hkind
      refine .advance_bind (by rw [Cursor.kind, hkind]; rfl) ?_
      exact .seq (ih.elements _) fun items c => .seq (.expect rfl) fun close c => .pure _
    · rename_i hkind
      refine .advance_bind (by rw [Cursor.kind, hkind]; rfl) ?_
      exact .seq ih.dictEntries fun entries c => .seq (.expect rfl) fun close c => .pure _
    · exact .failure

/-- An expression has at least one token. -/
theorem passes_read (n : Nat) (c : Cursor) (hc : c.rest ≠ []) : Passes (read n) c := by
  have hoperand : ∀ n, Passes (operand n) c := by
    intro n
    cases n with
    | zero => exact .failure
    | succ n =>
      refine .get_bind ?_
      split
      · rename_i h
        obtain ⟨hminus, hnumber⟩ := Bool.and_eq_true_iff.mp h
        have hkind : c.kind = .minus := eq_of_beq hminus
        have hafter : c.advance.kind = .number := eq_of_beq hnumber
        exact .advance_bind (by rw [hkind]; rfl)
          (.advance_bind (by rw [hafter]; rfl) (.pure _))
      · exact .bind (passes_atom n c hc) fun e c => (readersStay n).trailers e c
  cases n with
  | zero => exact .failure
  | succ n => exact .bind (hoperand n) fun left c => (readersStay n).unionTail left c

/-! ### Expressions of any shape -/

/-- Skipping a text by its brackets stays in the line. -/
theorem within_skipShape (stops : List TokenKind) (depth lambdas stop : Nat) (prev : Token)
    (ts : List Token) :
    Cursor.Within ⟨prev, ts⟩ (skipShape stops depth lambdas stop prev ts).2 := by
  induction ts generalizing depth lambdas stop prev with
  | nil => exact .refl _
  | cons t ts ih =>
    rw [skipShape]
    split
    · exact .refl _
    · rename_i hend
      have hinner : t.kind.isLineEnd = false := by simpa using hend
      split
      -- outside brackets the passing may stop in front of the token
      · split
        · exact .cons hinner (ih ..)
        · split
          · exact .refl _
          · exact .cons hinner (ih ..)
      · split
        · exact .cons hinner (ih ..)
        · split <;> exact .cons hinner (ih ..)

/-- So does skipping an expression that is not modelled. -/
theorem within_readUnmodelled (stops : List TokenKind) (c : Cursor) :
    c.Within (readUnmodelled stops c).2 :=
  within_skipShape ..

/-- So does reading up to a stop. -/
theorem within_readUntil (stops : List TokenKind) (c : Cursor) :
    c.Within (readUntil stops c).2 := by
  unfold readUntil
  split
  · rename_i e c' hrun
    split
    · exact (readersStay _).read c e c' hrun
    · exact within_readUnmodelled stops c
  · exact within_readUnmodelled stops c

/-- So does reading the items behind commas. -/
theorem within_readItems (stops : List TokenKind) (n : Nat) (c : Cursor) :
    c.Within (readItems stops n c).2 := by
  induction n generalizing c with
  | zero => exact .refl c
  | succ n ih =>
    unfold readItems
    split
    · rename_i hcomma
      have hkind : c.kind = .comma := eq_of_beq hcomma
      have hcomma : c.Within c.advance := .advance (by rw [hkind]; rfl)
      dsimp only
      split
      · exact hcomma
      · exact hcomma.trans ((within_readUntil _ _).trans (ih _))
    · exact .refl c

/-- Either a token is passed, or the expression has none. -/
theorem passes_readUnmodelled (stops : List TokenKind) (c : Cursor) :
    c.Passes (readUnmodelled stops c).2 ∨
      readUnmodelled stops c = (unmodelled ⟨c.peek.span.start, c.peek.span.start⟩, c) := by
  obtain ⟨prev, _ | ⟨t, ts⟩⟩ := c
  · exact .inr rfl
  · unfold readUnmodelled
    dsimp only
    rw [skipShape]
    by_cases hend : t.kind.isLineEnd = true
    · rw [if_pos hend]
      exact .inr rfl
    · rw [if_neg hend, if_pos rfl, if_neg (by simp)]
      by_cases hstop : (t.kind.isCloseBracket || endsAt stops t.kind) = true
      · rw [if_pos hstop]
        exact .inr rfl
      · rw [if_neg hstop]
        exact .inl ⟨Bool.eq_false_iff.mpr hend, within_skipShape ..⟩

/-- Reading up to a stop passes a token, or the stop stands there and nothing is read. -/
theorem passes_readUntil (stops : List TokenKind) (c : Cursor) (hc : c.rest ≠ []) :
    c.Passes (readUntil stops c).2 ∨
      readUntil stops c = (unmodelled ⟨c.peek.span.start, c.peek.span.start⟩, c) := by
  unfold readUntil
  split
  · rename_i e c' hrun
    split
    · exact .inl (passes_read _ c hc e c' hrun)
    · exact passes_readUnmodelled stops c
  · exact passes_readUnmodelled stops c

/-- Reading further items passes their comma. -/
theorem passes_readItems (stops : List TokenKind) (c : Cursor) (hc : c.rest ≠ [])
    (hkind : c.kind = .comma) : c.Passes (readItems stops c.rest.length c).2 := by
  obtain ⟨n, hn⟩ := Nat.exists_eq_succ_of_ne_zero (mt List.length_eq_zero_iff.mp hc)
  have hcomma : c.at? .comma = true := beq_iff_eq.mpr hkind
  rw [hn, readItems, if_pos hcomma]
  refine ⟨by rw [hkind]; rfl, ?_⟩
  dsimp only
  split
  · exact .refl _
  · exact (within_readUntil _ _).trans (within_readItems ..)

/-- Reading a tuple without brackets stays in the line. -/
theorem within_readTupleUntil (stops : List TokenKind) (c : Cursor) :
    c.Within (readTupleUntil stops c).2 := by
  unfold readTupleUntil
  dsimp only
  split
  · exact (within_readUntil _ _).trans (within_readItems ..)
  · exact within_readUntil ..

/-- It passes a token, or the stop stands there and nothing is read. -/
theorem passes_readTupleUntil (stops : List TokenKind) (c : Cursor) (hc : c.rest ≠ []) :
    c.Passes (readTupleUntil stops c).2 ∨
      readTupleUntil stops c = (unmodelled ⟨c.peek.span.start, c.peek.span.start⟩, c) := by
  have hfirst := passes_readUntil (.comma :: stops) c hc
  unfold readTupleUntil
  dsimp only
  split
  · rename_i hcomma
    rcases hfirst with hfirst | hfirst
    · exact .inl (hfirst.trans_within (within_readItems ..))
    · -- nothing stands in front of the comma, which is passed
      rw [hfirst] at hcomma ⊢
      have hkind : c.kind = .comma := eq_of_beq hcomma
      exact .inl (passes_readItems stops c hc hkind)
  · exact hfirst

end Expr

end PackageDoc
