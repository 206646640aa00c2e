import PackageDoc.Proofs.Progress.Rounds

namespace PackageDoc

/-!
# The bound on the depth of expressions

The readers of expressions call each other, each level of calls with a smaller bound.  A call that
passes no token goes to a reader of a lower rank, so that the bound is not reached.

* `Expr.Readers` and `Expr.Readers.next` — readers of every part of an expression, and the readers
  one level above them;
* `Expr.readersAgree` — above any readers at all, enough levels read what the grammar does;
* `Expr.run_iterate_next` — `Expr.depthBound` levels are enough.
-/

namespace Expr

open ExprReader

/-- A reader for each part of an expression. -/
structure Readers where
  read : ExprReader Expr
  unionTail : Expr → ExprReader Expr
  operand : ExprReader Expr
  trailers : Expr → ExprReader Expr
  atom : ExprReader Expr
  parenthesized : Token → ExprReader Expr
  elements : TokenKind → ExprReader (List Expr)
  moreElements : TokenKind → ExprReader (List Expr)
  subscripts : ExprReader Expr
  dictEntry : ExprReader (Option Expr × Expr)
  dictEntries : ExprReader (List (Option Expr × Expr))
  argument : ExprReader (Expr ⊕ (Option String × Expr))
  arguments : ExprReader (List Expr × List (Option String × Expr))

/-- The readers of the grammar that go `n` levels deep. -/
def readers (n : Nat) : Readers where
  read := Expr.read n
  unionTail := Expr.unionTail n
  operand := Expr.operand n
  trailers := Expr.trailers n
  atom := Expr.atom n
  parenthesized := Expr.parenthesized n
  elements := Expr.elements n
  moreElements := Expr.moreElements n
  subscripts := Expr.subscripts n
  dictEntry := Expr.dictEntry n
  dictEntries := Expr.dictEntries n
  argument := Expr.argument n
  arguments := Expr.arguments n

/-- The readers that read their parts by those of `r`. -/
def Readers.next (r : Readers) : Readers where
  read := do
    let left ← r.operand
    r.unionTail left
  unionTail left := do
    if ← eat .pipe then
      let right ← r.operand
      r.unionTail (union left right (left.span.cover right.span))
    else
      return left
  operand := do
    let c ← get
    if c.at? .minus && c.kindAfter == .number then
      let minus ← advance
      let number ← advance
      return num ("-" ++ number.text) (minus.span.cover number.span)
    else
      let e ← r.atom
      r.trailers e
  trailers e := do
    match (← peek).kind with
    | .dot =>
      let _ ← advance
      let field ← ident
      r.trailers (attr e field (e.span.cover field.span))
    | .lbracket =>
      let _ ← advance
      let index ← r.subscripts
      let close ← expect .rbracket
      r.trailers (subscript e index (e.span.cover close.span))
    | .lparen =>
      let _ ← advance
      let args ← r.arguments
      let close ← expect .rparen
      r.trailers (call e args.1 args.2 (e.span.cover close.span))
    | _ => return e
  atom := do
    let t ← peek
    match t.kind with
    | .name =>
      let _ ← advance
      return name ⟨t.text, t.span⟩
    | .keyword .None =>
      let _ ← advance
      return none t.span
    | .keyword .True =>
      let _ ← advance
      return bool true t.span
    | .keyword .False =>
      let _ ← advance
      return bool false t.span
    | .number =>
      let _ ← advance
      return num t.text t.span
    | .ellipsis =>
      let _ ← advance
      return ellipsis t.span
    | .string => literals
    | .lparen =>
      let _ ← advance
      r.parenthesized t
    | .lbracket =>
      let _ ← advance
      let items ← r.elements .rbracket
      let close ← expect .rbracket
      return list items (t.span.cover close.span)
    | .lbrace =>
      let _ ← advance
      let entries ← r.dictEntries
      let close ← expect .rbrace
      return dict entries (t.span.cover close.span)
    | _ => failure
  parenthesized openParen := do
    if ← at? .rparen then
      let close ← advance
      return tuple [] (openParen.span.cover close.span)
    else
      let first ← r.read
      if ← at? .comma then
        let others ← r.moreElements .rparen
        let close ← expect .rparen
        return tuple (first :: others) (openParen.span.cover close.span)
      else
        let _ ← expect .rparen
        return first
  elements close := do
    if ← at? close then
      return []
    else
      let first ← r.read
      let others ← r.moreElements close
      return first :: others
  moreElements close := do
    if ← eat .comma then
      if ← at? close then
        return []
      else
        let first ← r.read
        let others ← r.moreElements close
        return first :: others
    else
      return []
  subscripts := do
    let first ← r.read
    if ← at? .comma then
      let others ← r.moreElements .rbracket
      return tuple (first :: others) (others.foldl (fun s e => s.cover e.span) first.span)
    else
      return first
  dictEntry := do
    if ← eat .doubleStar then
      let value ← r.read
      return (Option.none, value)
    else
      let key ← r.read
      let _ ← expect .colon
      let value ← r.read
      return (some key, value)
  dictEntries := do
    if ← at? .rbrace then
      return []
    else
      let entry ← r.dictEntry
      if ← eat .comma then
        let others ← r.dictEntries
        return entry :: others
      else
        return [entry]
  argument := do
    if ← eat .doubleStar then
      let value ← r.read
      return .inr (Option.none, value)
    else if ← atKeyword then
      let key ← ident
      let _ ← advance
      let value ← r.read
      return .inr (some key.name, value)
    else
      let _ ← eat .star
      let value ← r.read
      return .inl value
  arguments := do
    if ← at? .rparen then
      return ([], [])
    else
      let first ← r.argument
      if ← eat .comma then
        let others ← r.arguments
        return consArgument first others
      else
        return consArgument first ([], [])

/-- The readers of one more level are made of those below. -/
theorem readers_succ (n : Nat) : readers (n + 1) = (readers n).next := rfl

/-! ### Enough levels -/

/-- Both readers do the same where `n` levels are enough: eight for each token that is left, and for
    each reader as many as calls can follow its own before the next token is passed. -/
structure ReadersAgree (n : Nat) (r r' : Readers) : Prop where
  read : ∀ k c, 8 * k + 3 ≤ n → Agrees k r.read r'.read c
  unionTail : ∀ k left c, 8 * k ≤ n → Agrees k (r.unionTail left) (r'.unionTail left) c
  operand : ∀ k c, 8 * k + 2 ≤ n → Agrees k r.operand r'.operand c
  trailers : ∀ k e c, 8 * k ≤ n → Agrees k (r.trailers e) (r'.trailers e) c
  atom : ∀ k c, 8 * k + 1 ≤ n → Agrees k r.atom r'.atom c
  parenthesized : ∀ k openParen c, 8 * k + 4 ≤ n →
    Agrees k (r.parenthesized openParen) (r'.parenthesized openParen) c
  elements : ∀ k close c, 8 * k + 4 ≤ n → Agrees k (r.elements close) (r'.elements close) c
  moreElements : ∀ k close c, 8 * k ≤ n → Agrees k (r.moreElements close) (r'.moreElements close) c
  subscripts : ∀ k c, 8 * k + 4 ≤ n → Agrees k r.subscripts r'.subscripts c
  dictEntry : ∀ k c, 8 * k + 4 ≤ n → Agrees k r.dictEntry r'.dictEntry c
  dictEntries : ∀ k c, 8 * k + 5 ≤ n → Agrees k r.dictEntries r'.dictEntries c
  argument : ∀ k c, 8 * k + 4 ≤ n → Agrees k r.argument r'.argument c
  arguments : ∀ k c, 8 * k + 5 ≤ n → Agrees k r.arguments r'.arguments c

namespace ReadersAgree

open Agrees

variable {n k : Nat} {r r' : Readers} {c : Cursor}

theorem zero : ReadersAgree 0 r r' := by
  constructor <;> intro k
  all_goals
    intros
    obtain rfl : k = 0 := by omega
    exact .zero _ _

/-- It is enough to compare where at least one token is left. -/
theorem of_pos {α : Type} {m m' : ExprReader α} (h : ∀ j, k = j + 1 → Agrees (j + 1) m m' c) :
    Agrees k m m' c := by
  cases k with
  | zero => exact .zero _ _
  | succ j => exact h j rfl

/-- Reading an expression is the same with more levels. -/
theorem next_read (ih : ReadersAgree n (readers n) r') (hk : 8 * k + 3 ≤ n + 1) :
    Agrees k (readers n).next.read r'.next.read c :=
  bind (ih.operand k c (by omega)) ((readersStay n).operand c) fun left c =>
    ih.unionTail k left c (by omega)

/-- So is reading the tail of a union. -/
theorem next_unionTail (ih : ReadersAgree n (readers n) r') (left : Expr) (hk : 8 * k ≤ n + 1) :
    Agrees k ((readers n).next.unionTail left) (r'.next.unionTail left) c := by
  refine of_pos fun j hj => eat_ite (by simp) (fun c => ?_) (refl _)
  exact bind (ih.operand j c (by omega)) ((readersStay n).operand c) fun right c =>
    ih.unionTail j _ c (by omega)

/-- So is reading an operand. -/
theorem next_operand (ih : ReadersAgree n (readers n) r') (hk : 8 * k + 2 ≤ n + 1) :
    Agrees k (readers n).next.operand r'.next.operand c :=
  get_bind (ite (fun _ => refl _) fun _ =>
    bind (ih.atom k c (by omega)) ((readersStay n).atom c) fun e c => ih.trailers k e c (by omega))

/-- So is reading trailers. -/
theorem next_trailers (ih : ReadersAgree n (readers n) r') (e : Expr) (hk : 8 * k ≤ n + 1) :
    Agrees k ((readers n).next.trailers e) (r'.next.trailers e) c := by
  have hmore {j : Nat} (hj : 8 * j ≤ n) {kind : TokenKind} (hkind : kind.isLineEnd = false)
      (f : Token → Expr) (c : Cursor) : Agrees j
      (do let close ← expect kind; (readers n).trailers (f close))
      (do let close ← expect kind; r'.trailers (f close)) c :=
    seq (.expect hkind c) fun close c => ih.trailers j _ c hj
  refine of_pos fun j hj => peek_bind ?_
  split
  · rename_i hkind
    refine advance_bind (by simp [Cursor.kind, hkind]) ?_
    exact seq (.ident _) fun field c => ih.trailers j _ c (by omega)
  · rename_i hkind
    refine advance_bind (by simp [Cursor.kind, hkind]) ?_
    exact bind (ih.subscripts j _ (by omega)) ((readersStay n).subscripts _) fun index c =>
      hmore (by omega) rfl _ c
  · rename_i hkind
    refine advance_bind (by simp [Cursor.kind, hkind]) ?_
    exact bind (ih.arguments j _ (by omega)) ((readersStay n).arguments _) fun args c =>
      hmore (by omega) rfl _ c
  · exact refl _

/-- So is reading an atom. -/
theorem next_atom (ih : ReadersAgree n (readers n) r') (hk : 8 * k + 1 ≤ n + 1) :
    Agrees k (readers n).next.atom r'.next.atom c := by
  refine of_pos fun j hj => peek_bind ?_
  split <;> try exact refl _
  · rename_i hkind
    exact advance_bind (by simp [Cursor.kind, hkind]) (ih.parenthesized j _ _ (by omega))
  · rename_i hkind
    exact advance_bind (by simp [Cursor.kind, hkind]) (bind_left (ih.elements j _ _ (by omega)) _)
  · rename_i hkind
    exact advance_bind (by simp [Cursor.kind, hkind]) (bind_left (ih.dictEntries j _ (by omega)) _)

/-- So is reading what stands in parentheses. -/
theorem next_parenthesized (ih : ReadersAgree n (readers n) r') (openParen : Token)
    (hk : 8 * k + 4 ≤ n + 1) :
    Agrees k ((readers n).next.parenthesized openParen) (r'.next.parenthesized openParen) c := by
  refine at_bind (ite (fun _ => refl _) fun _ => ?_)
  refine bind (ih.read k c (by omega)) ((readersStay n).read c) fun first c => at_bind ?_
  exact ite (fun _ => bind_left (ih.moreElements k _ c (by omega)) _) fun _ => refl _

/-- So is reading the elements of a display. -/
theorem next_elements (ih : ReadersAgree n (readers n) r') (close : TokenKind)
    (hk : 8 * k + 4 ≤ n + 1) :
    Agrees k ((readers n).next.elements close) (r'.next.elements close) c := by
  refine at_bind (ite (fun _ => refl _) fun _ => ?_)
  exact bind (ih.read k c (by omega)) ((readersStay n).read c) fun first c =>
    bind_left (ih.moreElements k _ c (by omega)) _

/-- So is reading those behind the first. -/
theorem next_moreElements (ih : ReadersAgree n (readers n) r') (close : TokenKind)
    (hk : 8 * k ≤ n + 1) :
    Agrees k ((readers n).next.moreElements close) (r'.next.moreElements close) c := by
  refine of_pos fun j hj => eat_ite (by simp) (fun c => ?_) (refl _)
  refine at_bind (ite (fun _ => refl _) fun _ => ?_)
  exact bind (ih.read j c (by omega)) ((readersStay n).read c) fun first c =>
    bind_left (ih.moreElements j _ c (by omega)) _

/-- So is reading subscripts. -/
theorem next_subscripts (ih : ReadersAgree n (readers n) r') (hk : 8 * k + 4 ≤ n + 1) :
    Agrees k (readers n).next.subscripts r'.next.subscripts c := by
  refine bind (ih.read k c (by omega)) ((readersStay n).read c) fun first c => at_bind ?_
  exact ite (fun _ => bind_left (ih.moreElements k _ c (by omega)) _) fun _ => refl _

/-- So is reading an entry. -/
theorem next_dictEntry (ih : ReadersAgree n (readers n) r') (hk : 8 * k + 4 ≤ n + 1) :
    Agrees k (readers n).next.dictEntry r'.next.dictEntry c := by
  refine of_pos fun j hj => eat_ite (by simp) (fun c => bind_left (ih.read j c (by omega)) _) ?_
  refine bind (ih.read (j + 1) c (by omega)) ((readersStay n).read c) fun key c => ?_
  exact seq (.expect rfl c) fun _ c => bind_left (ih.read (j + 1) c (by omega)) _

/-- So is reading all entries. -/
theorem next_dictEntries (ih : ReadersAgree n (readers n) r') (hk : 8 * k + 5 ≤ n + 1) :
    Agrees k (readers n).next.dictEntries r'.next.dictEntries c := by
  refine of_pos fun j hj => at_bind (ite (fun _ => refl _) fun _ => ?_)
  refine bind (ih.dictEntry (j + 1) c (by omega)) ((readersStay n).dictEntry c) fun entry c => ?_
  exact eat_ite (by simp) (fun c => bind_left (ih.dictEntries j c (by omega)) _) (refl _)

/-- So is reading an argument. -/
theorem next_argument (ih : ReadersAgree n (readers n) r') (hk : 8 * k + 4 ≤ n + 1) :
    Agrees k (readers n).next.argument r'.next.argument c := by
  refine of_pos fun j hj => eat_ite (by simp) (fun c => bind_left (ih.read j c (by omega)) _) ?_
  refine atKeyword_bind (ite (fun hkey => ?_) fun _ => ?_)
  · obtain ⟨hname, hequals⟩ := Bool.and_eq_true_iff.mp hkey
    refine bind_run (refl _) (.ident c) fun key c' hrun => ?_
    rw [run_ident, if_pos hname] at hrun
    obtain ⟨-, rfl⟩ := Prod.mk.inj (Option.some.inj hrun)
    have hkind : c.advance.kind = .equals := eq_of_beq hequals
    exact advance_bind (by simp [hkind]) (bind_left (ih.read j _ (by omega)) _)
  · exact seq (.eat rfl c) fun _ c => bind_left (ih.read (j + 1) c (by omega)) _

/-- So is reading all arguments. -/
theorem next_arguments (ih : ReadersAgree n (readers n) r') (hk : 8 * k + 5 ≤ n + 1) :
    Agrees k (readers n).next.arguments r'.next.arguments c := by
  refine of_pos fun j hj => at_bind (ite (fun _ => refl _) fun _ => ?_)
  refine bind (ih.argument (j + 1) c (by omega)) ((readersStay n).argument c) fun arg c => ?_
  exact eat_ite (by simp) (fun c => bind_left (ih.arguments j c (by omega)) _) (refl _)

/-- Readers that agree with enough levels do so with one more. -/
theorem next (ih : ReadersAgree n (readers n) r') : ReadersAgree (n + 1) (readers n).next r'.next where
  read _ _ hk := ih.next_read hk
  unionTail _ left _ hk := ih.next_unionTail left hk
  operand _ _ hk := ih.next_operand hk
  trailers _ e _ hk := ih.next_trailers e hk
  atom _ _ hk := ih.next_atom hk
  parenthesized _ openParen _ hk := ih.next_parenthesized openParen hk
  elements _ close _ hk := ih.next_elements close hk
  moreElements _ close _ hk := ih.next_moreElements close hk
  subscripts _ _ hk := ih.next_subscripts hk
  dictEntry _ _ hk := ih.next_dictEntry hk
  dictEntries _ _ hk := ih.next_dictEntries hk
  argument _ _ hk := ih.next_argument hk
  arguments _ _ hk := ih.next_arguments hk

end ReadersAgree

/-- Where `n` levels are enough, they read what the grammar does, whatever readers stand below. -/
theorem readersAgree (base : Readers) (n : Nat) : ReadersAgree n (readers n) (Readers.next^[n] base) := by
  induction n with
  | zero => exact .zero
  | succ n ih =>
    rw [readers_succ, Function.iterate_succ_apply']
    exact ih.next

/-- **The bound on the depth of an expression is not reached.**  With that many levels or more, on
    any readers below them, an expression is read as `Expr.read` does within its bound. -/
theorem run_iterate_next (base : Readers) {n : Nat} {c : Cursor} (hc : c.BeforeEnd)
    (hn : depthBound c ≤ n) :
    (Readers.next^[n] base).read.run c = (Expr.read (depthBound c)).run c := by
  have hbound : 8 * c.rest.length + 3 ≤ depthBound c := by
    rw [depthBound]
    omega
  -- the levels beyond the bound are readers like any others below it
  obtain ⟨more, rfl⟩ := Nat.exists_eq_add_of_le hn
  rw [Function.iterate_add_apply]
  exact ((readersAgree (Readers.next^[more] base) _).read _ c hbound hc (le_refl _)).symm

end Expr

end PackageDoc
