import PackageDoc.Proofs.Syntax.Reading

namespace PackageDoc

/-!
# Reading undoes printing

Tokens that spell the lexemes of an expression are read as the expression, wherever what stands behind
them does not go on with it.  A base with what is applied to it, and the left operands of a union, are
read in a loop, so that for them the lemmas tell at which round of the loop the reader arrives.

* `Expr.AtomBack`, `Expr.OperandBack`, `Expr.UnionBack`, `Expr.ReadBack` — tokens are read as an
  expression at each level of the grammar;
* `Expr.ReadsList.run_listed` — items with commas between them are read one after the other;
* `Expr.parse?_print` — the text of an expression is read as the expression.
-/

/-- The tokens are what the lexemes are read as. -/
def Spelled (ts : List Token) (ls : List Lexeme) : Prop :=
  List.Forall₂ Token.Spells ts ls

open Lexeme

namespace Spelled

variable {ts : List Token} {l : Lexeme} {ls ms : List Lexeme}

/-- No lexemes are spelled by no tokens. -/
theorem eq_nil (h : Spelled ts []) : ts = [] := by
  cases h
  rfl

theorem exists_cons (h : Spelled ts (l :: ls)) :
    ∃ t ts', ts = t :: ts' ∧ t.kind = l.kind ∧ t.text = String.ofList l.text ∧ Spelled ts' ls := by
  cases h with
  | cons ht hts => exact ⟨_, _, rfl, ht.1, ht.2, hts⟩

/-- Two lists of lexemes are spelled one after the other. -/
theorem exists_append (h : Spelled ts (ls ++ ms)) :
    ∃ ts₁ ts₂, ts = ts₁ ++ ts₂ ∧ Spelled ts₁ ls ∧ Spelled ts₂ ms := by
  induction ls generalizing ts with
  | nil => exact ⟨[], ts, rfl, .nil, h⟩
  | cons l ls ih =>
    cases h with
    | cons ht hts =>
      obtain ⟨ts₁, ts₂, rfl, h₁, h₂⟩ := ih hts
      exact ⟨_ :: ts₁, ts₂, rfl, .cons ht h₁, h₂⟩

/-- A single lexeme is spelled by one token. -/
theorem exists_singleton (h : Spelled ts [l]) :
    ∃ t, ts = [t] ∧ t.kind = l.kind ∧ t.text = String.ofList l.text := by
  obtain ⟨t, ts', rfl, hkind, htext, hts⟩ := h.exists_cons
  exact ⟨t, by rw [hts.eq_nil], hkind, htext⟩

/-- Blanks make no difference. -/
theorem of_space (h : Spelled ts (space ls)) : Spelled ts ls := by
  cases ls with
  | nil => exact h
  | cons l ls =>
    cases h with
    | cons ht hts => exact .cons ht hts

/-- The tokens between an opening and a closing lexeme. -/
theorem exists_between {opening closing : Lexeme} (h : Spelled ts (opening :: (ls ++ [closing]))) :
    ∃ t inner close, ts = t :: (inner ++ [close]) ∧ t.kind = opening.kind ∧ Spelled inner ls ∧
      close.kind = closing.kind := by
  obtain ⟨t, ts', rfl, ht, -, hts⟩ := h.exists_cons
  obtain ⟨inner, tail, rfl, hinner, htail⟩ := hts.exists_append
  obtain ⟨close, rfl, hclose, -⟩ := htail.exists_singleton
  exact ⟨t, inner, close, rfl, ht, hinner, hclose⟩

/-- The tokens of an item behind another one, and those of the items behind it. -/
theorem exists_further {item : List Lexeme} {others : List (List Lexeme)}
    (h : Spelled ts (further (item :: others))) :
    ∃ comma us vs, ts = comma :: (us ++ vs) ∧ comma.kind = .comma ∧ Spelled us item ∧
      Spelled vs (further others) := by
  rw [further, List.flatMap_cons, List.cons_append] at h
  obtain ⟨comma, ts', rfl, hcomma, -, hts⟩ := h.exists_cons
  obtain ⟨us, vs, rfl, hus, hvs⟩ := hts.exists_append
  exact ⟨comma, us, vs, rfl, hcomma, hus.of_space, hvs⟩

/-- Behind an item stands a comma, or what stands behind all the items. -/
theorem exists_next {items : List (List Lexeme)} (h : Spelled ts (further items)) (next : Token)
    (rest : List Token) :
    ∃ t ts', ts ++ next :: rest = t :: ts' ∧ (t.kind = .comma ∨ t = next) := by
  cases items with
  | nil => exact ⟨next, rest, by rw [h.eq_nil, List.nil_append], .inr rfl⟩
  | cons item others =>
    obtain ⟨comma, us, vs, rfl, hcomma, -⟩ := h.exists_further
    exact ⟨comma, us ++ vs ++ next :: rest, rfl, .inl hcomma⟩

/-- How tokens of an expression begin. -/
theorem exists_begin (h : Spelled ts ls) (hls : Begins ls) :
    ∃ t ts', ts = t :: ts' ∧ t.kind.startsExpr = true ∧
      (t.kind = .name → ∀ u ∈ ts'.head?, u.kind ≠ .equals) := by
  obtain ⟨l, rest, rfl, hl, hnext⟩ := hls
  obtain ⟨t, ts', rfl, hkind, -, hts⟩ := h.exists_cons
  refine ⟨t, ts', rfl, by rw [hkind, hl.kind], fun hname u hu => ?_⟩
  cases hts with
  | nil => exact absurd hu (by simp)
  | cons hu' _ =>
    obtain rfl := Option.some.inj hu
    rw [hu'.1]
    exact hnext (by rw [← hkind, hname]) _ rfl

end Spelled

/-- What starts an expression is not what does not. -/
theorem ne_of_startsExpr {k k' : TokenKind} (h : k.startsExpr = true)
    (h' : k'.startsExpr = false) : k ≠ k' := by
  rintro rfl
  rw [h] at h'
  exact absurd h' (by simp)

/-- A token with which an operand goes on. -/
def TokenKind.GoesOn (kind : TokenKind) : Prop :=
  kind ∈ [string, dot, lbracket, lparen]

/-- A token with which an expression goes on. -/
def TokenKind.GoesOnUnion (kind : TokenKind) : Prop :=
  kind.GoesOn ∨ kind = pipe

/-- No expression goes on behind these. -/
theorem TokenKind.not_goesOnUnion {kind : TokenKind}
    (h : kind ∈ [comma, colon, rparen, rbracket, rbrace, newline]) : ¬ kind.GoesOnUnion := by
  simp only [List.mem_cons, List.not_mem_nil, or_false] at h
  rcases h with rfl | rfl | rfl | rfl | rfl | rfl <;> simp [GoesOnUnion, GoesOn]

/-- What follows an item does not go on with it. -/
theorem TokenKind.not_goesOnUnion_of_item {kind close : TokenKind}
    (hclose : close ∈ [rparen, rbracket, rbrace]) (h : kind = comma ∨ kind = close) :
    ¬ kind.GoesOnUnion := by
  refine not_goesOnUnion ?_
  rcases h with rfl | rfl
  · simp
  · simp only [List.mem_cons, List.not_mem_nil, or_false] at hclose
    rcases hclose with rfl | rfl | rfl <;> simp

/-- Nor does a bar go on with an operand. -/
theorem TokenKind.not_goesOn_pipe : ¬ pipe.GoesOn := by
  simp [GoesOn]

namespace Expr

variable {e : Expr} {ls : List Lexeme}

/-- The tokens of `ls` are read as the atom `e`. -/
def AtomBack (e : Expr) (ls : List Lexeme) : Prop :=
  ∀ (ts : List Token) (next : Token) (rest : List Token) (prev : Token) (n : Nat),
    Spelled ts ls → next.kind ≠ .string → 5 * ts.length + 1 ≤ n →
    ∃ e' last, (atom n).run ⟨prev, ts ++ next :: rest⟩ = some (e', ⟨last, next :: rest⟩) ∧
      e'.erase = e.erase

/-- Reading the tokens of `ls` as an operand leads behind `e`, where more may be applied to it. -/
def OperandBack (e : Expr) (ls : List Lexeme) : Prop :=
  ∀ (ts : List Token) (next : Token) (rest : List Token) (prev : Token) (n : Nat),
    Spelled ts ls → next.kind ≠ .string → 5 * ts.length + 2 ≤ n →
    ∃ e' m last, (operand n).run ⟨prev, ts ++ next :: rest⟩ =
        (trailers m e').run ⟨last, next :: rest⟩ ∧
      e'.erase = e.erase ∧ n ≤ m + ts.length

/-- The tokens of `ls` are read as the operand `e`. -/
def ClosedBack (e : Expr) (ls : List Lexeme) : Prop :=
  ∀ (ts : List Token) (next : Token) (rest : List Token) (prev : Token) (n : Nat),
    Spelled ts ls → ¬ next.kind.GoesOn → 5 * ts.length + 2 ≤ n →
    ∃ e' last, (operand n).run ⟨prev, ts ++ next :: rest⟩ = some (e', ⟨last, next :: rest⟩) ∧
      e'.erase = e.erase

/-- Reading the tokens of an expression leads behind it, where more operands may follow. -/
def UnionBack (e : Expr) : Prop :=
  ∀ (ts : List Token) (next : Token) (rest : List Token) (prev : Token) (n : Nat),
    Spelled ts e.lexemes → ¬ next.kind.GoesOn → 5 * ts.length + 3 ≤ n →
    ∃ e' m last, (read n).run ⟨prev, ts ++ next :: rest⟩ =
        (unionTail m e').run ⟨last, next :: rest⟩ ∧
      e'.erase = e.erase ∧ n ≤ m + ts.length

/-- The tokens of an expression are read as the expression. -/
def ReadBack (e : Expr) : Prop :=
  ∀ (ts : List Token) (next : Token) (rest : List Token) (prev : Token) (n : Nat),
    Spelled ts e.lexemes → ¬ next.kind.GoesOnUnion → 5 * ts.length + 3 ≤ n →
    ∃ e' last, (read n).run ⟨prev, ts ++ next :: rest⟩ = some (e', ⟨last, next :: rest⟩) ∧
      e'.erase = e.erase

/-! ### From level to level -/

/-- An atom is an operand to which more may be applied. -/
theorem AtomBack.operandBack {l : Lexeme} (h : AtomBack e (l :: ls)) (hminus : l.kind ≠ .minus) :
    OperandBack e (l :: ls) := by
  intro ts next rest prev n hts hnext hn
  obtain ⟨e', last, hrun, herase⟩ := h ts next rest prev (n - 1) hts hnext (by omega)
  obtain ⟨t, ts', rfl, hkind, -, -⟩ := hts.exists_cons
  obtain ⟨n, rfl⟩ : ∃ k, n = k + 1 := ⟨n - 1, by omega⟩
  refine ⟨e', n, last, run_operand_atom (by rwa [hkind]) hrun, herase, ?_⟩
  rw [List.length_cons]
  omega

/-- An operand that is read back is read back wherever it is closed. -/
theorem OperandBack.closedBack (h : OperandBack e ls) : ClosedBack e ls := by
  intro ts next rest prev n hts hnext hn
  have hstring : next.kind ≠ .string := fun hkind => hnext (by simp [TokenKind.GoesOn, hkind])
  obtain ⟨e', m, last, hrun, herase, hm⟩ := h ts next rest prev n hts hstring hn
  obtain ⟨m, rfl⟩ : ∃ k, m = k + 1 := ⟨m - 1, by omega⟩
  refine ⟨e', last, ?_, herase⟩
  rw [hrun, run_trailers_stop]
  intro hmem
  exact hnext (List.mem_cons_of_mem _ hmem)

/-- What is read back where it is closed is so as a side of a union. -/
theorem ClosedBack.unionBack (h : ClosedBack e e.lexemes) (hbegins : Begins e.lexemes) :
    UnionBack e := by
  intro ts next rest prev n hts hnext hn
  obtain ⟨e', last, hrun, herase⟩ := h ts next rest prev (n - 1) hts hnext (by omega)
  obtain ⟨t, ts', rfl, -⟩ := hts.exists_begin hbegins
  obtain ⟨n, rfl⟩ : ∃ k, n = k + 1 := ⟨n - 1, by omega⟩
  refine ⟨e', n, last, run_read hrun, herase, ?_⟩
  rw [List.length_cons]
  omega

/-- What is read back as a union is so as an expression. -/
theorem UnionBack.readBack (h : UnionBack e) : ReadBack e := by
  intro ts next rest prev n hts hnext hn
  obtain ⟨e', m, last, hrun, herase, hm⟩ :=
    h ts next rest prev n hts (fun hgoes => hnext (.inl hgoes)) hn
  obtain ⟨m, rfl⟩ : ∃ k, m = k + 1 := ⟨m - 1, by omega⟩
  exact ⟨e', last, by rw [hrun, run_unionTail_stop fun hpipe => hnext (.inr hpipe)], herase⟩

/-- An expression in parentheses is an atom. -/
theorem ReadBack.parens (h : ReadBack e) (hbegins : Begins e.lexemes) :
    AtomBack e (parens e.lexemes) := by
  intro ts next rest prev n hts _ hn
  obtain ⟨o, inner, close, rfl, ho, hinner, hclose⟩ := hts.exists_between
  rw [List.length_cons, List.length_append, List.length_singleton] at hn
  obtain ⟨n, rfl⟩ : ∃ k, n = k + 2 := ⟨n - 2, by omega⟩
  obtain ⟨e', last, hrun, herase⟩ := h inner close (next :: rest) o n hinner
    (by rw [hclose]; exact TokenKind.not_goesOnUnion (by simp [delimiter])) (by omega)
  obtain ⟨t, inner, rfl, hstart, -⟩ := hinner.exists_begin hbegins
  refine ⟨e', close, ?_, herase⟩
  rw [List.cons_append, run_atom_paren ho, List.append_assoc, List.singleton_append]
  exact run_parenthesized_one (ne_of_startsExpr hstart rfl) hrun hclose

/-! ### Lists -/

/-- Expressions behind another one are read one after the other. -/
theorem run_moreElements (close : TokenKind) (hclose : close ∈ [.rparen, .rbracket, .rbrace])
    (es : List Expr) (hes : ∀ e ∈ es, ReadBack e ∧ Begins e.lexemes) (ts : List Token)
    (next : Token) (rest : List Token) (prev : Token) (n : Nat)
    (hts : Spelled ts (further (es.map lexemes))) (hnext : next.kind = close)
    (hn : 5 * ts.length + 1 ≤ n) :
    ∃ es' last, (moreElements n close).run ⟨prev, ts ++ next :: rest⟩ =
        some (es', ⟨last, next :: rest⟩) ∧
      es'.map erase = es.map erase := by
  have hcloses : close.startsExpr = false ∧ close ≠ .comma := by
    simp only [List.mem_cons, List.not_mem_nil, or_false] at hclose
    rcases hclose with rfl | rfl | rfl <;> exact ⟨rfl, by simp⟩
  induction es generalizing ts prev n with
  | nil =>
    obtain rfl := hts.eq_nil
    obtain ⟨n, rfl⟩ : ∃ k, n = k + 1 := ⟨n - 1, by omega⟩
    exact ⟨[], prev, run_moreElements_nil (hnext ▸ hcloses.2), rfl⟩
  | cons e es ih =>
    obtain ⟨⟨hread, hbegins⟩, hes⟩ := List.forall_mem_cons.mp hes
    obtain ⟨comma, us, vs, rfl, hcomma, hus, hvs⟩ := hts.exists_further
    rw [List.length_cons, List.length_append] at hn
    obtain ⟨n, rfl⟩ : ∃ k, n = k + 1 := ⟨n - 1, by omega⟩
    obtain ⟨t, ts', hbehind, ht⟩ := hvs.exists_next next rest
    -- behind an element is the next comma or the closing bracket, so no union goes on there
    have hstop : ¬ t.kind.GoesOnUnion := by
      refine TokenKind.not_goesOnUnion_of_item hclose ?_
      rcases ht with ht | rfl
      · exact .inl ht
      · exact .inr hnext
    obtain ⟨e', last, hrun, herase⟩ := hread us t ts' comma n hus hstop (by omega)
    obtain ⟨es', last', hmore, heraseAll⟩ := ih hes vs last n hvs (by omega)
    obtain ⟨u, us', rfl, hstart, -⟩ := hus.exists_begin hbegins
    refine ⟨e' :: es', last', ?_, by rw [List.map_cons, List.map_cons, herase, heraseAll]⟩
    rw [List.cons_append, List.append_assoc, hbehind]
    rw [hbehind] at hmore
    exact run_moreElements_cons hcomma (ne_of_startsExpr hstart hcloses.1) hrun hmore

/-- A reader of items with commas between them, up to the token `close`. -/
structure ReadsList {β γ : Type} (one : Nat → ExprReader β) (all : Nat → ExprReader γ)
    (close : TokenKind) (cons : β → γ → γ) (nil : γ) : Prop where
  run_nil : ∀ {n prev t ts}, t.kind = close →
    (all (n + 1)).run ⟨prev, t :: ts⟩ = some (nil, ⟨prev, t :: ts⟩)
  run_last : ∀ {n prev t ts b last u us}, t.kind ≠ close →
    (one n).run ⟨prev, t :: ts⟩ = some (b, ⟨last, u :: us⟩) → u.kind ≠ .comma →
    (all (n + 1)).run ⟨prev, t :: ts⟩ = some (cons b nil, ⟨last, u :: us⟩)
  run_cons : ∀ {n prev t ts b last u us bs c}, t.kind ≠ close →
    (one n).run ⟨prev, t :: ts⟩ = some (b, ⟨last, u :: us⟩) → u.kind = .comma →
    (all n).run ⟨u, us⟩ = some (bs, c) →
    (all (n + 1)).run ⟨prev, t :: ts⟩ = some (cons b bs, c)

/-- The entries of a dictionary are a list in braces. -/
theorem readsList_dictEntries : ReadsList dictEntry dictEntries .rbrace List.cons [] :=
  ⟨run_dictEntries_nil, run_dictEntries_last, run_dictEntries_cons⟩

/-- Arguments are one in parentheses. -/
theorem readsList_arguments : ReadsList argument arguments .rparen consArgument ([], []) :=
  ⟨run_arguments_nil, run_arguments_last, run_arguments_cons⟩

/-- The tokens of `ls` are read as `item`, where only what `plain` leaves of it counts. -/
def ItemBack {β : Type} (one : Nat → ExprReader β) (close : TokenKind) (plain : β → β) (item : β)
    (ls : List Lexeme) : Prop :=
  ∀ (ts : List Token) (next : Token) (rest : List Token) (prev : Token) (n : Nat),
    Spelled ts ls → next.kind = .comma ∨ next.kind = close → 5 * ts.length + 4 ≤ n →
    ∃ t ts', ts = t :: ts' ∧ t.kind ≠ close ∧
      ∃ b last, (one n).run ⟨prev, t :: (ts' ++ next :: rest)⟩ = some (b, ⟨last, next :: rest⟩) ∧
        plain b = plain item

/-- **Items with commas between them are read one after the other.** -/
theorem ReadsList.run_listed {β γ : Type} {one : Nat → ExprReader β} {all : Nat → ExprReader γ}
    {close : TokenKind} {cons : β → γ → γ} {nil : γ} (hall : ReadsList one all close cons nil)
    (hclose : close ≠ .comma) (plain : β → β) (text : β → List Lexeme) (items : List β)
    (hitems : ∀ item ∈ items, ItemBack one close plain item (text item)) (ts : List Token)
    (next : Token) (rest : List Token) (prev : Token) (n : Nat)
    (hts : Spelled ts (listed (items.map text))) (hnext : next.kind = close)
    (hn : 5 * ts.length + 5 ≤ n) :
    ∃ (bs : List β) (last : Token), (all n).run ⟨prev, ts ++ next :: rest⟩ =
        some (bs.foldr cons nil, ⟨last, next :: rest⟩) ∧
      bs.map plain = items.map plain := by
  induction items generalizing ts prev n with
  | nil =>
    obtain rfl := hts.eq_nil
    obtain ⟨n, rfl⟩ : ∃ k, n = k + 1 := ⟨n - 1, by omega⟩
    exact ⟨[], prev, hall.run_nil hnext, rfl⟩
  | cons item items ih =>
    obtain ⟨hitem, hitems⟩ := List.forall_mem_cons.mp hitems
    rw [List.map_cons, listed] at hts
    obtain ⟨us, vs, rfl, hus, hvs⟩ := hts.exists_append
    rw [List.length_append] at hn
    obtain ⟨n, rfl⟩ : ∃ k, n = k + 1 := ⟨n - 1, by omega⟩
    rw [List.append_assoc]
    cases items with
    | nil =>
      -- the last item, with no comma behind it
      obtain rfl := hvs.eq_nil
      obtain ⟨t, us, rfl, ht, b, last, hrun, hplain⟩ :=
        hitem us next rest prev n hus (.inr hnext) (by omega)
      exact ⟨[b], last, hall.run_last ht hrun (hnext ▸ hclose), by simp [hplain]⟩
    | cons item' items =>
      rw [List.map_cons] at hvs
      obtain ⟨comma, us', vs, rfl, hcomma, hus', hvs⟩ := hvs.exists_further
      rw [List.length_cons, List.length_append] at hn
      have htail : Spelled (us' ++ vs) (listed ((item' :: items).map text)) :=
        List.rel_append hus' hvs
      obtain ⟨t, us, rfl, ht, b, last, hrun, hplain⟩ :=
        hitem us comma (us' ++ vs ++ next :: rest) prev n hus (.inl hcomma) (by omega)
      obtain ⟨bs, last', hmore, hplains⟩ := ih hitems (us' ++ vs) comma n htail
        (by rw [List.length_append]; omega)
      exact ⟨b :: bs, last', hall.run_cons ht hrun hcomma hmore, by simp [hplain, hplains]⟩

/-! ### Arguments and entries -/

/-- An argument without places. -/
def eraseArgument : Expr ⊕ (Option String × Expr) → Expr ⊕ (Option String × Expr) :=
  Sum.map erase fun k => (k.1, k.2.erase)

/-- An argument as it is printed. -/
def argumentItem : Expr ⊕ (Option String × Expr) → List Lexeme :=
  Sum.elim lexemes fun k => keywordItem k.1 k.2.lexemes

/-- Spans are erased argument by argument. -/
theorem erase_foldr_consArgument (as : List (Expr ⊕ (Option String × Expr))) :
    (eraseAll (as.foldr consArgument ([], [])).1, eraseKeywords (as.foldr consArgument ([], [])).2) =
      (as.map eraseArgument).foldr consArgument ([], []) := by
  induction as with
  | nil => rfl
  | cons a as ih =>
    rw [List.map_cons, List.foldr_cons, List.foldr_cons, ← ih]
    cases a <;> rfl

/-- Arguments are kept apart by whether they have names. -/
theorem foldr_consArgument (args : List Expr) (keywords : List (Option String × Expr)) :
    (args.map Sum.inl ++ keywords.map Sum.inr).foldr consArgument ([], []) = (args, keywords) := by
  have hkeywords : (keywords.map Sum.inr).foldr consArgument ([], []) = ([], keywords) := by
    induction keywords with
    | nil => rfl
    | cons k keywords ih => rw [List.map_cons, List.foldr_cons, ih, consArgument]
  rw [List.foldr_append, hkeywords]
  induction args with
  | nil => rfl
  | cons e args ih => rw [List.map_cons, List.foldr_cons, ih, consArgument]

/-- A value behind two asterisks, or behind a name and `=`, is read as an argument. -/
theorem ReadBack.itemBack_keyword (key : Option String) {value : Expr} (h : ReadBack value) :
    ItemBack argument .rparen eraseArgument (.inr (key, value))
      (argumentItem (.inr (key, value))) := by
  intro ts next rest prev n hts hnext hn
  have hstop := TokenKind.not_goesOnUnion_of_item (by simp) hnext
  obtain ⟨n, rfl⟩ : ∃ k, n = k + 1 := ⟨n - 1, by omega⟩
  cases key with
  | none =>
    obtain ⟨t, us, rfl, ht, -, hus⟩ := hts.exists_cons
    rw [List.length_cons] at hn
    obtain ⟨e', last, hrun, herase⟩ := h us next rest t n hus hstop (by omega)
    exact ⟨t, us, rfl, by simp [ht, delimiter], .inr (Option.none, e'), last,
      run_argument_star ht hrun, by simp [eraseArgument, herase]⟩
  | some key =>
    obtain ⟨t, us, rfl, ht, htext, hus⟩ := hts.exists_cons
    obtain ⟨u, us, rfl, hu, -, hus⟩ := hus.exists_cons
    rw [List.length_cons, List.length_cons] at hn
    obtain ⟨e', last, hrun, herase⟩ := h us next rest u n hus hstop (by omega)
    refine ⟨t, u :: us, rfl, by simp [ht, ofName], .inr (some t.text, e'), last,
      run_argument_keyword ht hu hrun, ?_⟩
    rw [htext, ofName, String.ofList_toList]
    simp [eraseArgument, herase]

/-- An expression is read as an argument. -/
theorem ReadBack.itemBack_positional (h : ReadBack e) (hbegins : Begins e.lexemes) :
    ItemBack argument .rparen eraseArgument (.inl e) (argumentItem (.inl e)) := by
  intro ts next rest prev n hts hnext hn
  have hstop := TokenKind.not_goesOnUnion_of_item (by simp) hnext
  obtain ⟨n, rfl⟩ : ∃ k, n = k + 1 := ⟨n - 1, by omega⟩
  obtain ⟨e', last, hrun, herase⟩ := h ts next rest prev n hts hstop (by omega)
  obtain ⟨t, us, rfl, hstart, hequals⟩ := hts.exists_begin hbegins
  refine ⟨t, us, rfl, ne_of_startsExpr hstart rfl, .inl e', last, ?_, by
    simp [eraseArgument, herase]⟩
  obtain ⟨u, us', hbehind⟩ : ∃ u us', us ++ next :: rest = u :: us' := by
    cases us with
    | nil => exact ⟨next, rest, rfl⟩
    | cons u us => exact ⟨u, us ++ next :: rest, rfl⟩
  -- a name with an equals sign behind it would be a keyword
  have hname : t.kind = .name → u.kind ≠ .equals := by
    intro ht
    cases us with
    | nil =>
      obtain ⟨rfl, -⟩ := List.cons.inj hbehind
      rcases hnext with hnext | hnext <;> simp [hnext]
    | cons v us =>
      obtain ⟨rfl, -⟩ := List.cons.inj hbehind
      exact hequals ht v rfl
  rw [List.cons_append, hbehind] at hrun
  rw [hbehind]
  exact run_argument_positional (ne_of_startsExpr hstart rfl) (ne_of_startsExpr hstart rfl) hname hrun

/-- An entry of a dictionary without places. -/
def eraseEntry (entry : Option Expr × Expr) : Option Expr × Expr :=
  (entry.1.map erase, entry.2.erase)

/-- A value behind two asterisks, or behind a key and a colon, is read as an entry. -/
theorem ReadBack.itemBack_entry {key : Option Expr} {value : Expr} (h : ReadBack value)
    (hkey : ∀ k ∈ key, ReadBack k ∧ Begins k.lexemes) :
    ItemBack dictEntry .rbrace eraseEntry (key, value)
      (entryItem (key.map lexemes) value.lexemes) := by
  intro ts next rest prev n hts hnext hn
  have hstop := TokenKind.not_goesOnUnion_of_item (by simp) hnext
  obtain ⟨n, rfl⟩ : ∃ k, n = k + 1 := ⟨n - 1, by omega⟩
  cases key with
  | none =>
    obtain ⟨t, us, rfl, ht, -, hus⟩ := hts.exists_cons
    rw [List.length_cons] at hn
    obtain ⟨e', last, hrun, herase⟩ := h us next rest t n hus hstop (by omega)
    exact ⟨t, us, rfl, by simp [ht, delimiter], (Option.none, e'), last,
      run_dictEntry_star ht hrun, by simp [eraseEntry, herase]⟩
  | some key =>
    obtain ⟨hkey, hbegins⟩ := hkey key rfl
    obtain ⟨us, vs, rfl, hus, hvs⟩ := Spelled.exists_append hts
    obtain ⟨u, vs, rfl, hu, -, hvs⟩ := hvs.exists_cons
    rw [List.length_append, List.length_cons] at hn
    obtain ⟨k, last, hrun, herase⟩ := hkey us u (vs ++ next :: rest) prev n hus
      (by rw [hu]; exact TokenKind.not_goesOnUnion (by simp [delimiter])) (by omega)
    obtain ⟨e', last', hvalue, herase'⟩ := h vs next rest u n hvs.of_space hstop (by omega)
    obtain ⟨t, us, rfl, hstart, -⟩ := hus.exists_begin hbegins
    refine ⟨t, us ++ u :: vs, rfl, ne_of_startsExpr hstart rfl, (some k, e'), last', ?_, by
      simp [eraseEntry, herase, herase']⟩
    rw [List.append_assoc, List.cons_append]
    exact run_dictEntry_pair (ne_of_startsExpr hstart rfl) hrun hu hvalue

/-! ### Expressions -/

/-- The tokens of an expression are read as it: as operands of a union, as a single operand, and as
    a base to which more may be applied. -/
structure Back (e : Expr) : Prop where
  begins : Begins e.lexemes
  union : UnionBack e
  closed : e.isUnion = false → ClosedBack e e.lexemes
  base : e.isOpenBase = false → OperandBack e e.lexemes

/-- What is read back as an operand is so in every place. -/
theorem OperandBack.back (h : OperandBack e e.lexemes) (hprintable : e.Printable) : Back e := by
  have hbegins := begins_lexemes e hprintable
  exact ⟨hbegins, h.closedBack.unionBack hbegins, fun _ => h.closedBack, fun _ => h⟩

/-- So is what is read back as an atom, if it does not begin with a minus. -/
theorem AtomBack.back (h : AtomBack e e.lexemes) (hprintable : e.Printable)
    (hminus : ∀ l ∈ e.lexemes.head?, l.kind ≠ .minus) : Back e := by
  refine OperandBack.back ?_ hprintable
  obtain ⟨l, ls, heq, -⟩ := begins_lexemes e hprintable
  rw [heq] at h hminus ⊢
  exact h.operandBack (hminus l rfl)

namespace Back

/-- What is read back in every place is read back as an expression. -/
theorem read (h : Back e) : ReadBack e :=
  h.union.readBack

/-- In parentheses it is read back as an operand. -/
theorem parens (h : Back e) : OperandBack e (parens e.lexemes) :=
  (h.read.parens h.begins).operandBack (by simp [delimiter])

/-- The base of a larger operand. -/
theorem asBase (h : Back e) : OperandBack e (asBase e e.lexemes) := by
  unfold Expr.asBase
  split
  · exact h.parens
  · rename_i hopen
    exact h.base (by simpa using hopen)

/-- The right operand of a union. -/
theorem asOperand (h : Back e) : ClosedBack e (asOperand e e.lexemes) := by
  unfold Expr.asOperand
  split
  · exact h.parens.closedBack
  · rename_i hunion
    exact h.closed (by simpa using hunion)

end Back

/-- A leaf is read as an atom, if its token is. -/
theorem atomBack_singleton {l : Lexeme}
    (h : ∀ (t next : Token) (rest : List Token) (prev : Token) (n : Nat), t.kind = l.kind →
      t.text = String.ofList l.text → next.kind ≠ .string →
      ∃ e', (atom (n + 1)).run ⟨prev, t :: next :: rest⟩ = some (e', ⟨t, next :: rest⟩) ∧
        e'.erase = e.erase) :
    AtomBack e [l] := by
  intro ts next rest prev n hts hnext hn
  obtain ⟨t, rfl, hkind, htext⟩ := hts.exists_singleton
  obtain ⟨n, rfl⟩ : ∃ k, n = k + 1 := ⟨n - 1, by omega⟩
  obtain ⟨e', hrun, herase⟩ := h t next rest prev n hkind htext hnext
  exact ⟨e', t, hrun, herase⟩

/-- A name is read back. -/
theorem atomBack_name (ident : Ident) : AtomBack (.name ident) (lexemes (.name ident)) := by
  refine atomBack_singleton fun t next rest prev n hkind htext _ =>
    ⟨_, run_atom_name hkind, ?_⟩
  rw [htext, ofName, String.ofList_toList]
  rfl

/-- So is a string. -/
theorem atomBack_str (value : String) (span : Span) :
    AtomBack (.str value false false span) (lexemes (.str value false false span)) := by
  refine atomBack_singleton fun t next rest prev n hkind htext hnext =>
    ⟨_, run_atom_string hkind ?_ hnext, rfl⟩
  rw [htext]
  exact decodeLiteral_ofText value

/-- So is a number without a sign. -/
theorem atomBack_digits {text : String} (span : Span) (h : ofNumber text = [ofDigits text.toList]) :
    AtomBack (.num text span) (lexemes (.num text span)) := by
  rw [lexemes, h]
  refine atomBack_singleton fun t next rest prev n hkind htext _ =>
    ⟨_, run_atom_number hkind, ?_⟩
  rw [htext, ofDigits, String.ofList_toList]
  rfl

/-- So is a truth value. -/
theorem atomBack_bool (value : Bool) (span : Span) :
    AtomBack (.bool value span) (lexemes (.bool value span)) := by
  cases value with
  | false =>
    exact atomBack_singleton fun t next rest prev n hkind _ _ => ⟨_, run_atom_false hkind, rfl⟩
  | true =>
    exact atomBack_singleton fun t next rest prev n hkind _ _ => ⟨_, run_atom_true hkind, rfl⟩

/-- So is `None`. -/
theorem atomBack_none (span : Span) : AtomBack (.none span) (lexemes (.none span)) :=
  atomBack_singleton fun _ _ _ _ _ hkind _ _ => ⟨_, run_atom_none hkind, rfl⟩

/-- So is an ellipsis. -/
theorem atomBack_ellipsis (span : Span) : AtomBack (.ellipsis span) (lexemes (.ellipsis span)) :=
  atomBack_singleton fun _ _ _ _ _ hkind _ _ => ⟨_, run_atom_ellipsis hkind, rfl⟩

/-- A negative number is an operand to which nothing can be applied. -/
theorem closedBack_negative {digits : List Char} {text : String} {span : Span}
    (htext : text = "-" ++ String.ofList digits)
    (h : ofNumber text = [delimiter .minus ['-'], ofDigits digits]) :
    ClosedBack (.num text span) (lexemes (.num text span)) := by
  intro ts next rest prev n hts _ hn
  rw [lexemes, h] at hts
  obtain ⟨t, us, rfl, ht, -, hus⟩ := hts.exists_cons
  obtain ⟨u, rfl, hu, hutext⟩ := hus.exists_singleton
  obtain ⟨n, rfl⟩ : ∃ k, n = k + 1 := ⟨n - 1, by omega⟩
  refine ⟨_, u, run_operand_minus ht hu, ?_⟩
  rw [hutext, htext, ofDigits]
  rfl

/-- Any number is read back, with its sign. -/
theorem back_num {text : String} {span : Span} (h : (num text span).Printable) :
    Back (.num text span) := by
  have hbegins := begins_lexemes _ h
  have hclosed : ClosedBack (.num text span) (lexemes (.num text span)) := by
    rcases isInteger_cases h with ⟨digits, -, htext, hnumber⟩ | ⟨-, hnumber⟩
    · exact closedBack_negative htext hnumber
    · have hatom := atomBack_digits span hnumber
      rw [lexemes, hnumber] at hatom ⊢
      exact (hatom.operandBack (by simp [ofDigits])).closedBack
  exact ⟨hbegins, hclosed.unionBack hbegins, fun _ => hclosed,
    fun hopen => absurd hopen (by simp [isOpenBase])⟩

/-! ### What is applied to a base -/

/-- What stands behind a base is applied to it, if one step of the reader does so. -/
theorem Back.operandBack_trailer {base : Expr} (h : Back base) {l : Lexeme} (hl : l.kind ≠ .string)
    (hstep : ∀ (vs : List Token) (next : Token) (rest : List Token) (prev : Token) (n : Nat)
      (base' : Expr), Spelled vs (l :: ls) → 5 * vs.length ≤ n → base'.erase = base.erase →
      ∃ e' last, (trailers (n + 1) base').run ⟨prev, vs ++ next :: rest⟩ =
          (trailers n e').run ⟨last, next :: rest⟩ ∧
        e'.erase = e.erase) :
    OperandBack e (Expr.asBase base base.lexemes ++ l :: ls) := by
  intro ts next rest prev n hts _ hn
  obtain ⟨us, vs, rfl, hus, hvs⟩ := hts.exists_append
  obtain ⟨t, vs', rfl, ht, -, -⟩ := hvs.exists_cons
  rw [List.length_append] at hn
  obtain ⟨base', m, last, hrun, herase, hm⟩ := h.asBase us t (vs' ++ next :: rest) prev n hus
    (by rwa [ht]) (by omega)
  rw [List.length_cons] at hn
  obtain ⟨m, rfl⟩ : ∃ k, m = k + 1 := ⟨m - 1, by omega⟩
  obtain ⟨e', last', hrun', herase'⟩ := hstep (t :: vs') next rest last m base' hvs
    (by rw [List.length_cons]; omega) herase
  refine ⟨e', m, last', ?_, herase', ?_⟩
  · rw [List.append_assoc, List.cons_append, hrun]
    exact hrun'
  · rw [List.length_append, List.length_cons]
    omega

/-- An attribute is read back if its base is. -/
theorem operandBack_attr {value : Expr} {field : Ident} {span : Span} (h : Back value) :
    OperandBack (.attr value field span) (lexemes (.attr value field span)) := by
  refine h.operandBack_trailer (by simp [delimiter])
    fun vs next rest prev n value' hvs _ hvalue => ?_
  obtain ⟨dot, vs, rfl, hdot, -, hvs⟩ := hvs.exists_cons
  obtain ⟨u, rfl, hu, htext⟩ := hvs.exists_singleton
  refine ⟨_, u, run_trailers_dot hdot hu, ?_⟩
  rw [erase, erase, hvalue, htext, ofName, String.ofList_toList]

/-- The inside of a subscript is read as the index. -/
theorem run_subscripts {index : Expr} (h : Back index)
    (hitems : ∀ items s, index = .tuple items s → ∀ e ∈ items, Back e) (ts : List Token)
    (close : Token) (rest : List Token) (prev : Token) (n : Nat)
    (hts : Spelled ts (indexLexemes index)) (hclose : close.kind = .rbracket)
    (hn : 5 * ts.length + 4 ≤ n) :
    ∃ e' last, (subscripts n).run ⟨prev, ts ++ close :: rest⟩ = some (e', ⟨last, close :: rest⟩) ∧
      e'.erase = index.erase := by
  obtain ⟨n, rfl⟩ : ∃ k, n = k + 1 := ⟨n - 1, by omega⟩
  unfold indexLexemes at hts
  split at hts
  · -- several items, with no parentheses
    rename_i first second others span
    have hback := hitems _ _ rfl
    rw [List.map_cons, listed] at hts
    obtain ⟨us, vs, rfl, hus, hvs⟩ := hts.exists_append
    rw [List.length_append] at hn
    obtain ⟨comma, hcomma⟩ : ∃ comma vs', vs = comma :: vs' ∧ comma.kind = .comma := by
      rw [List.map_cons] at hvs
      obtain ⟨comma, us', vs', heq, hcomma, -⟩ := hvs.exists_further
      exact ⟨comma, us' ++ vs', heq, hcomma⟩
    obtain ⟨vs', rfl, hcomma⟩ := hcomma
    obtain ⟨e', last, hrun, herase⟩ := (hback first (by simp)).read us comma
      (vs' ++ close :: rest) prev n hus (by rw [hcomma]; exact TokenKind.not_goesOnUnion (by simp))
      (by omega)
    obtain ⟨es', last', hmore, heraseAll⟩ := run_moreElements .rbracket (by simp)
      (second :: others)
      (fun e he =>
        have hitem := hback e (List.mem_cons_of_mem _ he)
        ⟨hitem.read, hitem.begins⟩)
      (comma :: vs') close rest last n hvs hclose (by omega)
    obtain ⟨span', hsubscripts⟩ := run_subscripts_tuple hrun hcomma hmore
    refine ⟨tuple (e' :: es') span', last', ?_, ?_⟩
    · rw [List.append_assoc]
      exact hsubscripts
    · rw [erase, erase, eraseAll_eq, eraseAll_eq, List.map_cons, herase, heraseAll]
      rfl
  · obtain ⟨e', last, hrun, herase⟩ := h.read ts close rest prev n hts
      (by rw [hclose]; exact TokenKind.not_goesOnUnion (by simp)) (by omega)
    exact ⟨e', last, run_subscripts_one hrun (by simp [hclose]), herase⟩

/-- A subscription is read back if its base and its subscripts are. -/
theorem operandBack_subscript {value index : Expr} {span : Span} (h : Back value)
    (hindex : Back index) (hitems : ∀ items s, index = .tuple items s → ∀ e ∈ items, Back e) :
    OperandBack (.subscript value index span) (lexemes (.subscript value index span)) := by
  rw [lexemes_subscript]
  refine h.operandBack_trailer (by simp [delimiter])
    fun vs next rest prev n value' hvs hn hvalue => ?_
  obtain ⟨t, inner, close, rfl, ht, hinner, hclose⟩ := hvs.exists_between
  rw [List.length_cons, List.length_append, List.length_singleton] at hn
  obtain ⟨index', last, hrun, herase⟩ := run_subscripts hindex hitems inner close (next :: rest) t n
    hinner hclose (by omega)
  refine ⟨subscript value' index' (value'.span.cover close.span), close, ?_, ?_⟩
  · rw [List.cons_append, List.append_assoc]
    exact run_trailers_bracket ht hrun hclose
  · rw [erase, erase, hvalue, herase]

/-- The arguments of a call are read, those by position and those by keyword. -/
theorem run_arguments {args : List Expr} {keywords : List (Option String × Expr)}
    (hargs : ∀ e ∈ args, Back e) (hkeywords : ∀ k ∈ keywords, Back k.2) (ts : List Token)
    (close : Token) (rest : List Token) (prev : Token) (n : Nat)
    (hts : Spelled ts (listed (lexemesEach args ++ lexemesKeywords keywords)))
    (hclose : close.kind = .rparen) (hn : 5 * ts.length + 5 ≤ n) :
    ∃ args' last, (arguments n).run ⟨prev, ts ++ close :: rest⟩ =
        some (args', ⟨last, close :: rest⟩) ∧
      eraseAll args'.1 = eraseAll args ∧ eraseKeywords args'.2 = eraseKeywords keywords := by
  have htext : lexemesEach args ++ lexemesKeywords keywords =
      (args.map Sum.inl ++ keywords.map Sum.inr).map argumentItem := by
    rw [lexemesEach_eq, lexemesKeywords_eq, List.map_append, List.map_map, List.map_map]
    rfl
  have hitems : ∀ item ∈ args.map Sum.inl ++ keywords.map Sum.inr,
      ItemBack argument .rparen eraseArgument item (argumentItem item) := by
    intro item hitem
    rcases List.mem_append.mp hitem with hitem | hitem
    · obtain ⟨e, he, rfl⟩ := List.mem_map.mp hitem
      exact (hargs e he).read.itemBack_positional (hargs e he).begins
    · obtain ⟨⟨key, value⟩, hk, rfl⟩ := List.mem_map.mp hitem
      exact (hkeywords _ hk).read.itemBack_keyword key
  rw [htext] at hts
  obtain ⟨items, last, hrun, herase⟩ := readsList_arguments.run_listed (by simp) eraseArgument
    argumentItem _ hitems ts close rest prev n hts hclose hn
  -- the arguments are sorted into those by position and those by keyword without loss
  have herased := erase_foldr_consArgument items
  rw [herase, ← erase_foldr_consArgument, foldr_consArgument] at herased
  obtain ⟨hfirst, hsecond⟩ := Prod.mk.inj herased
  exact ⟨_, last, hrun, hfirst, hsecond⟩

/-- A call is read back if its function and its arguments are. -/
theorem operandBack_call {func : Expr} {args : List Expr} {keywords : List (Option String × Expr)}
    {span : Span} (h : Back func) (hargs : ∀ e ∈ args, Back e)
    (hkeywords : ∀ k ∈ keywords, Back k.2) :
    OperandBack (.call func args keywords span) (lexemes (.call func args keywords span)) := by
  rw [lexemes]
  refine h.operandBack_trailer (by simp [delimiter])
    fun vs next rest prev n func' hvs hn hfunc => ?_
  obtain ⟨t, inner, close, rfl, ht, hinner, hclose⟩ := hvs.exists_between
  rw [List.length_cons, List.length_append, List.length_singleton] at hn
  obtain ⟨args', last, hrun, herase, herase'⟩ := run_arguments hargs hkeywords inner close
    (next :: rest) t n hinner hclose (by omega)
  refine ⟨call func' args'.1 args'.2 (func'.span.cover close.span), close, ?_, ?_⟩
  · rw [List.cons_append, List.append_assoc]
    exact run_trailers_paren ht hrun hclose
  · rw [erase, erase, hfunc, herase, herase']

/-! ### Displays -/

/-- What stands behind the first item of a tuple. -/
theorem run_moreElements_tuple (first : Expr) (others : List Expr)
    (h : ∀ e ∈ others, ReadBack e ∧ Begins e.lexemes) (vs : List Token) (close : Token)
    (rest : List Token) (n : Nat)
    (hvs : Spelled vs (further (others.map lexemes) ++ lastComma (first :: others)))
    (hclose : close.kind = .rparen) (hn : 5 * vs.length + 1 ≤ n) :
    ∃ comma vs', vs = comma :: vs' ∧ comma.kind = .comma ∧ ∀ prev, ∃ others' last,
      (moreElements n .rparen).run ⟨prev, vs ++ close :: rest⟩ =
        some (others', ⟨last, close :: rest⟩) ∧ others'.map erase = others.map erase := by
  cases others with
  | nil =>
    obtain ⟨comma, rfl, hcomma, -⟩ := hvs.exists_singleton
    obtain ⟨n, rfl⟩ : ∃ k, n = k + 1 := ⟨n - 1, by omega⟩
    exact ⟨comma, [], rfl, hcomma, fun prev => ⟨[], comma, run_moreElements_comma hcomma hclose, rfl⟩⟩
  | cons second others =>
    have hlast : lastComma (first :: second :: others) = [] := by simp [lastComma]
    rw [hlast, List.append_nil] at hvs
    obtain ⟨comma, us, vs', heq, hcomma, -⟩ := Spelled.exists_further hvs
    exact ⟨comma, us ++ vs', heq, hcomma, fun prev =>
      run_moreElements .rparen (by simp) (second :: others) h vs close rest prev n hvs hclose hn⟩

/-- A tuple is read back if its elements are. -/
theorem atomBack_tuple {items : List Expr} {span : Span} (h : ∀ e ∈ items, Back e) :
    AtomBack (.tuple items span) (lexemes (.tuple items span)) := by
  rw [lexemes_tuple]
  intro ts next rest prev n hts _ hn
  obtain ⟨t, inner, close, rfl, ht, hinner, hclose⟩ := hts.exists_between
  rw [List.length_cons, List.length_append, List.length_singleton] at hn
  obtain ⟨n, rfl⟩ : ∃ k, n = k + 2 := ⟨n - 2, by omega⟩
  rw [List.cons_append, List.append_assoc, run_atom_paren ht]
  cases items with
  | nil =>
    obtain rfl := hinner.eq_nil
    exact ⟨_, close, run_parenthesized_empty hclose, rfl⟩
  | cons first others =>
    obtain ⟨hfirst, hothers⟩ := List.forall_mem_cons.mp h
    rw [List.map_cons, listed, List.append_assoc] at hinner
    obtain ⟨us, vs, rfl, hus, hvs⟩ := hinner.exists_append
    rw [List.length_append] at hn
    -- a tuple has a comma behind its first element even where that is the only one
    obtain ⟨comma, vs', rfl, hcomma, hmore⟩ := run_moreElements_tuple first others
      (fun e he => ⟨(hothers e he).read, (hothers e he).begins⟩) vs close (next :: rest) n hvs hclose
      (by omega)
    obtain ⟨first', last, hrun, herase⟩ := hfirst.read us comma (vs' ++ close :: next :: rest) t n
      hus (by rw [hcomma]; exact TokenKind.not_goesOnUnion (by simp)) (by omega)
    obtain ⟨others', last', hmore, heraseAll⟩ := hmore last
    obtain ⟨u, us, rfl, hstart, -⟩ := hus.exists_begin hfirst.begins
    refine ⟨tuple (first' :: others') (t.span.cover close.span), close, ?_, ?_⟩
    · rw [List.append_assoc]
      exact run_parenthesized_tuple (ne_of_startsExpr hstart rfl) hrun hcomma hmore hclose
    · rw [erase, erase, eraseAll_eq, eraseAll_eq, List.map_cons, herase, heraseAll]
      rfl

/-- So is a list. -/
theorem atomBack_list {items : List Expr} {span : Span} (h : ∀ e ∈ items, Back e) :
    AtomBack (.list items span) (lexemes (.list items span)) := by
  rw [lexemes, lexemesEach_eq]
  intro ts next rest prev n hts _ hn
  obtain ⟨t, inner, close, rfl, ht, hinner, hclose⟩ := hts.exists_between
  rw [List.length_cons, List.length_append, List.length_singleton] at hn
  obtain ⟨n, rfl⟩ : ∃ k, n = k + 2 := ⟨n - 2, by omega⟩
  rw [List.cons_append, List.append_assoc]
  cases items with
  | nil =>
    obtain rfl := hinner.eq_nil
    exact ⟨_, close, run_atom_list ht (run_elements_nil hclose) hclose, rfl⟩
  | cons first others =>
    obtain ⟨hfirst, hothers⟩ := List.forall_mem_cons.mp h
    rw [List.map_cons, listed] at hinner
    obtain ⟨us, vs, rfl, hus, hvs⟩ := hinner.exists_append
    rw [List.length_append] at hn
    obtain ⟨u, us', hbehind, hu⟩ := hvs.exists_next close (next :: rest)
    have hstop : ¬ u.kind.GoesOnUnion := by
      have hkind : u.kind = .comma ∨ u.kind = .rbracket := by
        rcases hu with hu | rfl
        · exact .inl hu
        · exact .inr hclose
      exact TokenKind.not_goesOnUnion_of_item (by simp) hkind
    obtain ⟨first', last, hrun, herase⟩ := hfirst.read us u us' t n hus hstop (by omega)
    obtain ⟨others', last', hmore, heraseAll⟩ := run_moreElements .rbracket (by simp)
      others (fun e he => ⟨(hothers e he).read, (hothers e he).begins⟩) vs close (next :: rest) last n
      hvs hclose (by omega)
    obtain ⟨v, us, rfl, hstart, -⟩ := hus.exists_begin hfirst.begins
    rw [hbehind] at hmore
    refine ⟨list (first' :: others') (t.span.cover close.span), close, ?_, ?_⟩
    · rw [List.append_assoc, List.singleton_append, hbehind]
      have hne : v.kind ≠ .rbracket := ne_of_startsExpr hstart rfl
      exact run_atom_list ht (run_elements_cons hne hrun hmore) hclose
    · rw [erase, erase, eraseAll_eq, eraseAll_eq, List.map_cons, herase, heraseAll]
      rfl

/-- So is a dictionary, if its keys and values are. -/
theorem atomBack_dict {entries : List (Option Expr × Expr)} {span : Span}
    (h : ∀ k ∈ entries, (∀ key ∈ k.1, Back key) ∧ Back k.2) :
    AtomBack (.dict entries span) (lexemes (.dict entries span)) := by
  rw [lexemes, lexemesEntries_eq]
  intro ts next rest prev n hts _ hn
  obtain ⟨t, inner, close, rfl, ht, hinner, hclose⟩ := hts.exists_between
  rw [List.length_cons, List.length_append, List.length_singleton] at hn
  obtain ⟨n, rfl⟩ : ∃ k, n = k + 1 := ⟨n - 1, by omega⟩
  have hitems : ∀ item ∈ entries, ItemBack dictEntry .rbrace eraseEntry item
      (entryItem (item.1.map lexemes) item.2.lexemes) := by
    rintro ⟨key, value⟩ hitem
    obtain ⟨hkey, hvalue⟩ := h _ hitem
    exact hvalue.read.itemBack_entry fun k hk => ⟨(hkey k hk).read, (hkey k hk).begins⟩
  obtain ⟨entries', last, hrun, herase⟩ := readsList_dictEntries.run_listed (by simp) eraseEntry _ _
    hitems inner close (next :: rest) t n hinner hclose (by omega)
  rw [List.foldr_cons_nil] at hrun
  refine ⟨dict entries' (t.span.cover close.span), close, ?_, ?_⟩
  · rw [List.cons_append, List.append_assoc]
    exact run_atom_dict ht hrun hclose
  · rw [erase, erase, eraseEntries_eq, eraseEntries_eq]
    exact congrArg (dict · noSpan) herase

/-! ### Unions -/

/-- A union is read back if both sides are. -/
theorem unionBack_union {left right : Expr} {span : Span} (hleft : Back left)
    (hright : Back right) : UnionBack (.union left right span) := by
  intro ts next rest prev n hts hnext hn
  rw [lexemes, List.append_assoc] at hts
  obtain ⟨us, vs, rfl, hus, hvs⟩ := hts.exists_append
  obtain ⟨pipe, vs, rfl, hpipe, -, hvs⟩ := hvs.exists_cons
  rw [List.length_append, List.length_cons] at hn
  obtain ⟨left', m, last, hrun, herase, hm⟩ := hleft.union us pipe (vs ++ next :: rest) prev n hus
    (by rw [hpipe]; exact TokenKind.not_goesOn_pipe) (by omega)
  obtain ⟨m, rfl⟩ : ∃ k, m = k + 1 := ⟨m - 1, by omega⟩
  obtain ⟨right', last', hrun', herase'⟩ := hright.asOperand vs next rest pipe m hvs.of_space hnext
    (by omega)
  refine ⟨union left' right' (left'.span.cover right'.span), m, last', ?_, ?_, ?_⟩
  · rw [List.append_assoc, List.cons_append, hrun]
    exact run_unionTail_pipe hpipe hrun'
  · rw [erase, erase, herase, herase']
  · rw [List.length_append, List.length_cons]
    omega

/-! ### The whole text -/

/-- What is read from the tokens of an expression is the expression. -/
theorem back (e : Expr) (h : e.Printable) : Back e := by
  induction e using deepInduction with
  | name ident => exact (atomBack_name ident).back h (by simp [lexemes, ofName])
  | attr value field span hvalue => exact (operandBack_attr (hvalue h.1)).back h
  | subscript value index span hvalue hindex hitems =>
    refine (operandBack_subscript (hvalue h.1) (hindex h.2) fun items s heq e he => ?_).back h
    obtain rfl := heq
    exact hitems items s rfl e he ((allPrintable_iff items).mp h.2 e he)
  | call func args keywords span hfunc hargs hkeywords =>
    have hpargs := (allPrintable_iff args).mp h.2.1
    have hpkeywords := (keywordsPrintable_iff keywords).mp h.2.2
    exact (operandBack_call (hfunc h.1) (fun e he => hargs e he (hpargs e he))
      fun k hk => hkeywords k hk (hpkeywords k hk).2).back h
  | str value isBytes isFormatted span =>
    obtain ⟨rfl, rfl⟩ := h
    exact (atomBack_str value span).back ⟨rfl, rfl⟩ (by simp [lexemes, ofText])
  | num text span => exact back_num h
  | bool value span =>
    refine (atomBack_bool value span).back h ?_
    cases value <;> simp [lexemes, ofKeyword]
  | none span => exact (atomBack_none span).back h (by simp [lexemes, ofKeyword])
  | ellipsis span => exact (atomBack_ellipsis span).back h (by simp [lexemes, delimiter])
  | tuple items span hitems =>
    have hprintable := (allPrintable_iff items).mp h
    exact (atomBack_tuple fun e he => hitems e he (hprintable e he)).back h
      (by simp [lexemes_tuple, Lexeme.parens, delimiter])
  | list items span hitems =>
    have hprintable := (allPrintable_iff items).mp h
    exact (atomBack_list fun e he => hitems e he (hprintable e he)).back h
      (by simp [lexemes, brackets, delimiter])
  | dict entries span hentries =>
    have hprintable := (entriesPrintable_iff entries).mp h
    exact (atomBack_dict fun k hk =>
      ⟨fun key hkey => (hentries k hk).1 key hkey ((hprintable k hk).1 key hkey),
        (hentries k hk).2 (hprintable k hk).2⟩).back h (by simp [lexemes, braces, delimiter])
  | union left right span hleft hright =>
    refine ⟨begins_lexemes _ h, unionBack_union (hleft h.1) (hright h.2), ?_, ?_⟩
    · exact fun hunion => absurd hunion (by simp [isUnion])
    · exact fun hopen => absurd hopen (by simp [isOpenBase])
  | unmodelled span => exact absurd h id

/-- **Reading undoes printing: the text of an expression is read as the expression.** -/
theorem parse?_print (e : Expr) (h : e.Printable) :
    ∃ e', parse? e.print = some e' ∧ e'.erase = e.erase := by
  obtain ⟨ts, newline, eof, htokens, hts, hnewline, heof⟩ := tokenize_print e h
  let prev : Token := ⟨.eof, ⟨Text.byteLength e.print.toList, Text.byteLength e.print.toList⟩, ""⟩
  obtain ⟨e', last, hrun, herase⟩ := (back e h).read ts newline [eof] prev
    (depthBound ⟨prev, ts ++ [newline, eof]⟩) hts
    (by rw [hnewline]; exact TokenKind.not_goesOnUnion (by simp))
    (by simp only [depthBound, List.length_append]; omega)
  refine ⟨e', ?_, herase⟩
  simp [parse?, htokens, Cursor.start, prev, hrun, Cursor.at?_cons, hnewline, Cursor.advance_cons,
    Cursor.skipWhile, Cursor.skipTokens, heof]

/-- Negative and attributed numbers, a union on the right of another, and a call with a text that
    has to be escaped. -/
def sampleUnion : Expr :=
  union (attr (num "1" noSpan) ⟨"real", noSpan⟩ noSpan)
    (union (subscript (name ⟨"f", noSpan⟩) (tuple [num "-2" noSpan, ellipsis noSpan] noSpan) noSpan)
      (call (name ⟨"g", noSpan⟩) [tuple [str "a\"b\n" false false noSpan] noSpan]
        [(some "k", list [] noSpan), (Option.none, dict [] noSpan)] noSpan) noSpan) noSpan

/-- A union inside a union is read back. -/
theorem parse?_print_sampleUnion :
    sampleUnion.Printable ∧ ∃ e', parse? sampleUnion.print = some e' ∧
      e'.erase = sampleUnion.erase := by
  have h : sampleUnion.Printable := by
    simp [sampleUnion, Printable, AllPrintable, KeywordsPrintable, EntriesPrintable]
    decide
  exact ⟨h, parse?_print _ h⟩

example : sampleUnion.print =
    "(1).real | (f[-2, ...] | g((\"a\\\"b\\n\",), k=[], **\x7b\x7d))" := by
  decide +kernel

end Expr
end PackageDoc
