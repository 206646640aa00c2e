import PackageDoc.Proofs.Annotation.Grammar
import PackageDoc.Proofs.Syntax.Roundtrip

namespace PackageDoc

/-!
# A phrase is read wherever it stands

The readers of the grammar find a phrase in any tokens that are one, whatever stands in front of them
and behind them, unless what stands behind goes on with it.

* `Expr.Phrase.Begins` — how a phrase begins;
* `Expr.Phrase.IsRead` — tokens are read as a phrase, wherever they stand;
* `Expr.Parses.isRead` — the tokens of every phrase are;
* `Expr.Parses.unique` — tokens are one expression only.
-/

namespace Expr

/-! ### Beginnings -/

/-- How the tokens of a phrase begin. -/
def Phrase.Begins : Phrase → List Token → Prop
  | .read _, ts | .operand _, ts | .subscripts _, ts => ∃ t us, ts = t :: us ∧
      t.kind.startsExpr = true ∧ (t.kind = .name → ∀ u ∈ us.head?, u.kind ≠ .equals)
  | .atom _, ts => ∃ t us, ts = t :: us ∧ t.kind.startsExpr = true ∧ t.kind ≠ .minus ∧
      (t.kind = .name → us = [])
  | .unionTail _ _, ts => ∀ t ∈ ts.head?, t.kind = .pipe
  | .trailers _ _, ts => ∀ t ∈ ts.head?, t.kind ∈ [.dot, .lbracket, .lparen]
  | .moreElements _, ts => ∀ t ∈ ts.head?, t.kind = .comma
  | .dictEntry _, ts => ∃ t us, ts = t :: us ∧ t.kind ≠ .rbrace
  | .argument _, ts => ∃ t us, ts = t :: us ∧ t.kind ≠ .rparen
  | _, _ => True

/-- A token that is an expression starts one, and is no minus. -/
theorem startsExpr_of_ofToken? {t : Token} {e : Expr} (h : ofToken? t = some e) :
    t.kind.startsExpr = true ∧ t.kind ≠ .minus := by
  unfold ofToken? at h
  split at h <;> first
    | rename_i hkind
      rw [hkind]
      exact ⟨rfl, by simp⟩
    | cases h

/-- What the tokens of a phrase begin with. -/
theorem Parses.begins {p : Phrase} {ts : List Token} (h : Parses p ts) : p.Begins ts := by
  induction h with
  -- behind a name alone stands a `|` or a trailer, and no `=`
  | @read l e ts us _ _ hleft htail =>
    obtain ⟨t, vs, rfl, hstart, hname⟩ := hleft
    refine ⟨t, vs ++ us, rfl, hstart, fun hkind u hu => ?_⟩
    cases vs with
    | nil => rw [htail u hu]; simp
    | cons v vs => exact hname hkind u hu
  | @applied b e ts us _ _ hbase htail =>
    obtain ⟨t, vs, rfl, hstart, -, hname⟩ := hbase
    refine ⟨t, vs ++ us, rfl, hstart, fun hkind u hu => ?_⟩
    obtain rfl := hname hkind
    have hu := htail u hu
    rintro heq
    simp [heq] at hu
  | negative hminus => exact ⟨_, _, rfl, by rw [hminus]; rfl, by simp [hminus]⟩
  | unionMore hpipe => simpa [Phrase.Begins] using hpipe
  | attr hdot => simp [Phrase.Begins, hdot]
  | subscript hopen => simp [Phrase.Begins, hopen]
  | call hopen => simp [Phrase.Begins, hopen]
  | single hsingle =>
    obtain ⟨hstart, hminus⟩ := startsExpr_of_ofToken? hsingle
    exact ⟨_, [], rfl, hstart, hminus, fun _ => rfl⟩
  | literals hstrings =>
    have hstring := hstrings _ List.mem_cons_self
    exact ⟨_, _, rfl, by rw [hstring]; rfl, by simp [hstring], by simp [hstring]⟩
  | emptyTuple hopen | group hopen | tuple hopen | list hopen | dict hopen =>
    exact ⟨_, _, rfl, by rw [hopen]; rfl, by simp [hopen], by simp [hopen]⟩
  | lastComma hcomma | moreElements hcomma => simpa [Phrase.Begins] using hcomma
  | index _ hinner => exact hinner
  | indices _ hothers _ hfirst hothers' =>
    obtain ⟨t, vs, rfl, hstart, hname⟩ := hfirst
    refine ⟨t, vs ++ _, rfl, hstart, fun hkind u hu => ?_⟩
    cases vs with
    | nil => rw [hothers' u hu]; simp
    | cons v vs => exact hname hkind u hu
  | spread hstar => exact ⟨_, _, rfl, by simp [hstar]⟩
  | pair _ _ _ hkey =>
    obtain ⟨t, vs, rfl, hstart, -⟩ := hkey
    exact ⟨t, _, rfl, ne_of_startsExpr hstart rfl⟩
  | keywordSpread hstar | positionalSpread hstar => exact ⟨_, _, rfl, by simp [hstar]⟩
  | keyword hkey => exact ⟨_, _, rfl, by simp [hkey]⟩
  | positional _ hvalue =>
    obtain ⟨t, vs, rfl, hstart, -⟩ := hvalue
    exact ⟨t, _, rfl, ne_of_startsExpr hstart rfl⟩
  | _ => simp [Phrase.Begins]

/-! ### Readers -/

/-- In front of a token that satisfies `follows` the tokens `ts` are read as `a`, given enough
    levels. -/
def ReadsTo {α : Type} (m : Nat → ExprReader α) (a : α) (ts : List Token) (levels : Nat)
    (follows : TokenKind → Prop) : Prop :=
  ∀ (prev next : Token) (rest : List Token) (n : Nat), follows next.kind → 5 * ts.length + levels ≤ n →
    ∃ last, (m n).run ⟨prev, ts ++ next :: rest⟩ = some (a, ⟨last, next :: rest⟩)

/-- The tokens are read as the phrase, wherever they stand. -/
def Phrase.IsRead : Phrase → List Token → Prop
  | .read e, ts => ReadsTo Expr.read e ts 3 fun k => ¬ k.GoesOnUnion
  | .unionTail left e, ts => ReadsTo (fun n => Expr.unionTail n left) e ts 1 fun k => ¬ k.GoesOnUnion
  | .operand e, ts => ReadsTo Expr.operand e ts 2 fun k => ¬ k.GoesOn
  | .trailers base e, ts => ReadsTo (fun n => Expr.trailers n base) e ts 1 fun k => ¬ k.GoesOn
  | .atom e, ts => ReadsTo Expr.atom e ts 1 fun k => k ≠ .string
  | .elements es, ts => ∀ close ∈ [TokenKind.rparen, .rbracket, .rbrace],
      ReadsTo (fun n => Expr.elements n close) es ts 4 fun k => k = close
  | .moreElements es, ts => ∀ close ∈ [TokenKind.rparen, .rbracket, .rbrace],
      ReadsTo (fun n => Expr.moreElements n close) es ts 1 fun k => k = close
  | .subscripts e, ts => ReadsTo Expr.subscripts e ts 4 fun k => k = .rbracket
  | .dictEntry entry, ts => ReadsTo Expr.dictEntry entry ts 4 fun k => k = .comma ∨ k = .rbrace
  | .dictEntries entries, ts => ReadsTo Expr.dictEntries entries ts 5 fun k => k = .rbrace
  | .argument arg, ts => ReadsTo Expr.argument arg ts 4 fun k => k = .comma ∨ k = .rparen
  | .arguments args, ts => ReadsTo Expr.arguments args ts 5 fun k => k = .rparen

/-- What stands next behind some tokens. -/
theorem exists_next (us : List Token) (next : Token) (rest : List Token) :
    ∃ t ts, us ++ next :: rest = t :: ts ∧ (us.head? = some t ∨ t = next) := by
  cases us with
  | nil => exact ⟨next, rest, rfl, .inr rfl⟩
  | cons u us => exact ⟨u, us ++ next :: rest, rfl, .inl rfl⟩

namespace Phrase

variable {e l r b k v : Expr} {es : List Expr} {ts us : List Token} {t o c : Token}

/-! ### Unions and operands -/

/-- An expression is read as its first operand and the tail of the union behind it. -/
theorem isRead_read (hleft : IsRead (.operand l) ts) (htail : IsRead (.unionTail l e) us)
    (hpipe : Begins (.unionTail l e) us) : IsRead (.read e) (ts ++ us) := by
  intro prev next rest n hnext hn
  rw [List.length_append] at hn
  obtain ⟨n, rfl⟩ : ∃ m, n = m + 1 := ⟨n - 1, by omega⟩
  obtain ⟨t, vs, heq, ht⟩ := exists_next us next rest
  have hgoes : ¬ t.kind.GoesOn := by
    rcases ht with ht | rfl
    · rw [hpipe t ht]
      exact TokenKind.not_goesOn_pipe
    · exact fun h => hnext (.inl h)
  obtain ⟨last, hrun⟩ := hleft prev t vs n hgoes (by omega)
  rw [← heq] at hrun
  obtain ⟨last', hrun'⟩ := htail last next rest n hnext (by omega)
  exact ⟨last', by rw [List.append_assoc, run_read hrun, hrun']⟩

/-- The tail of a union may be empty. -/
theorem isRead_unionEnd (e : Expr) : IsRead (.unionTail e e) [] := by
  intro prev next rest n hnext hn
  obtain ⟨n, rfl⟩ : ∃ m, n = m + 1 := ⟨n - 1, by omega⟩
  exact ⟨prev, run_unionTail_stop fun h => hnext (.inr h)⟩

/-- It may be a bar, an operand and a further tail. -/
theorem isRead_unionMore (hp : t.kind = .pipe) (hright : IsRead (.operand r) ts)
    (htail : IsRead (.unionTail (union l r (l.span.cover r.span)) e) us)
    (hpipe : Begins (.unionTail l e) us) : IsRead (.unionTail l e) (t :: (ts ++ us)) := by
  intro prev next rest n hnext hn
  rw [List.length_cons, List.length_append] at hn
  obtain ⟨n, rfl⟩ : ∃ m, n = m + 1 := ⟨n - 1, by omega⟩
  obtain ⟨u, vs, heq, hu⟩ := exists_next us next rest
  have hgoes : ¬ u.kind.GoesOn := by
    rcases hu with hu | rfl
    · rw [hpipe u hu]
      exact TokenKind.not_goesOn_pipe
    · exact fun h => hnext (.inl h)
  obtain ⟨last, hrun⟩ := hright t u vs n hgoes (by omega)
  rw [← heq] at hrun
  obtain ⟨last', hrun'⟩ := htail last next rest n hnext (by omega)
  exact ⟨last', by rw [List.cons_append, List.append_assoc, run_unionTail_pipe hp hrun, hrun']⟩

/-- A number behind a minus is read as a negative number. -/
theorem isRead_negative {m : Token} (hm : m.kind = .minus) (ht : t.kind = .number) :
    IsRead (.operand (num ("-" ++ t.text) (m.span.cover t.span))) [m, t] := by
  intro prev next rest n _ hn
  obtain ⟨n, rfl⟩ : ∃ m, n = m + 1 := ⟨n - 1, by omega⟩
  exact ⟨t, run_operand_minus hm ht⟩

/-- An operand is an atom and its trailers. -/
theorem isRead_applied (hatom : Begins (.atom b) ts) (hbase : IsRead (.atom b) ts)
    (htail : IsRead (.trailers b e) us) (htrailers : Begins (.trailers b e) us) :
    IsRead (.operand e) (ts ++ us) := by
  intro prev next rest n hnext hn
  rw [List.length_append] at hn
  obtain ⟨t, vs, rfl, -, hminus, -⟩ := hatom
  rw [List.length_cons] at hn
  obtain ⟨n, rfl⟩ : ∃ m, n = m + 1 := ⟨n - 1, by omega⟩
  obtain ⟨u, ws, heq, hu⟩ := exists_next us next rest
  -- behind an atom no string may stand, which would be joined to it
  have hstring : u.kind ≠ .string := by
    intro hkind
    rcases hu with hu | rfl
    · have hmem := htrailers u hu
      simp [hkind] at hmem
    · exact hnext (by simp [TokenKind.GoesOn, hkind])
  obtain ⟨last, hrun⟩ := hbase prev u ws n hstring (by rw [List.length_cons]; omega)
  rw [← heq, List.cons_append] at hrun
  obtain ⟨last', hrun'⟩ := htail last next rest n hnext (by omega)
  exact ⟨last', by rw [List.append_assoc, List.cons_append, run_operand_atom hminus hrun, hrun']⟩

/-! ### Trailers -/

/-- There may be no trailers. -/
theorem isRead_trailersEnd (e : Expr) : IsRead (.trailers e e) [] := by
  intro prev next rest n hnext hn
  obtain ⟨n, rfl⟩ : ∃ m, n = m + 1 := ⟨n - 1, by omega⟩
  exact ⟨prev, run_trailers_stop fun h => hnext (List.mem_cons_of_mem _ h)⟩

/-- A trailer may be a dot and a name. -/
theorem isRead_attr (ho : o.kind = .dot) (ht : t.kind = .name)
    (htail : IsRead (.trailers (attr b ⟨t.text, t.span⟩ (b.span.cover t.span)) e) us) :
    IsRead (.trailers b e) (o :: t :: us) := by
  intro prev next rest n hnext hn
  rw [List.length_cons, List.length_cons] at hn
  obtain ⟨n, rfl⟩ : ∃ m, n = m + 1 := ⟨n - 1, by omega⟩
  obtain ⟨last, hrun⟩ := htail t next rest n hnext (by omega)
  exact ⟨last, (run_trailers_dot ho ht).trans hrun⟩

/-- A trailer may be a subscript in brackets. -/
theorem isRead_subscript {i : Expr} (ho : o.kind = .lbracket) (hindex : IsRead (.subscripts i) ts)
    (hc : c.kind = .rbracket)
    (htail : IsRead (.trailers (subscript b i (b.span.cover c.span)) e) us) :
    IsRead (.trailers b e) (o :: (ts ++ c :: us)) := by
  intro prev next rest n hnext hn
  rw [List.length_cons, List.length_append, List.length_cons] at hn
  obtain ⟨n, rfl⟩ : ∃ m, n = m + 1 := ⟨n - 1, by omega⟩
  obtain ⟨last, hrun⟩ := hindex o c (us ++ next :: rest) n hc (by omega)
  obtain ⟨last', hrun'⟩ := htail c next rest n hnext (by omega)
  refine ⟨last', ?_⟩
  rw [List.cons_append, List.append_assoc]
  exact (run_trailers_bracket ho hrun hc).trans hrun'

/-- A trailer may be arguments in parentheses. -/
theorem isRead_call {args : List Expr × List (Option String × Expr)} (ho : o.kind = .lparen)
    (hinner : IsRead (.arguments args) ts) (hc : c.kind = .rparen)
    (htail : IsRead (.trailers (call b args.1 args.2 (b.span.cover c.span)) e) us) :
    IsRead (.trailers b e) (o :: (ts ++ c :: us)) := by
  intro prev next rest n hnext hn
  rw [List.length_cons, List.length_append, List.length_cons] at hn
  obtain ⟨n, rfl⟩ : ∃ m, n = m + 1 := ⟨n - 1, by omega⟩
  obtain ⟨last, hrun⟩ := hinner o c (us ++ next :: rest) n hc (by omega)
  obtain ⟨last', hrun'⟩ := htail c next rest n hnext (by omega)
  refine ⟨last', ?_⟩
  rw [List.cons_append, List.append_assoc]
  exact (run_trailers_paren ho hrun hc).trans hrun'

/-! ### Atoms -/

/-- A token that is an expression is read as an atom. -/
theorem isRead_single (h : ofToken? t = some e) : IsRead (.atom e) [t] := by
  intro prev next rest n _ hn
  obtain ⟨n, rfl⟩ : ∃ m, n = m + 1 := ⟨n - 1, by omega⟩
  refine ⟨t, ?_⟩
  unfold ofToken? at h
  rw [List.singleton_append]
  split at h <;> cases h
  · exact run_atom_name ‹_›
  · exact run_atom_none ‹_›
  · exact run_atom_true ‹_›
  · exact run_atom_false ‹_›
  · exact run_atom_number ‹_›
  · exact run_atom_ellipsis ‹_›

/-- String literals are joined up to the first token that is none. -/
theorem joinLiterals_append (hts : ∀ t ∈ ts, t.kind = .string) (hnext : t.kind ≠ .string)
    (value : StringValue) (span : Span) (prev prev' : Token) (rest : List Token) :
    ∃ last, joinLiterals value span prev (ts ++ t :: rest) =
      ((joinLiterals value span prev' ts).1, (joinLiterals value span prev' ts).2.1,
        ⟨last, t :: rest⟩) := by
  induction ts generalizing value span prev prev' with
  | nil => exact ⟨prev, by simp [joinLiterals, hnext]⟩
  | cons u us ih =>
    obtain ⟨hu, hus⟩ := List.forall_mem_cons.mp hts
    rw [List.cons_append, joinLiterals, if_pos hu, joinLiterals, if_pos hu]
    exact ih hus _ _ u u

/-- String literals behind one another are read as an atom. -/
theorem isRead_literals (h : ∀ u ∈ t :: ts, u.kind = .string) :
    IsRead (.atom (ofLiterals t ts)) (t :: ts) := by
  intro prev next rest n hnext hn
  obtain ⟨n, rfl⟩ : ∃ m, n = m + 1 := ⟨n - 1, by omega⟩
  have ht := h t List.mem_cons_self
  obtain ⟨last, hjoin⟩ := joinLiterals_append h hnext ⟨"", false, false⟩ t.span prev t rest
  refine ⟨last, ?_⟩
  rw [List.cons_append] at hjoin ⊢
  simp [Expr.atom, literals, ExprReader.run_peek, Cursor.peek_cons, ht, hjoin, ofLiterals]

/-- So are empty parentheses. -/
theorem isRead_emptyTuple (ho : o.kind = .lparen) (hc : c.kind = .rparen) :
    IsRead (.atom (Expr.tuple [] (o.span.cover c.span))) [o, c] := by
  intro prev next rest n _ hn
  obtain ⟨n, rfl⟩ : ∃ m, n = m + 2 := ⟨n - 2, by simp at hn; omega⟩
  exact ⟨c, (run_atom_paren ho).trans (run_parenthesized_empty hc)⟩

/-- So is an expression in parentheses, which keeps its own span. -/
theorem isRead_group (ho : o.kind = .lparen) (hbegins : Begins (.read e) ts)
    (hinner : IsRead (.read e) ts) (hc : c.kind = .rparen) : IsRead (.atom e) (o :: (ts ++ [c])) := by
  intro prev next rest n _ hn
  rw [List.length_cons, List.length_append, List.length_singleton] at hn
  obtain ⟨n, rfl⟩ : ∃ m, n = m + 2 := ⟨n - 2, by omega⟩
  obtain ⟨last, hrun⟩ := hinner o c (next :: rest) n
    (TokenKind.not_goesOnUnion (by simp [hc])) (by omega)
  obtain ⟨t, us, rfl, hstart, -⟩ := hbegins
  refine ⟨c, ?_⟩
  rw [List.cons_append, List.append_assoc, List.singleton_append, run_atom_paren ho]
  exact run_parenthesized_one (ne_of_startsExpr hstart rfl) hrun hc

/-- So are several expressions in parentheses. -/
theorem isRead_tuple (ho : o.kind = .lparen) (hbegins : Begins (.read e) ts)
    (hfirst : IsRead (.read e) ts) (hcomma : Begins (.moreElements es) us)
    (hothers : IsRead (.moreElements es) us) (hseveral : us ≠ []) (hc : c.kind = .rparen) :
    IsRead (.atom (Expr.tuple (e :: es) (o.span.cover c.span))) (o :: (ts ++ us ++ [c])) := by
  intro prev next rest n _ hn
  rw [List.length_cons, List.length_append, List.length_append, List.length_singleton] at hn
  obtain ⟨n, rfl⟩ : ∃ m, n = m + 2 := ⟨n - 2, by omega⟩
  obtain ⟨u, vs, rfl⟩ := List.exists_cons_of_ne_nil hseveral
  have hu : u.kind = .comma := hcomma u rfl
  obtain ⟨last, hrun⟩ := hfirst o u (vs ++ c :: next :: rest) n
    (TokenKind.not_goesOnUnion (by simp [hu])) (by omega)
  obtain ⟨last', hrun'⟩ := hothers .rparen (by simp) last c (next :: rest) n hc (by omega)
  obtain ⟨t, ws, rfl, hstart, -⟩ := hbegins
  refine ⟨c, ?_⟩
  have heq : o :: (t :: ws ++ u :: vs ++ [c]) ++ next :: rest =
      o :: (t :: (ws ++ u :: (vs ++ c :: next :: rest))) := by simp
  rw [heq, run_atom_paren ho]
  exact run_parenthesized_tuple (ne_of_startsExpr hstart rfl) hrun hu hrun' hc

/-- So are elements in brackets. -/
theorem isRead_list (ho : o.kind = .lbracket) (hinner : IsRead (.elements es) ts)
    (hc : c.kind = .rbracket) : IsRead (.atom (Expr.list es (o.span.cover c.span))) (o :: (ts ++ [c])) := by
  intro prev next rest n _ hn
  rw [List.length_cons, List.length_append, List.length_singleton] at hn
  obtain ⟨n, rfl⟩ : ∃ m, n = m + 1 := ⟨n - 1, by omega⟩
  obtain ⟨last, hrun⟩ := hinner .rbracket (by simp) o c (next :: rest) n hc (by omega)
  refine ⟨c, ?_⟩
  rw [List.cons_append, List.append_assoc]
  exact run_atom_list ho hrun hc

/-- So are entries in braces. -/
theorem isRead_dict {entries : List (Option Expr × Expr)} (ho : o.kind = .lbrace)
    (hinner : IsRead (.dictEntries entries) ts) (hc : c.kind = .rbrace) :
    IsRead (.atom (Expr.dict entries (o.span.cover c.span))) (o :: (ts ++ [c])) := by
  intro prev next rest n _ hn
  rw [List.length_cons, List.length_append, List.length_singleton] at hn
  obtain ⟨n, rfl⟩ : ∃ m, n = m + 1 := ⟨n - 1, by omega⟩
  obtain ⟨last, hrun⟩ := hinner o c (next :: rest) n hc (by omega)
  refine ⟨c, ?_⟩
  rw [List.cons_append, List.append_assoc]
  exact run_atom_dict ho hrun hc

/-! ### Lists of expressions -/

/-- A display may be empty. -/
theorem isRead_noElements : IsRead (.elements []) [] := by
  intro close _ prev next rest n hnext hn
  obtain ⟨n, rfl⟩ : ∃ m, n = m + 1 := ⟨n - 1, by omega⟩
  exact ⟨prev, run_elements_nil hnext⟩

/-- Behind an item of a list stands a comma, or the end of the list. -/
theorem not_goesOnUnion_next {next u : Token} {close : TokenKind}
    (hclose : close ∈ [TokenKind.rparen, .rbracket, .rbrace])
    (hcomma : Begins (.moreElements es) us) (hnext : next.kind = close)
    (hu : us.head? = some u ∨ u = next) : ¬ u.kind.GoesOnUnion := by
  refine TokenKind.not_goesOnUnion_of_item hclose ?_
  rcases hu with hu | rfl
  · exact .inl (hcomma u hu)
  · exact .inr hnext

/-- An expression does not begin with the end of a list. -/
theorem ne_close {close : TokenKind} (hclose : close ∈ [TokenKind.rparen, .rbracket, .rbrace])
    (hstart : t.kind.startsExpr = true) : t.kind ≠ close := by
  simp only [List.mem_cons, List.not_mem_nil, or_false] at hclose
  rcases hclose with rfl | rfl | rfl <;> exact ne_of_startsExpr hstart rfl

/-- Its first element is an expression, and the others follow behind commas. -/
theorem isRead_elements (hbegins : Begins (.read e) ts) (hfirst : IsRead (.read e) ts)
    (hcomma : Begins (.moreElements es) us) (hothers : IsRead (.moreElements es) us) :
    IsRead (.elements (e :: es)) (ts ++ us) := by
  intro close hclose prev next rest n hnext hn
  rw [List.length_append] at hn
  obtain ⟨n, rfl⟩ : ∃ m, n = m + 1 := ⟨n - 1, by omega⟩
  obtain ⟨u, vs, heq, hu⟩ := exists_next us next rest
  obtain ⟨last, hrun⟩ := hfirst prev u vs n (not_goesOnUnion_next hclose hcomma hnext hu) (by omega)
  rw [← heq] at hrun
  obtain ⟨last', hrun'⟩ := hothers close hclose last next rest n hnext (by omega)
  obtain ⟨t, ws, rfl, hstart, -⟩ := hbegins
  refine ⟨last', ?_⟩
  rw [List.append_assoc]
  exact run_elements_cons (ne_close hclose hstart) hrun hrun'

/-- Nothing has to follow an element. -/
theorem isRead_noMore : IsRead (.moreElements []) [] := by
  intro close hclose prev next rest n hnext hn
  obtain ⟨n, rfl⟩ : ∃ m, n = m + 1 := ⟨n - 1, by omega⟩
  refine ⟨prev, run_moreElements_nil ?_⟩
  rw [hnext]
  rintro rfl
  simp at hclose

/-- A comma may follow the last one. -/
theorem isRead_lastComma (ht : t.kind = .comma) : IsRead (.moreElements []) [t] := by
  intro close hclose prev next rest n hnext hn
  obtain ⟨n, rfl⟩ : ∃ m, n = m + 1 := ⟨n - 1, by omega⟩
  exact ⟨t, run_moreElements_comma ht hnext⟩

/-- A further element follows behind a comma. -/
theorem isRead_moreElements (ht : t.kind = .comma) (hbegins : Begins (.read e) ts)
    (hfirst : IsRead (.read e) ts) (hcomma : Begins (.moreElements es) us)
    (hothers : IsRead (.moreElements es) us) : IsRead (.moreElements (e :: es)) (t :: (ts ++ us)) := by
  intro close hclose prev next rest n hnext hn
  rw [List.length_cons, List.length_append] at hn
  obtain ⟨n, rfl⟩ : ∃ m, n = m + 1 := ⟨n - 1, by omega⟩
  obtain ⟨u, vs, heq, hu⟩ := exists_next us next rest
  obtain ⟨last, hrun⟩ := hfirst t u vs n (not_goesOnUnion_next hclose hcomma hnext hu) (by omega)
  rw [← heq] at hrun
  obtain ⟨last', hrun'⟩ := hothers close hclose last next rest n hnext (by omega)
  obtain ⟨v, ws, rfl, hstart, -⟩ := hbegins
  refine ⟨last', ?_⟩
  rw [List.cons_append, List.append_assoc]
  exact run_moreElements_cons ht (ne_close hclose hstart) hrun hrun'

/-- A subscript may be one expression. -/
theorem isRead_index (hinner : IsRead (.read e) ts) : IsRead (.subscripts e) ts := by
  intro prev next rest n hnext hn
  obtain ⟨n, rfl⟩ : ∃ m, n = m + 1 := ⟨n - 1, by omega⟩
  obtain ⟨last, hrun⟩ := hinner prev next rest n (TokenKind.not_goesOnUnion (by simp [hnext]))
    (by omega)
  exact ⟨last, run_subscripts_one hrun (by simp [hnext])⟩

/-- Several expressions in a subscript are a tuple, which covers them. -/
theorem isRead_indices (hfirst : IsRead (.read e) ts) (hcomma : Begins (.moreElements es) us)
    (hothers : IsRead (.moreElements es) us) (hseveral : us ≠ []) :
    IsRead (.subscripts (Expr.tuple (e :: es) (es.foldl (fun s e => s.cover e.span) e.span)))
      (ts ++ us) := by
  intro prev next rest n hnext hn
  rw [List.length_append] at hn
  obtain ⟨n, rfl⟩ : ∃ m, n = m + 1 := ⟨n - 1, by omega⟩
  obtain ⟨u, vs, rfl⟩ := List.exists_cons_of_ne_nil hseveral
  have hu : u.kind = .comma := hcomma u rfl
  obtain ⟨last, hrun⟩ := hfirst prev u (vs ++ next :: rest) n
    (TokenKind.not_goesOnUnion (by simp [hu])) (by omega)
  obtain ⟨last', hrun'⟩ := hothers .rbracket (by simp) last next rest n hnext (by omega)
  rw [List.cons_append] at hrun'
  refine ⟨last', ?_⟩
  rw [List.append_assoc, List.cons_append]
  simp [Expr.subscripts, ExprReader.run_at?, Cursor.at?_cons, hrun, hu, hrun']

/-! ### Entries and arguments -/

/-- An entry may be a mapping behind two stars. -/
theorem isRead_spread (ht : t.kind = .doubleStar) (hvalue : IsRead (.read e) ts) :
    IsRead (.dictEntry (Option.none, e)) (t :: ts) := by
  intro prev next rest n hnext hn
  rw [List.length_cons] at hn
  obtain ⟨n, rfl⟩ : ∃ m, n = m + 1 := ⟨n - 1, by omega⟩
  obtain ⟨last, hrun⟩ := hvalue t next rest n
    (TokenKind.not_goesOnUnion (by rcases hnext with h | h <;> simp [h])) (by omega)
  exact ⟨last, run_dictEntry_star ht hrun⟩

/-- An entry may be a key and a value. -/
theorem isRead_pair (hbegins : Begins (.read k) ts) (hkey : IsRead (.read k) ts)
    (hc : c.kind = .colon) (hvalue : IsRead (.read v) us) :
    IsRead (.dictEntry (some k, v)) (ts ++ c :: us) := by
  intro prev next rest n hnext hn
  rw [List.length_append, List.length_cons] at hn
  obtain ⟨n, rfl⟩ : ∃ m, n = m + 1 := ⟨n - 1, by omega⟩
  obtain ⟨last, hrun⟩ := hkey prev c (us ++ next :: rest) n
    (TokenKind.not_goesOnUnion (by simp [hc])) (by omega)
  obtain ⟨last', hrun'⟩ := hvalue c next rest n
    (TokenKind.not_goesOnUnion (by rcases hnext with h | h <;> simp [h])) (by omega)
  obtain ⟨t, ws, rfl, hstart, -⟩ := hbegins
  refine ⟨last', ?_⟩
  rw [List.append_assoc]
  exact run_dictEntry_pair (ne_of_startsExpr hstart rfl) hrun hc hrun'

/-- There may be no entries. -/
theorem isRead_noEntries : IsRead (.dictEntries []) [] := by
  intro prev next rest n hnext hn
  obtain ⟨n, rfl⟩ : ∃ m, n = m + 1 := ⟨n - 1, by omega⟩
  exact ⟨prev, run_dictEntries_nil hnext⟩

variable {entry : Option Expr × Expr} {entries : List (Option Expr × Expr)}

/-- The last entry needs no comma. -/
theorem isRead_lastEntry (hbegins : Begins (.dictEntry entry) ts) (hlast : IsRead (.dictEntry entry) ts) :
    IsRead (.dictEntries [entry]) ts := by
  intro prev next rest n hnext hn
  obtain ⟨n, rfl⟩ : ∃ m, n = m + 1 := ⟨n - 1, by omega⟩
  obtain ⟨last, hrun⟩ := hlast prev next rest n (.inr hnext) (by omega)
  obtain ⟨t, us, rfl, ht⟩ := hbegins
  exact ⟨last, run_dictEntries_last ht hrun (by simp [hnext])⟩

/-- An entry with a comma is followed by the others. -/
theorem isRead_entries (hbegins : Begins (.dictEntry entry) ts) (hfirst : IsRead (.dictEntry entry) ts)
    (hc : c.kind = .comma) (hothers : IsRead (.dictEntries entries) us) :
    IsRead (.dictEntries (entry :: entries)) (ts ++ c :: us) := by
  intro prev next rest n hnext hn
  rw [List.length_append, List.length_cons] at hn
  obtain ⟨n, rfl⟩ : ∃ m, n = m + 1 := ⟨n - 1, by omega⟩
  obtain ⟨last, hrun⟩ := hfirst prev c (us ++ next :: rest) n (.inl hc) (by omega)
  obtain ⟨last', hrun'⟩ := hothers c next rest n hnext (by omega)
  obtain ⟨t, ws, rfl, ht⟩ := hbegins
  refine ⟨last', ?_⟩
  rw [List.append_assoc]
  exact run_dictEntries_cons ht hrun hc hrun'

/-- An argument may be a mapping behind two stars. -/
theorem isRead_keywordSpread (ht : t.kind = .doubleStar) (hvalue : IsRead (.read e) ts) :
    IsRead (.argument (.inr (Option.none, e))) (t :: ts) := by
  intro prev next rest n hnext hn
  rw [List.length_cons] at hn
  obtain ⟨n, rfl⟩ : ∃ m, n = m + 1 := ⟨n - 1, by omega⟩
  obtain ⟨last, hrun⟩ := hvalue t next rest n
    (TokenKind.not_goesOnUnion (by rcases hnext with h | h <;> simp [h])) (by omega)
  exact ⟨last, run_argument_star ht hrun⟩

/-- An argument may be a name with a value. -/
theorem isRead_keyword {q : Token} (ht : t.kind = .name) (hq : q.kind = .equals)
    (hvalue : IsRead (.read e) ts) : IsRead (.argument (.inr (some t.text, e))) (t :: q :: ts) := by
  intro prev next rest n hnext hn
  rw [List.length_cons, List.length_cons] at hn
  obtain ⟨n, rfl⟩ : ∃ m, n = m + 1 := ⟨n - 1, by omega⟩
  obtain ⟨last, hrun⟩ := hvalue q next rest n
    (TokenKind.not_goesOnUnion (by rcases hnext with h | h <;> simp [h])) (by omega)
  exact ⟨last, run_argument_keyword ht hq hrun⟩

/-- An argument may be a sequence behind a star. -/
theorem isRead_positionalSpread (ht : t.kind = .star) (hvalue : IsRead (.read e) ts) :
    IsRead (.argument (.inl e)) (t :: ts) := by
  intro prev next rest n hnext hn
  rw [List.length_cons] at hn
  obtain ⟨n, rfl⟩ : ∃ m, n = m + 1 := ⟨n - 1, by omega⟩
  obtain ⟨last, hrun⟩ := hvalue t next rest n
    (TokenKind.not_goesOnUnion (by rcases hnext with h | h <;> simp [h])) (by omega)
  refine ⟨last, ?_⟩
  simp [Expr.argument, atKeyword, ExprReader.run_eat, Cursor.at?_cons, Cursor.advance_cons, ht, hrun]

/-- An argument may be an expression. -/
theorem isRead_positional (hbegins : Begins (.read e) ts) (hvalue : IsRead (.read e) ts) :
    IsRead (.argument (.inl e)) ts := by
  intro prev next rest n hnext hn
  obtain ⟨n, rfl⟩ : ∃ m, n = m + 1 := ⟨n - 1, by omega⟩
  obtain ⟨last, hrun⟩ := hvalue prev next rest n
    (TokenKind.not_goesOnUnion (by rcases hnext with h | h <;> simp [h])) (by omega)
  obtain ⟨t, us, rfl, hstart, hname⟩ := hbegins
  obtain ⟨u, vs, heq, hu⟩ := exists_next us next rest
  rw [List.cons_append, heq] at hrun ⊢
  refine ⟨last, run_argument_positional (ne_of_startsExpr hstart rfl) (ne_of_startsExpr hstart rfl)
    (fun hkind => ?_) hrun⟩
  rcases hu with hu | rfl
  · exact hname hkind u hu
  · rcases hnext with h | h <;> simp [h]

/-- There may be no arguments. -/
theorem isRead_noArguments : IsRead (.arguments ([], [])) [] := by
  intro prev next rest n hnext hn
  obtain ⟨n, rfl⟩ : ∃ m, n = m + 1 := ⟨n - 1, by omega⟩
  exact ⟨prev, run_arguments_nil hnext⟩

variable {arg : Expr ⊕ (Option String × Expr)} {args : List Expr × List (Option String × Expr)}

/-- The last argument needs no comma. -/
theorem isRead_lastArgument (hbegins : Begins (.argument arg) ts) (hlast : IsRead (.argument arg) ts) :
    IsRead (.arguments (consArgument arg ([], []))) ts := by
  intro prev next rest n hnext hn
  obtain ⟨n, rfl⟩ : ∃ m, n = m + 1 := ⟨n - 1, by omega⟩
  obtain ⟨last, hrun⟩ := hlast prev next rest n (.inr hnext) (by omega)
  obtain ⟨t, us, rfl, ht⟩ := hbegins
  exact ⟨last, run_arguments_last ht hrun (by simp [hnext])⟩

/-- An argument with a comma is followed by the others. -/
theorem isRead_arguments (hbegins : Begins (.argument arg) ts) (hfirst : IsRead (.argument arg) ts)
    (hc : c.kind = .comma) (hothers : IsRead (.arguments args) us) :
    IsRead (.arguments (consArgument arg args)) (ts ++ c :: us) := by
  intro prev next rest n hnext hn
  rw [List.length_append, List.length_cons] at hn
  obtain ⟨n, rfl⟩ : ∃ m, n = m + 1 := ⟨n - 1, by omega⟩
  obtain ⟨last, hrun⟩ := hfirst prev c (us ++ next :: rest) n (.inl hc) (by omega)
  obtain ⟨last', hrun'⟩ := hothers c next rest n hnext (by omega)
  obtain ⟨t, ws, rfl, ht⟩ := hbegins
  refine ⟨last', ?_⟩
  rw [List.append_assoc]
  exact run_arguments_cons ht hrun hc hrun'

end Phrase

open Phrase

/-- The tokens of every phrase are read as the phrase. -/
theorem Parses.isRead {p : Phrase} {ts : List Token} (h : Parses p ts) : p.IsRead ts := by
  induction h with
  | read _ htail ihleft ihtail => exact isRead_read ihleft ihtail htail.begins
  | unionEnd e => exact isRead_unionEnd e
  | unionMore hpipe _ htail ihright ihtail => exact isRead_unionMore hpipe ihright ihtail htail.begins
  | negative hminus hnumber => exact isRead_negative hminus hnumber
  | applied hbase htail ihbase ihtail => exact isRead_applied hbase.begins ihbase ihtail htail.begins
  | trailersEnd e => exact isRead_trailersEnd e
  | attr hdot hfield _ ihtail => exact isRead_attr hdot hfield ihtail
  | subscript hopen _ hclose _ ihindex ihtail => exact isRead_subscript hopen ihindex hclose ihtail
  | call hopen _ hclose _ ihinner ihtail => exact isRead_call hopen ihinner hclose ihtail
  | single hsingle => exact isRead_single hsingle
  | literals hstrings => exact isRead_literals hstrings
  | emptyTuple hopen hclose => exact isRead_emptyTuple hopen hclose
  | group hopen hinner hclose ih => exact isRead_group hopen hinner.begins ih hclose
  | tuple hopen hfirst hothers hseveral hclose ihfirst ihothers =>
    exact isRead_tuple hopen hfirst.begins ihfirst hothers.begins ihothers hseveral hclose
  | list hopen _ hclose ih => exact isRead_list hopen ih hclose
  | dict hopen _ hclose ih => exact isRead_dict hopen ih hclose
  | noElements => exact isRead_noElements
  | elements hfirst hothers ihfirst ihothers =>
    exact isRead_elements hfirst.begins ihfirst hothers.begins ihothers
  | noMore => exact isRead_noMore
  | lastComma hcomma => exact isRead_lastComma hcomma
  | moreElements hcomma hfirst hothers ihfirst ihothers =>
    exact isRead_moreElements hcomma hfirst.begins ihfirst hothers.begins ihothers
  | index _ ih => exact isRead_index ih
  | indices _ hothers hseveral ihfirst ihothers =>
    exact isRead_indices ihfirst hothers.begins ihothers hseveral
  | spread hstar _ ih => exact isRead_spread hstar ih
  | pair hkey hcolon _ ihkey ihvalue => exact isRead_pair hkey.begins ihkey hcolon ihvalue
  | noEntries => exact isRead_noEntries
  | lastEntry hlast ih => exact isRead_lastEntry hlast.begins ih
  | entries hfirst hcomma _ ihfirst ihothers => exact isRead_entries hfirst.begins ihfirst hcomma ihothers
  | keywordSpread hstar _ ih => exact isRead_keywordSpread hstar ih
  | keyword hkey hequals _ ih => exact isRead_keyword hkey hequals ih
  | positionalSpread hstar _ ih => exact isRead_positionalSpread hstar ih
  | positional hvalue ih => exact isRead_positional hvalue.begins ih
  | noArguments => exact isRead_noArguments
  | lastArgument hlast ih => exact isRead_lastArgument hlast.begins ih
  | arguments hfirst hcomma _ ihfirst ihothers =>
    exact isRead_arguments hfirst.begins ihfirst hcomma ihothers

/-- Tokens are one expression only. -/
theorem Parses.unique {e e' : Expr} {ts : List Token} (h : Parses (.read e) ts)
    (h' : Parses (.read e') ts) : e = e' := by
  let stop : Token := ⟨.newline, ⟨0, 0⟩, ""⟩
  have hstop : ¬ stop.kind.GoesOnUnion := TokenKind.not_goesOnUnion (by simp [stop])
  obtain ⟨last, hrun⟩ := h.isRead stop stop [] _ hstop (Nat.le_refl _)
  obtain ⟨last', hrun'⟩ := h'.isRead stop stop [] _ hstop (Nat.le_refl _)
  rw [hrun] at hrun'
  exact (Prod.mk.inj (Option.some.inj hrun')).1

end Expr
end PackageDoc
