import PackageDoc.Proofs.Syntax.Reading

namespace PackageDoc

/-!
# The grammar of expressions, without a reader

Which tokens are which expression, said without a place, a next token or a bound on the depth.

* `Expr.Phrase` — what one reader of the grammar reads, and what it begins with;
* `Expr.Parses` — tokens that are a phrase;
* `ExprReader.Yields` — a reader that passes such tokens and yields what they are;
* `Expr.readersYield` — every reader of the grammar does.
-/

namespace Expr

/-- What a reader of the grammar reads.  Where it goes on with an expression, that comes first. -/
inductive Phrase where
  | read (e : Expr)
  | unionTail (left e : Expr)
  | operand (e : Expr)
  | trailers (base e : Expr)
  | atom (e : Expr)
  | elements (es : List Expr)
  | moreElements (es : List Expr)
  | subscripts (e : Expr)
  | dictEntry (entry : Option Expr × Expr)
  | dictEntries (entries : List (Option Expr × Expr))
  | argument (arg : Expr ⊕ (Option String × Expr))
  | arguments (args : List Expr × List (Option String × Expr))

/-- The expression that a token is on its own. -/
def ofToken? (t : Token) : Option Expr :=
  match t.kind with
  | .name => some (name ⟨t.text, t.span⟩)
  | .keyword .None => some (none t.span)
  | .keyword .True => some (bool true t.span)
  | .keyword .False => some (bool false t.span)
  | .number => some (num t.text t.span)
  | .ellipsis => some (ellipsis t.span)
  | _ => Option.none

/-- The string that adjacent literals are, `t` being the first. -/
def ofLiterals (t : Token) (ts : List Token) : Expr :=
  let r := joinLiterals ⟨"", false, false⟩ t.span t (t :: ts)
  str r.1.value r.1.isBytes r.1.isFormatted r.2.1

/-- Tokens that are a phrase. -/
inductive Parses : Phrase → List Token → Prop
  | read {l e : Expr} {ts us : List Token} (left : Parses (.operand l) ts)
    (tail : Parses (.unionTail l e) us) : Parses (.read e) (ts ++ us)
  | unionEnd (e : Expr) : Parses (.unionTail e e) []
  | unionMore {l r e : Expr} {p : Token} {ts us : List Token} (pipe : p.kind = .pipe)
    (right : Parses (.operand r) ts)
    (tail : Parses (.unionTail (union l r (l.span.cover r.span)) e) us) :
    Parses (.unionTail l e) (p :: (ts ++ us))
  | negative {m t : Token} (minus : m.kind = .minus) (number : t.kind = .number) :
    Parses (.operand (num ("-" ++ t.text) (m.span.cover t.span))) [m, t]
  | applied {b e : Expr} {ts us : List Token} (base : Parses (.atom b) ts)
    (tail : Parses (.trailers b e) us) : Parses (.operand e) (ts ++ us)
  | trailersEnd (e : Expr) : Parses (.trailers e e) []
  | attr {b e : Expr} {d t : Token} {us : List Token} (dot : d.kind = .dot) (field : t.kind = .name)
    (tail : Parses (.trailers (attr b ⟨t.text, t.span⟩ (b.span.cover t.span)) e) us) :
    Parses (.trailers b e) (d :: t :: us)
  | subscript {b i e : Expr} {o c : Token} {ts us : List Token} (opened : o.kind = .lbracket)
    (index : Parses (.subscripts i) ts) (closed : c.kind = .rbracket)
    (tail : Parses (.trailers (subscript b i (b.span.cover c.span)) e) us) :
    Parses (.trailers b e) (o :: (ts ++ c :: us))
  | call {b e : Expr} {args : List Expr × List (Option String × Expr)} {o c : Token}
    {ts us : List Token} (opened : o.kind = .lparen) (inner : Parses (.arguments args) ts)
    (closed : c.kind = .rparen)
    (tail : Parses (.trailers (call b args.1 args.2 (b.span.cover c.span)) e) us) :
    Parses (.trailers b e) (o :: (ts ++ c :: us))
  | single {t : Token} {e : Expr} (is : ofToken? t = some e) : Parses (.atom e) [t]
  | literals {t : Token} {ts : List Token} (strings : ∀ u ∈ t :: ts, u.kind = .string) :
    Parses (.atom (ofLiterals t ts)) (t :: ts)
  | emptyTuple {o c : Token} (opened : o.kind = .lparen) (closed : c.kind = .rparen) :
    Parses (.atom (tuple [] (o.span.cover c.span))) [o, c]
  /-- The expression in parentheses is the one between them, and stands where that does. -/
  | group {e : Expr} {o c : Token} {ts : List Token} (opened : o.kind = .lparen)
    (inner : Parses (.read e) ts) (closed : c.kind = .rparen) : Parses (.atom e) (o :: (ts ++ [c]))
  | tuple {e : Expr} {es : List Expr} {o c : Token} {ts us : List Token} (opened : o.kind = .lparen)
    (first : Parses (.read e) ts) (others : Parses (.moreElements es) us) (several : us ≠ [])
    (closed : c.kind = .rparen) :
    Parses (.atom (tuple (e :: es) (o.span.cover c.span))) (o :: (ts ++ us ++ [c]))
  | list {es : List Expr} {o c : Token} {ts : List Token} (opened : o.kind = .lbracket)
    (inner : Parses (.elements es) ts) (closed : c.kind = .rbracket) :
    Parses (.atom (list es (o.span.cover c.span))) (o :: (ts ++ [c]))
  | dict {entries : List (Option Expr × Expr)} {o c : Token} {ts : List Token}
    (opened : o.kind = .lbrace) (inner : Parses (.dictEntries entries) ts)
    (closed : c.kind = .rbrace) :
    Parses (.atom (dict entries (o.span.cover c.span))) (o :: (ts ++ [c]))
  | noElements : Parses (.elements []) []
  | elements {e : Expr} {es : List Expr} {ts us : List Token} (first : Parses (.read e) ts)
    (others : Parses (.moreElements es) us) : Parses (.elements (e :: es)) (ts ++ us)
  | noMore : Parses (.moreElements []) []
  | lastComma {t : Token} (comma : t.kind = .comma) : Parses (.moreElements []) [t]
  | moreElements {e : Expr} {es : List Expr} {t : Token} {ts us : List Token}
    (comma : t.kind = .comma) (first : Parses (.read e) ts)
    (others : Parses (.moreElements es) us) : Parses (.moreElements (e :: es)) (t :: (ts ++ us))
  | index {e : Expr} {ts : List Token} (inner : Parses (.read e) ts) : Parses (.subscripts e) ts
  | indices {e : Expr} {es : List Expr} {ts us : List Token} (first : Parses (.read e) ts)
    (others : Parses (.moreElements es) us) (several : us ≠ []) :
    Parses (.subscripts (tuple (e :: es) (es.foldl (fun s e => s.cover e.span) e.span))) (ts ++ us)
  | spread {e : Expr} {s : Token} {ts : List Token} (star : s.kind = .doubleStar)
    (value : Parses (.read e) ts) : Parses (.dictEntry (Option.none, e)) (s :: ts)
  | pair {k v : Expr} {c : Token} {ts us : List Token} (key : Parses (.read k) ts)
    (colon : c.kind = .colon) (value : Parses (.read v) us) :
    Parses (.dictEntry (some k, v)) (ts ++ c :: us)
  | noEntries : Parses (.dictEntries []) []
  | lastEntry {entry : Option Expr × Expr} {ts : List Token} (last : Parses (.dictEntry entry) ts) :
    Parses (.dictEntries [entry]) ts
  | entries {entry : Option Expr × Expr} {entries : List (Option Expr × Expr)} {c : Token}
    {ts us : List Token} (first : Parses (.dictEntry entry) ts) (comma : c.kind = .comma)
    (others : Parses (.dictEntries entries) us) :
    Parses (.dictEntries (entry :: entries)) (ts ++ c :: us)
  | keywordSpread {e : Expr} {s : Token} {ts : List Token} (star : s.kind = .doubleStar)
    (value : Parses (.read e) ts) : Parses (.argument (.inr (Option.none, e))) (s :: ts)
  | keyword {e : Expr} {k q : Token} {ts : List Token} (key : k.kind = .name) (equals : q.kind = .equals)
    (value : Parses (.read e) ts) : Parses (.argument (.inr (some k.text, e))) (k :: q :: ts)
  | positionalSpread {e : Expr} {s : Token} {ts : List Token} (star : s.kind = .star)
    (value : Parses (.read e) ts) : Parses (.argument (.inl e)) (s :: ts)
  | positional {e : Expr} {ts : List Token} (value : Parses (.read e) ts) :
    Parses (.argument (.inl e)) ts
  | noArguments : Parses (.arguments ([], [])) []
  | lastArgument {arg : Expr ⊕ (Option String × Expr)} {ts : List Token}
    (last : Parses (.argument arg) ts) : Parses (.arguments (consArgument arg ([], []))) ts
  | arguments {arg : Expr ⊕ (Option String × Expr)} {args : List Expr × List (Option String × Expr)}
    {c : Token} {ts us : List Token} (first : Parses (.argument arg) ts) (comma : c.kind = .comma)
    (others : Parses (.arguments args) us) :
    Parses (.arguments (consArgument arg args)) (ts ++ c :: us)

end Expr

/-! ### Readers -/

namespace Cursor

/-- The end of the text stands ahead. -/
def BeforeEnd (c : Cursor) : Prop :=
  ∃ t ∈ c.rest, t.kind = .eof

theorem BeforeEnd.exists_cons {c : Cursor} (h : c.BeforeEnd) : ∃ prev t ts, c = ⟨prev, t :: ts⟩ := by
  obtain ⟨prev, _ | ⟨t, ts⟩⟩ := c
  · obtain ⟨t, ht, -⟩ := h
    exact absurd ht List.not_mem_nil
  · exact ⟨prev, t, ts, rfl⟩

/-- Going on behind a token that is not the end stays in front of the end. -/
theorem BeforeEnd.advance {c : Cursor} (h : c.BeforeEnd) (hkind : c.kind ≠ .eof) :
    c.advance.BeforeEnd ∧ c.rest = c.peek :: c.advance.rest := by
  obtain ⟨prev, t, ts, rfl⟩ := h.exists_cons
  obtain ⟨u, hu, heof⟩ := h
  rcases List.mem_cons.mp hu with rfl | hu
  · exact absurd heof hkind
  · exact ⟨⟨u, hu, heof⟩, rfl⟩

end Cursor

namespace ExprReader

variable {α β : Type} {c : Cursor} {kind : TokenKind}

/-- In front of the end of the text the reader passes only tokens that are, with what it yields, in
    the relation `P`. -/
def Yields (m : ExprReader α) (P : α → List Token → Prop) (c : Cursor) : Prop :=
  ∀ a c', m.run c = some (a, c') → c.BeforeEnd →
    c'.BeforeEnd ∧ ∃ ts, c.rest = ts ++ c'.rest ∧ P a ts

namespace Yields

variable {P : α → List Token → Prop} {Q : β → List Token → Prop}

theorem pure {a : α} (h : P a []) : Yields (pure a) P c := by
  intro b c' hrun hc
  obtain ⟨rfl, rfl⟩ := Prod.mk.inj (Option.some.inj hrun)
  exact ⟨hc, [], rfl, h⟩

theorem failure : Yields (failure : ExprReader α) P c :=
  fun _ _ hrun => nomatch hrun

/-- What is yielded may be said more weakly. -/
theorem mono {P' : α → List Token → Prop} {m : ExprReader α} (h : Yields m P c)
    (himp : ∀ a ts, P a ts → P' a ts) : Yields m P' c := by
  intro a c' hrun hc
  obtain ⟨hc', ts, hrest, hp⟩ := h a c' hrun hc
  exact ⟨hc', ts, hrest, himp a ts hp⟩

/-- One reader after another. -/
theorem bind {m : ExprReader α} {f : α → ExprReader β} (hm : Yields m P c)
    (hf : ∀ a ts c', P a ts → Yields (f a) (fun b us => Q b (ts ++ us)) c') : Yields (m >>= f) Q c := by
  intro b c'' hrun hc
  rw [StateT.run_bind] at hrun
  obtain ⟨⟨a, c'⟩, hfirst, hrest⟩ := Option.bind_eq_some_iff.mp hrun
  obtain ⟨hc', ts, hts, hp⟩ := hm a c' hfirst hc
  obtain ⟨hc'', us, hus, hq⟩ := hf a ts c' hp b c'' hrest hc'
  exact ⟨hc'', ts ++ us, by rw [hts, hus, List.append_assoc], hq⟩

theorem ite {p : Prop} [Decidable p] {m m' : ExprReader α} (hm : p → Yields m P c)
    (hm' : ¬p → Yields m' P c) : Yields (if p then m else m') P c := by
  split
  · exact hm ‹_›
  · exact hm' ‹_›

/-- Looking at the next token takes none. -/
theorem peek_bind {f : Token → ExprReader β} (h : Yields (f c.peek) Q c) : Yields (peek >>= f) Q c := h

/-- Nor does looking at the place. -/
theorem get_bind {f : Cursor → ExprReader β} (h : Yields (f c) Q c) : Yields (get >>= f) Q c := h

/-- Nor does asking for the kind of the next token. -/
theorem at_bind {f : Bool → ExprReader β} (h : Yields (f (c.at? kind)) Q c) :
    Yields (at? kind >>= f) Q c := h

/-- Nor does asking for the name of a keyword argument. -/
theorem atKeyword_bind {f : Bool → ExprReader β}
    (h : Yields (f (c.at? .name && c.kindAfter == .equals)) Q c) :
    Yields (Expr.atKeyword >>= f) Q c := h

/-- The next token is passed. -/
theorem advance_bind {f : Token → ExprReader β} (hkind : c.kind ≠ .eof)
    (h : Yields (f c.peek) (fun b us => Q b (c.peek :: us)) c.advance) :
    Yields (advance >>= f) Q c := by
  intro b c'' hrun hc
  obtain ⟨hc', hrest⟩ := hc.advance hkind
  obtain ⟨hc'', us, hus, hq⟩ := h b c'' hrun hc'
  exact ⟨hc'', c.peek :: us, by rw [hrest, hus, List.cons_append], hq⟩

/-- A token that is eaten stands in front of what is read behind it. -/
theorem eat_bind {f : Bool → ExprReader β} (hkind : kind ≠ .eof)
    (hyes : c.kind = kind → Yields (f true) (fun b us => Q b (c.peek :: us)) c.advance)
    (hno : c.kind ≠ kind → Yields (f false) Q c) : Yields (eat kind >>= f) Q c := by
  intro b c'' hrun hc
  rw [StateT.run_bind, run_eat] at hrun
  cases hat : c.at? kind with
  | true =>
    have hc' : c.kind = kind := eq_of_beq hat
    rw [hat] at hrun
    exact advance_bind (f := fun _ => f true) (hc' ▸ hkind) (hyes hc') b c'' hrun hc
  | false =>
    rw [hat] at hrun
    exact hno (fun hc' => by simp [Cursor.at?, hc'] at hat) b c'' hrun hc

/-- So does a token that is demanded. -/
theorem expect_bind {f : Token → ExprReader β} (hkind : kind ≠ .eof)
    (h : c.kind = kind → Yields (f c.peek) (fun b us => Q b (c.peek :: us)) c.advance) :
    Yields (expect kind >>= f) Q c := by
  intro b c'' hrun hc
  rw [StateT.run_bind, run_expect] at hrun
  split at hrun
  · rename_i hat
    have hc' : c.kind = kind := eq_of_beq hat
    exact advance_bind (hc' ▸ hkind) (h hc') b c'' hrun hc
  · cases hrun

/-- So does a name. -/
theorem ident_bind {f : Ident → ExprReader β}
    (h : c.kind = .name →
      Yields (f ⟨c.peek.text, c.peek.span⟩) (fun b us => Q b (c.peek :: us)) c.advance) :
    Yields (ident >>= f) Q c := by
  intro b c'' hrun hc
  rw [StateT.run_bind, run_ident] at hrun
  split at hrun
  · rename_i hat
    have hc' : c.kind = .name := eq_of_beq hat
    exact advance_bind (f := fun t => f ⟨t.text, t.span⟩) (by simp [hc']) (h hc') b c'' hrun hc
  · cases hrun

end Yields
end ExprReader

/-! ### The readers of the grammar -/

namespace Expr

open ExprReader

/-- The literals that are joined are passed. -/
theorem joinLiterals_spec (value : StringValue) (span : Span) (prev last : Token) (ts : List Token) :
    ∃ us, ts = us ++ (joinLiterals value span prev ts).2.2.rest ∧ (∀ t ∈ us, t.kind = .string) ∧
      (joinLiterals value span prev ts).1 = (joinLiterals value span last us).1 ∧
      (joinLiterals value span prev ts).2.1 = (joinLiterals value span last us).2.1 := by
  induction ts generalizing value span prev last with
  | nil => exact ⟨[], rfl, by simp, rfl, rfl⟩
  | cons t ts ih =>
    rw [joinLiterals]
    split
    · rename_i ht
      obtain ⟨us, hrest, hstrings, hvalue, hspan⟩ := ih _ _ t t
      refine ⟨t :: us, by rw [List.cons_append, ← hrest], List.forall_mem_cons.mpr ⟨ht, hstrings⟩, ?_⟩
      rw [joinLiterals, if_pos ht]
      exact ⟨hvalue, hspan⟩
    · exact ⟨[], rfl, by simp, rfl, rfl⟩

/-- One more string literal is joined to those before it. -/
theorem joinLiterals_string {t : Token} (ht : t.kind = .string) (prev : Token) (ts : List Token) :
    joinLiterals ⟨"", false, false⟩ t.span prev (t :: ts) =
      joinLiterals ⟨"" ++ (decodeLiteral t.text).value, false || (decodeLiteral t.text).isBytes,
        false || (decodeLiteral t.text).isFormatted⟩ (t.span.cover t.span) t ts := by
  rw [joinLiterals, if_pos ht]

/-- Adjacent string literals are read to the last of them. -/
theorem run_literals {prev t : Token} {ts : List Token} (ht : t.kind = .string) :
    ∃ us c', literals.run ⟨prev, t :: ts⟩ = some (ofLiterals t us, c') ∧ ts = us ++ c'.rest ∧
      ∀ u ∈ t :: us, u.kind = .string := by
  obtain ⟨us, hts, hstrings, hvalue, hspan⟩ := joinLiterals_spec
    ⟨"" ++ (decodeLiteral t.text).value, false || (decodeLiteral t.text).isBytes,
      false || (decodeLiteral t.text).isFormatted⟩ (t.span.cover t.span) t t ts
  rw [← joinLiterals_string ht prev] at hts hvalue hspan
  rw [← joinLiterals_string ht t us] at hvalue hspan
  refine ⟨us, _, ?_, hts, List.forall_mem_cons.mpr ⟨ht, hstrings⟩⟩
  rw [ofLiterals, ← hvalue, ← hspan]
  rfl

/-- They are read as one atom. -/
theorem yields_literals {c : Cursor} (hkind : c.kind = .string) :
    Yields literals (fun e ts => Parses (.atom e) ts) c := by
  intro e c' hrun hc
  obtain ⟨prev, t, ts, rfl⟩ := hc.exists_cons
  have ht : t.kind = .string := hkind
  obtain ⟨us, c₁, heq, hts, hstrings⟩ := @run_literals prev t ts ht
  rw [heq] at hrun
  obtain ⟨rfl, rfl⟩ := Prod.mk.inj (Option.some.inj hrun)
  have hrest : t :: ts = (t :: us) ++ c₁.rest := by rw [List.cons_append, ← hts]
  refine ⟨?_, t :: us, hrest, .literals hstrings⟩
  obtain ⟨u, hu, heof⟩ := hc
  refine ⟨u, (List.mem_append.mp (hrest ▸ hu)).resolve_left fun hmem => ?_, heof⟩
  rw [hstrings u hmem] at heof
  cases heof

/-- Within `n` levels every reader of the grammar passes tokens that are what it yields. -/
structure ReadersYield (n : Nat) : Prop where
  read : ∀ c, Yields (read n) (fun e ts => Parses (.read e) ts) c
  unionTail : ∀ left c, Yields (unionTail n left) (fun e ts => Parses (.unionTail left e) ts) c
  operand : ∀ c, Yields (operand n) (fun e ts => Parses (.operand e) ts) c
  trailers : ∀ base c, Yields (trailers n base) (fun e ts => Parses (.trailers base e) ts) c
  atom : ∀ c, Yields (atom n) (fun e ts => Parses (.atom e) ts) c
  parenthesized : ∀ openParen c, openParen.kind = .lparen →
    Yields (parenthesized n openParen) (fun e ts => Parses (.atom e) (openParen :: ts)) c
  elements : ∀ close c, Yields (elements n close) (fun es ts => Parses (.elements es) ts) c
  moreElements : ∀ close c, Yields (moreElements n close) (fun es ts => Parses (.moreElements es) ts ∧
    (c.kind = .comma → ts ≠ [])) c
  subscripts : ∀ c, Yields (subscripts n) (fun e ts => Parses (.subscripts e) ts) c
  dictEntry : ∀ c, Yields (dictEntry n) (fun entry ts => Parses (.dictEntry entry) ts) c
  dictEntries : ∀ c, Yields (dictEntries n) (fun entries ts => Parses (.dictEntries entries) ts) c
  argument : ∀ c, Yields (argument n) (fun arg ts => Parses (.argument arg) ts) c
  arguments : ∀ c, Yields (arguments n) (fun args ts => Parses (.arguments args) ts) c

namespace ReadersYield

open Yields

variable {n : Nat} {c : Cursor}

theorem zero : ReadersYield 0 := by
  constructor <;> intros <;> exact failure

/-- With one level more, an expression is read from tokens that it parses. -/
theorem succ_read (ih : ReadersYield n) :
    Yields (Expr.read (n + 1)) (fun e ts => Parses (.read e) ts) c :=
  bind (ih.operand c) fun l _ c hl => (ih.unionTail l c).mono fun _ _ htail => .read hl htail

/-- So is what follows the operand of a union. -/
theorem succ_unionTail (ih : ReadersYield n) (left : Expr) :
    Yields (Expr.unionTail (n + 1) left) (fun e ts => Parses (.unionTail left e) ts) c := by
  refine eat_bind (by simp) (fun hpipe => ?_) fun _ => pure (.unionEnd left)
  exact bind (ih.operand _) fun r _ c hr => (ih.unionTail _ c).mono fun _ _ htail =>
    .unionMore hpipe hr htail

/-- So is an operand. -/
theorem succ_operand (ih : ReadersYield n) :
    Yields (Expr.operand (n + 1)) (fun e ts => Parses (.operand e) ts) c := by
  refine get_bind (ite (fun h => ?_) fun _ => ?_)
  · obtain ⟨hminus, hnumber⟩ := Bool.and_eq_true_iff.mp h
    have hminus : c.kind = .minus := eq_of_beq hminus
    have hnumber : c.advance.kind = .number := eq_of_beq hnumber
    exact advance_bind (by rw [hminus]; simp) (advance_bind (by rw [hnumber]; simp)
      (pure (.negative hminus hnumber)))
  · exact bind (ih.atom c) fun b _ c hb => (ih.trailers b c).mono fun _ _ htail => .applied hb htail

/-- So is what is applied to a base. -/
theorem succ_trailers (ih : ReadersYield n) (base : Expr) :
    Yields (Expr.trailers (n + 1) base) (fun e ts => Parses (.trailers base e) ts) c := by
  refine peek_bind ?_
  split
  · rename_i hdot
    refine advance_bind (by rw [Cursor.kind, hdot]; simp) (ident_bind fun hfield => ?_)
    exact (ih.trailers _ _).mono fun _ _ htail => .attr hdot hfield htail
  · rename_i hopen
    refine advance_bind (by rw [Cursor.kind, hopen]; simp) (bind (ih.subscripts _) ?_)
    refine fun i _ c hi => expect_bind (by simp) fun hclose => ?_
    exact (ih.trailers _ _).mono fun _ _ htail => .subscript hopen hi hclose htail
  · rename_i hopen
    refine advance_bind (by rw [Cursor.kind, hopen]; simp) (bind (ih.arguments _) ?_)
    refine fun args _ c hargs => expect_bind (by simp) fun hclose => ?_
    exact (ih.trailers _ _).mono fun _ _ htail => .call hopen hargs hclose htail
  · exact pure (.trailersEnd base)

/-- So is an atom. -/
theorem succ_atom (ih : ReadersYield n) :
    Yields (Expr.atom (n + 1)) (fun e ts => Parses (.atom e) ts) c := by
  refine peek_bind ?_
  -- one token, then literals, and brackets of the three shapes
  split <;> try
    · rename_i hkind
      exact advance_bind (by rw [Cursor.kind, hkind]; simp)
        (pure (.single (by simp [ofToken?, hkind])))
  · exact yields_literals ‹_›
  · rename_i hopen
    exact advance_bind (by rw [Cursor.kind, hopen]; simp) (ih.parenthesized _ _ hopen)
  · rename_i hopen
    refine advance_bind (by rw [Cursor.kind, hopen]; simp) (bind (ih.elements _ _) ?_)
    exact fun es _ c hes => expect_bind (by simp) fun hclose => pure (.list hopen hes hclose)
  · rename_i hopen
    refine advance_bind (by rw [Cursor.kind, hopen]; simp) (bind (ih.dictEntries _) ?_)
    exact fun entries _ c hentries => expect_bind (by simp) fun hclose =>
      pure (.dict hopen hentries hclose)
  · exact failure

/-- So is what stands in parentheses. -/
theorem succ_parenthesized (ih : ReadersYield n) {openParen : Token} (hopen : openParen.kind = .lparen) :
    Yields (Expr.parenthesized (n + 1) openParen)
      (fun e ts => Parses (.atom e) (openParen :: ts)) c := by
  refine at_bind (ite (fun h => ?_) fun _ => ?_)
  · have hclose : c.kind = .rparen := eq_of_beq h
    exact advance_bind (by rw [hclose]; simp) (pure (.emptyTuple hopen hclose))
  · refine bind (ih.read _) fun first ts c hfirst => at_bind (ite (fun h => ?_) fun _ => ?_)
    · have hcomma : c.kind = .comma := eq_of_beq h
      refine bind (ih.moreElements _ c) fun others us c hothers => expect_bind (by simp) fun hclose => ?_
      refine pure ?_
      have htuple := Parses.tuple hopen hfirst hothers.1 (hothers.2 hcomma) hclose
      rwa [List.append_assoc] at htuple
    · exact expect_bind (by simp) fun hclose => pure (.group hopen hfirst hclose)

/-- So are the elements of a display. -/
theorem succ_elements (ih : ReadersYield n) (close : TokenKind) :
    Yields (Expr.elements (n + 1) close) (fun es ts => Parses (.elements es) ts) c := by
  refine at_bind (ite (fun _ => pure .noElements) fun _ => ?_)
  refine bind (ih.read c) fun first ts c hfirst => bind (ih.moreElements close c) ?_
  intro others us c hothers
  refine pure ?_
  rw [List.append_nil]
  exact .elements hfirst hothers.1

/-- So are the elements behind a comma, which is taken if there is one. -/
theorem succ_moreElements (ih : ReadersYield n) (close : TokenKind) :
    Yields (Expr.moreElements (n + 1) close)
      (fun es ts => Parses (.moreElements es) ts ∧ (c.kind = .comma → ts ≠ [])) c := by
  refine eat_bind (by simp) (fun hcomma => ?_) fun hno => pure ⟨.noMore, fun hcomma => absurd hcomma hno⟩
  refine at_bind (ite (fun _ => pure ⟨.lastComma hcomma, by simp⟩) fun _ => ?_)
  refine bind (ih.read _) fun first ts c hfirst => bind (ih.moreElements close c) ?_
  intro others us c hothers
  refine pure ⟨?_, by simp⟩
  rw [List.append_nil]
  exact .moreElements hcomma hfirst hothers.1

/-- So is what stands in the brackets of a subscript. -/
theorem succ_subscripts (ih : ReadersYield n) :
    Yields (Expr.subscripts (n + 1)) (fun e ts => Parses (.subscripts e) ts) c := by
  refine bind (ih.read c) fun first ts c hfirst => at_bind (ite (fun h => ?_) fun _ => ?_)
  · have hcomma : c.kind = .comma := eq_of_beq h
    refine bind (ih.moreElements _ c) fun others us c hothers => pure ?_
    rw [List.append_nil]
    exact .indices hfirst hothers.1 (hothers.2 hcomma)
  · refine pure ?_
    rw [List.append_nil]
    exact .index hfirst

/-- So is an entry of a dictionary. -/
theorem succ_dictEntry (ih : ReadersYield n) :
    Yields (Expr.dictEntry (n + 1)) (fun entry ts => Parses (.dictEntry entry) ts) c := by
  refine eat_bind (by simp) (fun hstar => ?_) fun _ => ?_
  · refine bind (ih.read _) fun value ts c hvalue => pure ?_
    rw [List.append_nil]
    exact .spread hstar hvalue
  · refine bind (ih.read _) fun key ts c hkey => expect_bind (by simp) fun hcolon => ?_
    refine bind (ih.read _) fun value us c hvalue => pure ?_
    rw [List.append_nil]
    exact .pair hkey hcolon hvalue

/-- So are several of them. -/
theorem succ_dictEntries (ih : ReadersYield n) :
    Yields (Expr.dictEntries (n + 1)) (fun entries ts => Parses (.dictEntries entries) ts) c := by
  refine at_bind (ite (fun _ => pure .noEntries) fun _ => bind (ih.dictEntry c) ?_)
  refine fun entry ts c hentry => eat_bind (by simp) (fun hcomma => ?_) fun _ => ?_
  · refine bind (ih.dictEntries _) fun others us c hothers => pure ?_
    rw [List.append_nil]
    exact .entries hentry hcomma hothers
  · refine pure ?_
    rw [List.append_nil]
    exact .lastEntry hentry

/-- So is an argument of a call. -/
theorem succ_argument (ih : ReadersYield n) :
    Yields (Expr.argument (n + 1)) (fun arg ts => Parses (.argument arg) ts) c := by
  refine eat_bind (by simp) (fun hstar => ?_) fun _ => ?_
  · refine bind (ih.read _) fun value ts c hvalue => pure ?_
    rw [List.append_nil]
    exact .keywordSpread hstar hvalue
  -- a name begins a keyword argument only with `=` behind it
  · refine atKeyword_bind (ite (fun h => ?_) fun _ => ?_)
    · have hequals : c.advance.kind = .equals := eq_of_beq (Bool.and_eq_true_iff.mp h).2
      refine ident_bind fun hkey => advance_bind (by rw [hequals]; simp) ?_
      refine bind (ih.read _) fun value ts c' hvalue => pure ?_
      rw [List.append_nil]
      exact .keyword hkey hequals hvalue
    · refine eat_bind (by simp) (fun hstar => ?_) fun _ => ?_
      · refine bind (ih.read _) fun value ts c hvalue => pure ?_
        rw [List.append_nil]
        exact .positionalSpread hstar hvalue
      · refine bind (ih.read _) fun value ts c hvalue => pure ?_
        rw [List.append_nil]
        exact .positional hvalue

/-- So are several of them. -/
theorem succ_arguments (ih : ReadersYield n) :
    Yields (Expr.arguments (n + 1)) (fun args ts => Parses (.arguments args) ts) c := by
  refine at_bind (ite (fun _ => pure .noArguments) fun _ => bind (ih.argument c) ?_)
  refine fun first ts c hfirst => eat_bind (by simp) (fun hcomma => ?_) fun _ => ?_
  · refine bind (ih.arguments _) fun others us c hothers => pure ?_
    rw [List.append_nil]
    exact .arguments hfirst hcomma hothers
  · refine pure ?_
    rw [List.append_nil]
    exact .lastArgument hfirst

end ReadersYield

/-- Every reader of the grammar passes tokens that are what it yields. -/
theorem readersYield (n : Nat) : ReadersYield n := by
  induction n with
  | zero => exact .zero
  | succ n ih =>
    exact {
      read := fun _ => ih.succ_read
      unionTail := fun left _ => ih.succ_unionTail left
      operand := fun _ => ih.succ_operand
      trailers := fun base _ => ih.succ_trailers base
      atom := fun _ => ih.succ_atom
      parenthesized := fun _ _ => ih.succ_parenthesized
      elements := fun close _ => ih.succ_elements close
      moreElements := fun close _ => ih.succ_moreElements close
      subscripts := fun _ => ih.succ_subscripts
      dictEntry := fun _ => ih.succ_dictEntry
      dictEntries := fun _ => ih.succ_dictEntries
      argument := fun _ => ih.succ_argument
      arguments := fun _ => ih.succ_arguments }

end Expr
end PackageDoc
