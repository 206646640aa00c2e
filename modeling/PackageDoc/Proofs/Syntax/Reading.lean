import PackageDoc.Proofs.Syntax.Spelling
import PackageDoc.Syntax.ExprGrammar

namespace PackageDoc

/-!
# Steps of reading an expression

What each reader does where the next tokens are known.

* `ExprReader.run_eat` and the like — the readers of tokens;
* `Expr.run_trailers_dot` and the like — one lemma for each way in which the grammar goes on;
* `decodeLiteral_ofText` — decoding a printed string gives its text.
-/

/-! ### String literals -/

/-- Decoding a printed string gives its text. -/
theorem decodeLiteral_ofText (value : String) :
    decodeLiteral (String.ofList (Lexeme.ofText value).text) = ⟨value, false, false⟩ :=
  decodeLiteral_quoted Lexeme.doubleQuotes value

/-! ### Tokens -/

namespace Cursor

variable (prev t : Token) (ts : List Token)

theorem peek_cons : (⟨prev, t :: ts⟩ : Cursor).peek = t := rfl

theorem kind_cons : (⟨prev, t :: ts⟩ : Cursor).kind = t.kind := rfl

theorem at?_cons (kind : TokenKind) : (⟨prev, t :: ts⟩ : Cursor).at? kind = (t.kind == kind) := rfl

theorem advance_cons : (⟨prev, t :: ts⟩ : Cursor).advance = ⟨t, ts⟩ := rfl

end Cursor

namespace ExprReader

variable {c : Cursor} {kind : TokenKind}

theorem run_peek : peek.run c = some (c.peek, c) := rfl

theorem run_at? : (at? kind).run c = some (c.at? kind, c) := rfl

theorem run_advance : advance.run c = some (c.peek, c.advance) := rfl

theorem run_eat : (eat kind).run c = some (c.at? kind, if c.at? kind then c.advance else c) := by
  simp only [eat, StateT.run_bind, run_at?, Option.bind_eq_bind, Option.bind_some]
  cases c.at? kind <;> rfl

theorem run_expect : (expect kind).run c = if c.at? kind then some (c.peek, c.advance) else none := by
  simp only [expect, StateT.run_bind, run_at?, Option.bind_eq_bind, Option.bind_some]
  split <;> rfl

theorem run_ident : ident.run c =
    if c.at? .name then some (⟨c.peek.text, c.peek.span⟩, c.advance) else none := by
  simp only [ident, StateT.run_bind, run_expect]
  split <;> rfl

end ExprReader

/-! ### The grammar -/

namespace Expr

open ExprReader Cursor

variable {n : Nat} {prev last last' t u v : Token} {ts us vs : List Token} {c : Cursor}
variable {e e' : Expr} {es : List Expr}

attribute [local simp] read unionTail operand trailers atom parenthesized elements moreElements
  subscripts dictEntry dictEntries argument arguments

/-- An expression is read as an operand and the tail of a union. -/
theorem run_read (h : (operand n).run c = some (e, ⟨last, us⟩)) :
    (read (n + 1)).run c = (unionTail n e).run ⟨last, us⟩ := by
  simp [h]

/-- Behind a bar an operand and a further tail are read. -/
theorem run_unionTail_pipe (ht : t.kind = .pipe)
    (h : (operand n).run ⟨t, ts⟩ = some (e', ⟨last, us⟩)) :
    (unionTail (n + 1) e).run ⟨prev, t :: ts⟩ =
      (unionTail n (union e e' (e.span.cover e'.span))).run ⟨last, us⟩ := by
  simp [run_eat, at?_cons, advance_cons, ht, h]

/-- Without a bar the union ends. -/
theorem run_unionTail_stop (ht : t.kind ≠ .pipe) :
    (unionTail (n + 1) e).run ⟨prev, t :: ts⟩ = some (e, ⟨prev, t :: ts⟩) := by
  simp [run_eat, at?_cons, ht]

/-- A number behind a minus is read as a negative one. -/
theorem run_operand_minus (ht : t.kind = .minus) (hu : u.kind = .number) :
    (operand (n + 1)).run ⟨prev, t :: u :: us⟩ =
      some (num ("-" ++ u.text) (t.span.cover u.span), ⟨u, us⟩) := by
  simp [run_advance, at?_cons, advance_cons, peek_cons, kindAfter, kind_cons, ht, hu]

/-- Without a minus an atom and its trailers are read. -/
theorem run_operand_atom (ht : t.kind ≠ .minus)
    (h : (atom n).run ⟨prev, t :: ts⟩ = some (e, ⟨last, us⟩)) :
    (operand (n + 1)).run ⟨prev, t :: ts⟩ = (trailers n e).run ⟨last, us⟩ := by
  simp [at?_cons, ht, h]

/-- Behind a dot a name is read. -/
theorem run_trailers_dot (ht : t.kind = .dot) (hu : u.kind = .name) :
    (trailers (n + 1) e).run ⟨prev, t :: u :: us⟩ =
      (trailers n (attr e ⟨u.text, u.span⟩ (e.span.cover u.span))).run ⟨u, us⟩ := by
  simp [run_peek, run_advance, run_ident, at?_cons, peek_cons, advance_cons, ht, hu]

/-- Behind a bracket a subscript is read. -/
theorem run_trailers_bracket (ht : t.kind = .lbracket)
    (h : (subscripts n).run ⟨t, ts⟩ = some (e', ⟨last, u :: us⟩)) (hu : u.kind = .rbracket) :
    (trailers (n + 1) e).run ⟨prev, t :: ts⟩ =
      (trailers n (subscript e e' (e.span.cover u.span))).run ⟨u, us⟩ := by
  simp [run_peek, run_advance, run_expect, at?_cons, peek_cons, advance_cons, ht, hu, h]

/-- Behind a parenthesis arguments are read. -/
theorem run_trailers_paren {args : List Expr × List (Option String × Expr)} (ht : t.kind = .lparen)
    (h : (arguments n).run ⟨t, ts⟩ = some (args, ⟨last, u :: us⟩)) (hu : u.kind = .rparen) :
    (trailers (n + 1) e).run ⟨prev, t :: ts⟩ =
      (trailers n (call e args.1 args.2 (e.span.cover u.span))).run ⟨u, us⟩ := by
  simp [run_peek, run_advance, run_expect, at?_cons, peek_cons, advance_cons, ht, hu, h]

/-- Anything else is no trailer. -/
theorem run_trailers_stop (ht : t.kind ∉ [.dot, .lbracket, .lparen]) :
    (trailers (n + 1) e).run ⟨prev, t :: ts⟩ = some (e, ⟨prev, t :: ts⟩) := by
  simp only [List.mem_cons, List.not_mem_nil, or_false, not_or] at ht
  simp [run_peek, peek_cons, ht]

/-! ### Atoms -/

/-- A name is read as an atom. -/
theorem run_atom_name (ht : t.kind = .name) :
    (atom (n + 1)).run ⟨prev, t :: ts⟩ = some (name ⟨t.text, t.span⟩, ⟨t, ts⟩) := by
  simp [run_peek, run_advance, peek_cons, advance_cons, ht]

/-- So is `None`. -/
theorem run_atom_none (ht : t.kind = .keyword .None) :
    (atom (n + 1)).run ⟨prev, t :: ts⟩ = some (none t.span, ⟨t, ts⟩) := by
  simp [run_peek, run_advance, peek_cons, advance_cons, ht]

/-- So is `True`. -/
theorem run_atom_true (ht : t.kind = .keyword .True) :
    (atom (n + 1)).run ⟨prev, t :: ts⟩ = some (bool true t.span, ⟨t, ts⟩) := by
  simp [run_peek, run_advance, peek_cons, advance_cons, ht]

/-- So is `False`. -/
theorem run_atom_false (ht : t.kind = .keyword .False) :
    (atom (n + 1)).run ⟨prev, t :: ts⟩ = some (bool false t.span, ⟨t, ts⟩) := by
  simp [run_peek, run_advance, peek_cons, advance_cons, ht]

/-- So is a number. -/
theorem run_atom_number (ht : t.kind = .number) :
    (atom (n + 1)).run ⟨prev, t :: ts⟩ = some (num t.text t.span, ⟨t, ts⟩) := by
  simp [run_peek, run_advance, peek_cons, advance_cons, ht]

/-- So is an ellipsis. -/
theorem run_atom_ellipsis (ht : t.kind = .ellipsis) :
    (atom (n + 1)).run ⟨prev, t :: ts⟩ = some (ellipsis t.span, ⟨t, ts⟩) := by
  simp [run_peek, run_advance, peek_cons, advance_cons, ht]

/-- One string literal, with no other behind it. -/
theorem run_atom_string {value : String} (ht : t.kind = .string)
    (htext : decodeLiteral t.text = ⟨value, false, false⟩) (hu : u.kind ≠ .string) :
    (atom (n + 1)).run ⟨prev, t :: u :: us⟩ =
      some (str value false false (t.span.cover t.span), ⟨t, u :: us⟩) := by
  have hjoin : joinLiterals ⟨"", false, false⟩ t.span prev (t :: u :: us) =
      (⟨value, false, false⟩, t.span.cover t.span, ⟨t, u :: us⟩) := by
    rw [joinLiterals, if_pos ht, htext, joinLiterals, if_neg hu]
    simp
  simp [literals, run_peek, peek_cons, ht, hjoin]

/-- What stands in parentheses is read as an atom. -/
theorem run_atom_paren (ht : t.kind = .lparen) :
    (atom (n + 1)).run ⟨prev, t :: ts⟩ = (parenthesized n t).run ⟨t, ts⟩ := by
  simp [run_peek, run_advance, peek_cons, advance_cons, ht]

/-- So are elements in brackets. -/
theorem run_atom_list (ht : t.kind = .lbracket)
    (h : (elements n .rbracket).run ⟨t, ts⟩ = some (es, ⟨last, u :: us⟩))
    (hu : u.kind = .rbracket) :
    (atom (n + 1)).run ⟨prev, t :: ts⟩ = some (list es (t.span.cover u.span), ⟨u, us⟩) := by
  simp [run_peek, run_advance, run_expect, at?_cons, peek_cons, advance_cons, ht, h, hu]

/-- So are entries in braces. -/
theorem run_atom_dict {entries : List (Option Expr × Expr)} (ht : t.kind = .lbrace)
    (h : (dictEntries n).run ⟨t, ts⟩ = some (entries, ⟨last, u :: us⟩)) (hu : u.kind = .rbrace) :
    (atom (n + 1)).run ⟨prev, t :: ts⟩ = some (dict entries (t.span.cover u.span), ⟨u, us⟩) := by
  simp [run_peek, run_advance, run_expect, at?_cons, peek_cons, advance_cons, ht, h, hu]

/-- Empty parentheses are an empty tuple. -/
theorem run_parenthesized_empty {o : Token} (ht : t.kind = .rparen) :
    (parenthesized (n + 1) o).run ⟨prev, t :: ts⟩ =
      some (tuple [] (o.span.cover t.span), ⟨t, ts⟩) := by
  simp [run_at?, run_advance, at?_cons, peek_cons, advance_cons, ht]

/-- One expression in parentheses is that expression. -/
theorem run_parenthesized_one {o : Token} (ht : t.kind ≠ .rparen)
    (h : (read n).run ⟨prev, t :: ts⟩ = some (e, ⟨last, u :: us⟩)) (hu : u.kind = .rparen) :
    (parenthesized (n + 1) o).run ⟨prev, t :: ts⟩ = some (e, ⟨u, us⟩) := by
  simp [run_at?, run_expect, at?_cons, peek_cons, advance_cons, ht, h, hu]

/-- An expression with a comma behind it begins a tuple. -/
theorem run_parenthesized_tuple {o : Token} (ht : t.kind ≠ .rparen)
    (h : (read n).run ⟨prev, t :: ts⟩ = some (e, ⟨last, u :: us⟩)) (hu : u.kind = .comma)
    (hmore : (moreElements n .rparen).run ⟨last, u :: us⟩ = some (es, ⟨last', v :: vs⟩))
    (hv : v.kind = .rparen) :
    (parenthesized (n + 1) o).run ⟨prev, t :: ts⟩ =
      some (tuple (e :: es) (o.span.cover v.span), ⟨v, vs⟩) := by
  simp [run_at?, run_expect, at?_cons, peek_cons, advance_cons, ht, h, hu, hmore, hv]

/-! ### Lists of expressions -/

/-- A display may be closed at once. -/
theorem run_elements_nil {close : TokenKind} (ht : t.kind = close) :
    (elements (n + 1) close).run ⟨prev, t :: ts⟩ = some ([], ⟨prev, t :: ts⟩) := by
  simp [run_at?, at?_cons, ht]

/-- Otherwise its first element is read, and those behind it. -/
theorem run_elements_cons {close : TokenKind} (ht : t.kind ≠ close)
    (h : (read n).run ⟨prev, t :: ts⟩ = some (e, ⟨last, us⟩))
    (hmore : (moreElements n close).run ⟨last, us⟩ = some (es, c)) :
    (elements (n + 1) close).run ⟨prev, t :: ts⟩ = some (e :: es, c) := by
  simp [run_at?, at?_cons, ht, h, hmore]

/-- Without a comma there are no further elements. -/
theorem run_moreElements_nil {close : TokenKind} (ht : t.kind ≠ .comma) :
    (moreElements (n + 1) close).run ⟨prev, t :: ts⟩ = some ([], ⟨prev, t :: ts⟩) := by
  simp [run_eat, at?_cons, ht]

/-- A comma in front of the closing bracket adds none. -/
theorem run_moreElements_comma {close : TokenKind} (ht : t.kind = .comma) (hu : u.kind = close) :
    (moreElements (n + 1) close).run ⟨prev, t :: u :: us⟩ = some ([], ⟨t, u :: us⟩) := by
  simp [run_eat, run_at?, at?_cons, advance_cons, ht, hu]

/-- A comma in front of anything else adds one. -/
theorem run_moreElements_cons {close : TokenKind} (ht : t.kind = .comma) (hu : u.kind ≠ close)
    (h : (read n).run ⟨t, u :: us⟩ = some (e, ⟨last, vs⟩))
    (hmore : (moreElements n close).run ⟨last, vs⟩ = some (es, c)) :
    (moreElements (n + 1) close).run ⟨prev, t :: u :: us⟩ = some (e :: es, c) := by
  simp [run_eat, run_at?, at?_cons, advance_cons, ht, hu, h, hmore]

/-- A subscript without a comma is an expression. -/
theorem run_subscripts_one (h : (read n).run c = some (e, ⟨last, u :: us⟩)) (hu : u.kind ≠ .comma) :
    (subscripts (n + 1)).run c = some (e, ⟨last, u :: us⟩) := by
  simp [run_at?, at?_cons, h, hu]

/-- One with a comma is a tuple. -/
theorem run_subscripts_tuple (h : (read n).run c = some (e, ⟨last, u :: us⟩))
    (hu : u.kind = .comma)
    (hmore : (moreElements n .rbracket).run ⟨last, u :: us⟩ = some (es, ⟨last', vs⟩)) :
    ∃ span, (subscripts (n + 1)).run c = some (tuple (e :: es) span, ⟨last', vs⟩) := by
  refine ⟨es.foldl (fun s e => s.cover e.span) e.span, ?_⟩
  simp [run_at?, at?_cons, h, hu, hmore]

/-! ### Entries and arguments -/

/-- An entry behind two stars has no key. -/
theorem run_dictEntry_star (ht : t.kind = .doubleStar)
    (h : (read n).run ⟨t, ts⟩ = some (e, c)) :
    (dictEntry (n + 1)).run ⟨prev, t :: ts⟩ = some ((Option.none, e), c) := by
  simp [run_eat, at?_cons, advance_cons, ht, h]

/-- Any other has a key and a value. -/
theorem run_dictEntry_pair (ht : t.kind ≠ .doubleStar)
    (h : (read n).run ⟨prev, t :: ts⟩ = some (e, ⟨last, u :: us⟩)) (hu : u.kind = .colon)
    (hvalue : (read n).run ⟨u, us⟩ = some (e', c)) :
    (dictEntry (n + 1)).run ⟨prev, t :: ts⟩ = some ((some e, e'), c) := by
  simp [run_eat, run_expect, at?_cons, peek_cons, advance_cons, ht, h, hu, hvalue]

/-- There may be no entries. -/
theorem run_dictEntries_nil (ht : t.kind = .rbrace) :
    (dictEntries (n + 1)).run ⟨prev, t :: ts⟩ = some ([], ⟨prev, t :: ts⟩) := by
  simp [run_at?, at?_cons, ht]

/-- An entry without a comma is the last. -/
theorem run_dictEntries_last {entry : Option Expr × Expr} (ht : t.kind ≠ .rbrace)
    (h : (dictEntry n).run ⟨prev, t :: ts⟩ = some (entry, ⟨last, u :: us⟩)) (hu : u.kind ≠ .comma) :
    (dictEntries (n + 1)).run ⟨prev, t :: ts⟩ = some ([entry], ⟨last, u :: us⟩) := by
  simp [run_at?, run_eat, at?_cons, ht, h, hu]

/-- One with a comma is followed by the others. -/
theorem run_dictEntries_cons {entry : Option Expr × Expr} {entries : List (Option Expr × Expr)}
    (ht : t.kind ≠ .rbrace)
    (h : (dictEntry n).run ⟨prev, t :: ts⟩ = some (entry, ⟨last, u :: us⟩)) (hu : u.kind = .comma)
    (hmore : (dictEntries n).run ⟨u, us⟩ = some (entries, c)) :
    (dictEntries (n + 1)).run ⟨prev, t :: ts⟩ = some (entry :: entries, c) := by
  simp [run_at?, run_eat, at?_cons, advance_cons, ht, h, hu, hmore]

/-- An argument behind two stars has no name. -/
theorem run_argument_star (ht : t.kind = .doubleStar)
    (h : (read n).run ⟨t, ts⟩ = some (e, c)) :
    (argument (n + 1)).run ⟨prev, t :: ts⟩ = some (.inr (Option.none, e), c) := by
  simp [run_eat, at?_cons, advance_cons, ht, h]

/-- A name in front of an `=` names an argument. -/
theorem run_argument_keyword (ht : t.kind = .name) (hu : u.kind = .equals)
    (h : (read n).run ⟨u, us⟩ = some (e, c)) :
    (argument (n + 1)).run ⟨prev, t :: u :: us⟩ = some (.inr (some t.text, e), c) := by
  simp [atKeyword, run_eat, run_ident, run_advance, at?_cons, peek_cons, advance_cons,
    kindAfter, kind_cons, ht, hu, h]

/-- Any other argument is an expression. -/
theorem run_argument_positional (hstar : t.kind ≠ .doubleStar) (hstar' : t.kind ≠ .star)
    (hname : t.kind = .name → u.kind ≠ .equals)
    (h : (read n).run ⟨prev, t :: u :: us⟩ = some (e, c)) :
    (argument (n + 1)).run ⟨prev, t :: u :: us⟩ = some (.inl e, c) := by
  have hkeyword : ¬ (t.kind = .name ∧ u.kind = .equals) := fun hkeyword =>
    hname hkeyword.1 hkeyword.2
  simp [atKeyword, run_eat, at?_cons, advance_cons, kindAfter, kind_cons, hstar, hstar',
    hkeyword, h]

/-- There may be no arguments. -/
theorem run_arguments_nil (ht : t.kind = .rparen) :
    (arguments (n + 1)).run ⟨prev, t :: ts⟩ = some (([], []), ⟨prev, t :: ts⟩) := by
  simp [run_at?, at?_cons, ht]

/-- An argument without a comma is the last. -/
theorem run_arguments_last {arg : Expr ⊕ (Option String × Expr)} (ht : t.kind ≠ .rparen)
    (h : (argument n).run ⟨prev, t :: ts⟩ = some (arg, ⟨last, u :: us⟩)) (hu : u.kind ≠ .comma) :
    (arguments (n + 1)).run ⟨prev, t :: ts⟩ =
      some (consArgument arg ([], []), ⟨last, u :: us⟩) := by
  simp [run_at?, run_eat, at?_cons, ht, h, hu]

/-- One with a comma is followed by the others. -/
theorem run_arguments_cons {arg : Expr ⊕ (Option String × Expr)}
    {args : List Expr × List (Option String × Expr)} (ht : t.kind ≠ .rparen)
    (h : (argument n).run ⟨prev, t :: ts⟩ = some (arg, ⟨last, u :: us⟩)) (hu : u.kind = .comma)
    (hmore : (arguments n).run ⟨u, us⟩ = some (args, c)) :
    (arguments (n + 1)).run ⟨prev, t :: ts⟩ = some (consArgument arg args, c) := by
  simp [run_at?, run_eat, at?_cons, advance_cons, ht, h, hu, hmore]

end Expr
end PackageDoc
