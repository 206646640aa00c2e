import PackageDoc.Proofs.Annotation.Reparsing
import PackageDoc.Proofs.Tokens.Literals
import PackageDoc.Proofs.Types.Unions

namespace PackageDoc

/-!
# Types do not depend on places

What an expression is evaluated to depends on the text around it only through the text of its parts,
and on what strings denote only if it has a string.

* `Span.text_shift` — the text of a span, with other text in front of it and behind it;
* `Expr.Parses.mapSpan_congr` — the places in an expression are made of those of its tokens;
* `Expr.StringFree` and `Expr.Parses.stringFree` — an expression of tokens that are no strings;
* `TypeEnv.evalExpr_mapSpan` — evaluation in another place;
* `TypeEnv.evalExpr_placed` — evaluation in the middle of another text.
-/

/-! ### Texts of spans -/

namespace Span

/-- A span that is moved with its text has the same characters. -/
theorem chars_shift (s : Span) (k offset : Nat) (cs : List Char) :
    (s.shift k).chars (offset + k) cs = s.chars offset cs := by
  induction cs generalizing offset with
  | nil => rfl
  | cons c cs ih =>
    have hrest := ih (offset + c.utf8Size)
    rw [Nat.add_right_comm] at hrest
    simp only [chars, hrest]
    simp only [shift, Nat.add_le_add_iff_right]

/-- A span that ends in front of a text has none of it. -/
theorem chars_of_stop_le {s : Span} {offset : Nat} (h : s.stop ≤ offset) (cs : List Char) :
    s.chars offset cs = [] := by
  cases cs with
  | nil => rfl
  | cons c cs => rw [chars, if_pos h]

/-- Text in front of a span is no part of it. -/
theorem chars_append_of_le_start {s : Span} {offset : Nat} {before : List Char}
    (h : offset + Text.byteLength before ≤ s.start) (cs : List Char) :
    s.chars offset (before ++ cs) = s.chars (offset + Text.byteLength before) cs := by
  induction before generalizing offset with
  | nil => rfl
  | cons c before ih =>
    rw [Text.byteLength, ← Nat.add_assoc] at h ⊢
    by_cases hstop : s.stop ≤ offset
    · rw [chars_of_stop_le hstop, chars_of_stop_le (by omega)]
    · have hsize := c.utf8Size_pos
      rw [List.cons_append, chars, if_neg hstop, if_neg (by omega), ih h]

/-- Neither is text behind it. -/
theorem chars_append_of_stop_le {s : Span} {offset : Nat} {cs : List Char}
    (h : s.stop ≤ offset + Text.byteLength cs) (behind : List Char) :
    s.chars offset (cs ++ behind) = s.chars offset cs := by
  induction cs generalizing offset with
  | nil => exact chars_of_stop_le h behind
  | cons c cs ih =>
    rw [Text.byteLength, ← Nat.add_assoc] at h
    rw [List.cons_append, chars, chars, ih h]

/-- The text of a span, with other text in front of it and behind it. -/
theorem text_shift {s : Span} {cs : List Char} (h : s.stop ≤ Text.byteLength cs)
    (before behind : List Char) :
    (s.shift (Text.byteLength before)).text (before ++ (cs ++ behind)) = s.text cs := by
  have hstart : 0 + Text.byteLength before ≤ (s.shift (Text.byteLength before)).start := by
    simp only [shift]
    omega
  rw [text, text, chars_append_of_le_start hstart, chars_shift,
    chars_append_of_stop_le (by omega)]

/-- The part of a span in the first `n` bytes. -/
def clamp (n : Nat) (s : Span) : Span :=
  ⟨s.start, min s.stop n⟩

/-- A cover is cut short by cutting what it covers. -/
theorem clamp_cover (n : Nat) (s t : Span) : (s.cover t).clamp n = (s.clamp n).cover (t.clamp n) := by
  simp only [cover, clamp, mk.injEq, true_and]
  omega

/-- A span that is short enough is not cut. -/
theorem clamp_eq_self {n : Nat} {s : Span} (h : s.stop ≤ n) : s.clamp n = s := by
  rw [clamp, Nat.min_eq_left h]

end Span

/-! ### Places in an expression -/

namespace Expr

/-- The places in an expression are made of those of its tokens. -/
theorem Parses.mapSpan_congr {f g : Span → Span} {e : Expr} {ts : List Token}
    (hf : ∀ s t : Span, f (s.cover t) = (f s).cover (f t))
    (hg : ∀ s t : Span, g (s.cover t) = (g s).cover (g t)) (h : Parses (.read e) ts)
    (hfg : ∀ t ∈ ts, f t.span = g t.span) : e.mapSpan f = e.mapSpan g := by
  have htokens : ts.map (Token.mapSpan f) = ts.map (Token.mapSpan g) :=
    List.map_congr_left fun t ht => by rw [Token.mapSpan, Token.mapSpan, hfg t ht]
  have hmoved : Parses (.read (e.mapSpan f)) (ts.map (Token.mapSpan g)) := htokens ▸ h.mapSpan hf
  exact hmoved.unique (h.mapSpan hg)

/-- An expression whose tokens stay where they are stays where it is. -/
theorem Parses.mapSpan_eq_self {f : Span → Span} {e : Expr} {ts : List Token}
    (hf : ∀ s t : Span, f (s.cover t) = (f s).cover (f t)) (h : Parses (.read e) ts)
    (hts : ∀ t ∈ ts, f t.span = t.span) : e.mapSpan f = e := by
  have htokens : ts.map (Token.mapSpan f) = ts := by
    rw [List.map_congr_left (g := id) fun t ht => by rw [Token.mapSpan, hts t ht, id], List.map_id]
  have hmoved : Parses (.read (e.mapSpan f)) ts := htokens ▸ h.mapSpan hf
  exact hmoved.unique h

/-- A dotted name is one wherever it stands. -/
theorem dottedName?_mapSpan (f : Span → Span) : ∀ e : Expr, (e.mapSpan f).dottedName? = e.dottedName?
  | attr value field span => by
    rw [mapSpan, dottedName?, dottedName?, dottedName?_mapSpan f value]
  | name _ | subscript .. | call .. | str .. | num .. | bool .. | none _ | ellipsis _ | tuple ..
  | list .. | dict .. | union .. | unmodelled _ => rfl

/-! ### Expressions without strings -/

mutual

/-- No string stands where evaluation looks for types. -/
def StringFree : Expr → Prop
  | str _ _ _ _ => False
  | list items _ => AllStringFree items
  | tuple items _ => AllStringFree items
  | subscript value index _ => value.StringFree ∧ index.StringFree
  | _ => True

/-- No string stands in any of the expressions. -/
def AllStringFree : List Expr → Prop
  | [] => True
  | e :: es => e.StringFree ∧ AllStringFree es

end

/-- Expressions have no strings when none of them has. -/
theorem allStringFree_iff {es : List Expr} : AllStringFree es ↔ ∀ e ∈ es, e.StringFree := by
  induction es with
  | nil => simp [AllStringFree]
  | cons e es ih => rw [AllStringFree, ih, List.forall_mem_cons]

/-- What a reader reads, without strings. -/
def Phrase.StringFree : Phrase → Prop
  | .read e | .operand e | .atom e | .subscripts e => e.StringFree
  | .unionTail left e => left.StringFree → e.StringFree
  | .trailers base e => base.StringFree → e.StringFree
  | .elements es | .moreElements es => ∀ e ∈ es, e.StringFree
  | .dictEntry _ | .dictEntries _ | .argument _ | .arguments _ => True

/-- Tokens that are no strings are a phrase without strings. -/
theorem Parses.stringFree {p : Phrase} {ts : List Token} (h : Parses p ts)
    (hts : ∀ t ∈ ts, t.kind ≠ .string) : p.StringFree := by
  -- tails hand on what holds of the expression in front of them
  induction h with
  | read _ _ ihleft ihtail =>
    obtain ⟨hleft, htail⟩ := List.forall_mem_append.mp hts
    exact ihtail htail (ihleft hleft)
  | unionEnd e | trailersEnd e => exact id
  | unionMore _ _ _ _ ihtail =>
    obtain ⟨-, hts⟩ := List.forall_mem_cons.mp hts
    exact fun _ => ihtail (List.forall_mem_append.mp hts).2 trivial
  | applied _ _ ihbase ihtail =>
    obtain ⟨hbase, htail⟩ := List.forall_mem_append.mp hts
    exact ihtail htail (ihbase hbase)
  | attr _ _ _ ihtail =>
    exact fun _ => ihtail (fun t ht => hts t (by simp [ht])) trivial
  | subscript _ _ _ _ ihindex ihtail =>
    exact fun hbase => ihtail (fun t ht => hts t (by simp [ht]))
      ⟨hbase, ihindex fun t ht => hts t (by simp [ht])⟩
  | call _ _ _ _ _ ihtail =>
    exact fun _ => ihtail (fun t ht => hts t (by simp [ht])) trivial
  | @single t e his =>
    unfold ofToken? at his
    split at his <;> cases his <;> trivial
  | literals hstrings => exact absurd (hstrings _ List.mem_cons_self) (hts _ List.mem_cons_self)
  | group _ _ _ ih => exact ih fun t ht => hts t (by simp [ht])
  | tuple _ _ _ _ _ ihfirst ihothers =>
    exact ⟨ihfirst fun t ht => hts t (by simp [ht]),
      allStringFree_iff.mpr (ihothers fun t ht => hts t (by simp [ht]))⟩
  | list _ _ _ ih => exact allStringFree_iff.mpr (ih fun t ht => hts t (by simp [ht]))
  | elements _ _ ihfirst ihothers | moreElements _ _ _ ihfirst ihothers =>
    exact List.forall_mem_cons.mpr ⟨ihfirst fun t ht => hts t (by simp [ht]),
      ihothers fun t ht => hts t (by simp [ht])⟩
  | noElements | noMore | lastComma _ =>
    intro e he
    cases he
  | index _ ih => exact ih hts
  | indices _ _ _ ihfirst ihothers =>
    exact ⟨ihfirst fun t ht => hts t (by simp [ht]),
      allStringFree_iff.mpr (ihothers fun t ht => hts t (by simp [ht]))⟩
  | _ => trivial

end Expr

/-- No literal is read of a text without quotes. -/
theorem kind_ne_string_of_isQuote {text : String} (h : ∀ c ∈ text.toList, isQuote c = false)
    {t : Token} (ht : t ∈ (tokenize text).1) : t.kind ≠ .string := by
  intro hkind
  obtain ⟨l, ⟨before, behind, htext, -⟩, -⟩ := exists_literal ht hkind
  have hquote : isQuote l.quotes.mark = false := by
    refine h _ ?_
    simp [htext, Literal.text, Quotes.text]
  rw [l.quotes.isMark] at hquote
  cases hquote

/-- The tokens of an expression that is read from a text without quotes. -/
theorem Expr.exists_parses_of_isQuote {text : String} (h : ∀ c ∈ text.toList, isQuote c = false)
    {e : Expr} (hparse : parse? text = some e) : ∃ ts, Parses (.read e) ts ∧
      ∀ t ∈ ts, t.kind ≠ .string ∧ t.span.stop ≤ Text.byteLength text.toList := by
  obtain ⟨hissues, ts, t, after, htokens, hparses, -⟩ := exists_of_parse? hparse
  have hmem : ∀ u ∈ ts, u ∈ (tokenize text).1 := fun u hu => by simp [htokens, hu]
  exact ⟨ts, hparses, fun u hu => ⟨kind_ne_string_of_isQuote h (hmem u hu),
    (tokenize_wellLaid text hissues).2 u (hmem u hu)⟩⟩

/-! ### Evaluation -/

namespace TypeEnv

variable {env : TypeEnv} {scope : Option ClassScope}

/-- A dotted name denotes what it refers to, wherever it stands. -/
theorem evalExpr_of_dottedName? {text : String} {forward : String → Eval TypeRef} {e : Expr}
    {name : String} (h : e.dottedName? = some name) :
    env.evalExpr scope text forward e = (do return .resolved (← env.target scope name)) := by
  cases e with
  | name ident =>
    obtain rfl := Option.some.inj h
    rfl
  | attr value field span => rw [evalExpr, h]
  | _ => cases h

/-- A subscription has one type where its arguments have the same texts. -/
theorem subscripted_congr {text text' : String} {args args' : List Expr}
    (h : args.map (fun arg => arg.span.text text.toList) =
      args'.map fun arg => arg.span.text text'.toList) (base : TypeRef)
    (all : Unit → Eval (List TypeRef)) (first : Unit → Eval TypeRef) :
    subscripted text base args all first = subscripted text' base args' all first := by
  unfold subscripted
  rw [h]

/-- What can be no type can be none anywhere. -/
theorem isNoType_mapSpan (f : Span → Span) (e : Expr) : isNoType (e.mapSpan f) = isNoType e := by
  cases e with
  | tuple items span => simp [Expr.mapSpan, Expr.mapSpanAll_eq, isNoType]
  | _ => rfl

/-- Type arguments are moved one by one. -/
theorem typeArguments_mapSpan (f : Span → Span) (e : Expr) :
    (e.mapSpan f).typeArguments = e.typeArguments.map (Expr.mapSpan f) := by
  cases e with
  | tuple items span => rw [Expr.mapSpan, Expr.typeArguments, Expr.mapSpanAll_eq]; rfl
  | _ => rfl

section Moved

variable {text text' : String} {f f' : Span → Span} {forward forward' : String → Eval TypeRef}
  (hspan : ∀ s, (f' s).text text'.toList = (f s).text text.toList)
include hspan

/-- A subscription in another place, if its parts are evaluated alike there. -/
theorem evalExpr_subscript_mapSpan {value index : Expr} (span : Span)
    (hvalue : env.evalExpr scope text' forward' (value.mapSpan f') =
      env.evalExpr scope text forward (value.mapSpan f))
    (hall : env.evalAll scope text' forward' (index.typeArguments.map (Expr.mapSpan f')) =
      env.evalAll scope text forward (index.typeArguments.map (Expr.mapSpan f)))
    (hfirst : env.evalFirst scope text' forward' (index.typeArguments.map (Expr.mapSpan f')) =
      env.evalFirst scope text forward (index.typeArguments.map (Expr.mapSpan f))) :
    env.evalExpr scope text' forward' ((Expr.subscript value index span).mapSpan f') =
      env.evalExpr scope text forward ((Expr.subscript value index span).mapSpan f) := by
  have hmoved (g : Span → Span) : (Expr.subscript value index span).mapSpan g =
      .subscript (value.mapSpan g) (index.mapSpan g) (g span) := rfl
  have htexts : (index.typeArguments.map (Expr.mapSpan f')).map
        (fun arg => arg.span.text text'.toList) =
      (index.typeArguments.map (Expr.mapSpan f)).map fun arg => arg.span.text text.toList := by
    simp only [List.map_map, Function.comp_def, Expr.span_mapSpan, hspan]
  rw [hmoved, hmoved, evalExpr_subscript, evalExpr_subscript, typeArguments_mapSpan,
    typeArguments_mapSpan, hvalue, hall, hfirst]
  simp only [subscripted_congr htexts]

/-- **Evaluation in another place**, where all parts have the same texts, of an expression without
    strings. -/
theorem evalExpr_mapSpan (e : Expr) :
    e.StringFree → env.evalExpr scope text' forward' (e.mapSpan f') =
      env.evalExpr scope text forward (e.mapSpan f) := by
  apply evalExpr_induction
    (P := fun e => e.StringFree → env.evalExpr scope text' forward' (e.mapSpan f') =
      env.evalExpr scope text forward (e.mapSpan f))
    (Q := fun es => Expr.AllStringFree es →
      env.evalAll scope text' forward' (es.map (Expr.mapSpan f')) =
        env.evalAll scope text forward (es.map (Expr.mapSpan f)))
    (R := fun es => Expr.AllStringFree es →
      env.evalFirst scope text' forward' (es.map (Expr.mapSpan f')) =
        env.evalFirst scope text forward (es.map (Expr.mapSpan f)))
  case name =>
    intro ident _
    rfl
  -- whether an attribute access is a dotted name, and which, does not depend on its place
  case dotted =>
    intro value field span name hname _
    have hmoved (g : Span → Span) :
        ((Expr.attr value field span).mapSpan g).dottedName? = some name :=
      (Expr.dottedName?_mapSpan g _).trans hname
    rw [evalExpr_of_dottedName? (hmoved f'), evalExpr_of_dottedName? (hmoved f)]
  case undotted =>
    intro value field span hname _
    have hmoved (g : Span → Span) : (Expr.attr (value.mapSpan g) ⟨field.name, g field.span⟩
        (g span)).dottedName? = none :=
      (Expr.dottedName?_mapSpan g (.attr value field span)).trans hname
    rw [Expr.mapSpan, Expr.mapSpan, evalExpr, evalExpr, hmoved f', hmoved f]
  case none | ellipsis | emptyTuple =>
    intro span _
    rfl
  case prefixed | str =>
    intro value isBytes isFormatted span _ hfree
    exact hfree.elim
  case list =>
    intro items span ih hfree
    rw [Expr.mapSpan, Expr.mapSpan, Expr.mapSpanAll_eq, Expr.mapSpanAll_eq, evalExpr, evalExpr,
      ih hfree]
  case subscriptTuple =>
    intro value items span span' ihvalue ihall ihfirst hfree
    exact evalExpr_subscript_mapSpan hspan span' (ihvalue hfree.1) (ihall hfree.2)
      (ihfirst hfree.2)
  -- an index that is no tuple is the only type argument, so `ihindex` is about all of them
  case subscript =>
    intro value index span hindex ihvalue ihindex hfree
    have hone : index.typeArguments = [index] := by
      cases index with
      | tuple items span' => exact (hindex items span' rfl).elim
      | _ => rfl
    refine evalExpr_subscript_mapSpan hspan span (ihvalue hfree.1) ?_ ?_
    · rw [hone, List.map_singleton, List.map_singleton, evalAll, evalAll, ihindex hfree.2]
      rfl
    · rw [hone]
      exact ihindex hfree.2
  case other =>
    intro e he _
    have hmoved (g : Span → Span) : isNoType (e.mapSpan g) = true := by rwa [isNoType_mapSpan]
    rw [evalExpr_of_isNoType (hmoved f'), evalExpr_of_isNoType (hmoved f)]
  case allNil | firstNil =>
    intro _
    rfl
  case allCons =>
    intro e es ih ihall hfree
    rw [List.map_cons, List.map_cons, evalAll, evalAll, ih hfree.1, ihall hfree.2]
  case firstCons =>
    intro e es ih hfree
    exact ih hfree.1

end Moved

section Placed

variable {text : String} {e : Expr} {ts : List Token} (h : Expr.Parses (.read e) ts)
  (hts : ∀ t ∈ ts, t.kind ≠ .string ∧ t.span.stop ≤ Text.byteLength text.toList)
include h hts

/-- What strings denote makes no difference for an expression without strings. -/
theorem evalExpr_forward (forward forward' : String → Eval TypeRef) :
    env.evalExpr scope text forward' e = env.evalExpr scope text forward e := by
  have hself : e.mapSpan (fun s => s) = e := h.mapSpan_eq_self (fun _ _ => rfl) fun _ _ => rfl
  have hsame : env.evalExpr scope text forward' (e.mapSpan fun s => s) =
      env.evalExpr scope text forward (e.mapSpan fun s => s) :=
    evalExpr_mapSpan (fun _ => rfl) e (h.stringFree fun t ht => (hts t ht).1)
  rwa [hself] at hsame

/-- **Evaluation in the middle of another text.** -/
theorem evalExpr_placed {text' : String} {before behind : List Char}
    (htext : text'.toList = before ++ (text.toList ++ behind))
    (forward forward' : String → Eval TypeRef) :
    env.evalExpr scope text' forward' (e.shift (Text.byteLength before)) =
      env.evalExpr scope text forward e := by
  -- the places in the expression are inside the text, so they can be clamped to it
  let n := Text.byteLength text.toList
  let k := Text.byteLength before
  have hclamp : ∀ t ∈ ts, t.span.clamp n = t.span := fun t ht => Span.clamp_eq_self (hts t ht).2
  have hhere : e.mapSpan (Span.clamp n) = e := h.mapSpan_eq_self (Span.clamp_cover n) hclamp
  have hthere : e.mapSpan (fun s => (s.clamp n).shift k) = e.shift k := by
    refine h.mapSpan_congr (fun s t => ?_) (Span.shift_cover k) fun t ht => ?_
    · show ((s.cover t).clamp n).shift k = ((s.clamp n).shift k).cover ((t.clamp n).shift k)
      rw [Span.clamp_cover, Span.shift_cover]
    · show (t.span.clamp n).shift k = t.span.shift k
      rw [hclamp t ht]
  have hspan (s : Span) : ((s.clamp n).shift k).text text'.toList = (s.clamp n).text text.toList := by
    have hstop : (s.clamp n).stop ≤ n := Nat.min_le_right _ _
    rw [htext, Span.text_shift hstop]
  rw [← hthere]
  nth_rewrite 2 [← hhere]
  exact evalExpr_mapSpan hspan e (h.stringFree fun t ht => (hts t ht).1)

end Placed

end TypeEnv
end PackageDoc
