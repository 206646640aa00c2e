import PackageDoc.Proofs.Skipping.Values
import PackageDoc.Proofs.Tokens.Runs
import Mathlib.Logic.Relation
import Mathlib.Order.Nat

namespace PackageDoc

/-!
# Spans of expressions are nested

The span of an expression holds the spans of what the expression is made of.  Where these stand in a
row, none begins before the one in front of it has ended.

* `Expr.rows` — what an expression is made of, row by row;
* `Expr.Nested` and `Expr.NestedThroughout` — an expression whose span is in order, and one that is
  in order all the way down;
* `Expr.Seated` — an expression in order all the way down among the tokens that it is read from;
* `Expr.Parses.seated` — the expressions of the modelled language are.
-/

/-! ### Spans -/

namespace Span

variable {s s' inner : Span} {edge : Nat → Prop}

/-- The span does not end before it begins. -/
def Forward (s : Span) : Prop :=
  s.start ≤ s.stop

/-- The span holds the other one. -/
def Contains (s inner : Span) : Prop :=
  s.start ≤ inner.start ∧ inner.stop ≤ s.stop

/-- The span ends before the other one begins, or where it does. -/
def Before (s s' : Span) : Prop :=
  s.stop ≤ s'.start

/-- The span begins and ends at edges. -/
def Meets (edge : Nat → Prop) (s : Span) : Prop :=
  edge s.start ∧ edge s.stop

/-- A cover contains the first span that it covers. -/
theorem contains_cover_left (s s' : Span) : (s.cover s').Contains s :=
  ⟨Nat.min_le_left _ _, Nat.le_max_left _ _⟩

/-- It contains the second. -/
theorem contains_cover_right (s s' : Span) : (s.cover s').Contains s' :=
  ⟨Nat.min_le_right _ _, Nat.le_max_right _ _⟩

theorem Contains.trans (h : s.Contains s') (h' : s'.Contains inner) : s.Contains inner :=
  ⟨h.1.trans h'.1, h'.2.trans h.2⟩

/-- What stands between two spans is in their cover. -/
theorem contains_cover_of_before (hs : s.Forward) (hs' : s'.Forward) (hbehind : s.Before inner)
    (hbefore : inner.Before s') : (s.cover s').Contains inner :=
  ⟨(Nat.min_le_left _ _).trans (hs.trans hbehind),
    (Nat.le_trans hbefore hs').trans (Nat.le_max_right _ _)⟩

/-- A cover ends behind its start if its first span does. -/
theorem Forward.cover (h : s.Forward) (s' : Span) : (s.cover s').Forward :=
  (Nat.min_le_left _ _).trans (h.trans (Nat.le_max_left _ _))

/-- It begins and ends at edges if both spans do. -/
theorem Meets.cover (h : s.Meets edge) (h' : s'.Meets edge) : (s.cover s').Meets edge :=
  cover_ends (P := edge) (Q := edge) h h'

end Span

namespace Expr

variable {e d part : Expr} {es es' : List Expr} {edge edge' : Nat → Prop} {s : Span}
variable {ts us vs : List Token} {t o c : Token}

/-! ### The span of several expressions -/

/-- A property of spans that covers keep is one of the cover of several expressions. -/
theorem foldl_cover_induction {P : Span → Prop} (hcover : ∀ s s', P s → P s' → P (s.cover s'))
    (hs : P s) (hes : ∀ e ∈ es, P e.span) : P (es.foldl (fun s e => s.cover e.span) s) := by
  induction es generalizing s with
  | nil => exact hs
  | cons e es ih =>
    obtain ⟨he, hes⟩ := List.forall_mem_cons.mp hes
    exact ih (hcover s e.span hs he) hes

/-- The cover of several expressions contains them all. -/
theorem contains_foldl_cover (s : Span) (es : List Expr) :
    (es.foldl (fun s e => s.cover e.span) s).Contains s ∧
      ∀ e ∈ es, (es.foldl (fun s e => s.cover e.span) s).Contains e.span := by
  induction es generalizing s with
  | nil => exact ⟨⟨le_rfl, le_rfl⟩, by simp⟩
  | cons e es ih =>
    obtain ⟨hfirst, hothers⟩ := ih (s.cover e.span)
    exact ⟨hfirst.trans (s.contains_cover_left e.span),
      List.forall_mem_cons.mpr ⟨hfirst.trans (s.contains_cover_right e.span), hothers⟩⟩

/-! ### What expressions are made of -/

/-- What an expression is directly made of, row by row in the order of the text.  The arguments of a
    call by position and those by keyword are rows of their own. -/
def rows : Expr → List (List Expr)
  | attr value _ _ => [[value]]
  | subscript value index _ => [[value, index]]
  | call func args keywords _ => [func :: args, func :: keywords.map Prod.snd]
  | tuple items _ | list items _ => [items]
  | dict entries _ => [entries.flatMap fun entry => entry.1.toList ++ [entry.2]]
  | union left right _ => [[left, right]]
  | _ => []

/-- The attribute that an expression names. -/
def field? : Expr → Option Ident
  | attr _ field _ => some field
  | _ => Option.none

/-- The expression is directly made of the other one, and perhaps of more. -/
def HasPart (e part : Expr) : Prop :=
  ∃ row ∈ e.rows, part ∈ row

/-- The other expression is the expression itself or in it, at any depth. -/
def Holds : Expr → Expr → Prop :=
  Relation.ReflTransGen HasPart

/-- The span of an expression begins and ends at edges and holds those of its parts and of its
    attribute, and the parts of a row stand one behind the other. -/
structure Nested (edge : Nat → Prop) (e : Expr) : Prop where
  forward : e.span.Forward
  meets : e.span.Meets edge
  parts : ∀ part, e.HasPart part → e.span.Contains part.span
  field : ∀ field ∈ e.field?, e.span.Contains field.span
  apart : ∀ row ∈ e.rows, row.Pairwise fun part next => part.span.Before next.span

/-- The expression is nested, and so is every expression in it. -/
def NestedThroughout (edge : Nat → Prop) (e : Expr) : Prop :=
  ∀ d, e.Holds d → d.Nested edge

/-- What is nested between edges is so between more of them. -/
theorem Nested.mono (h : e.Nested edge) (himp : ∀ offset, edge offset → edge' offset) :
    e.Nested edge' :=
  { h with meets := ⟨himp _ h.meets.1, himp _ h.meets.2⟩ }

namespace NestedThroughout

/-- What is nested throughout is nested itself. -/
theorem nested (h : e.NestedThroughout edge) : e.Nested edge :=
  h e .refl

/-- It is nested throughout between more edges. -/
theorem mono (h : e.NestedThroughout edge) (himp : ∀ offset, edge offset → edge' offset) :
    e.NestedThroughout edge' :=
  fun d hd => (h d hd).mono himp

/-- A nested expression that is made of such expressions. -/
theorem of_parts (h : e.Nested edge) (hparts : ∀ row ∈ e.rows, ∀ part ∈ row, part.NestedThroughout edge) :
    e.NestedThroughout edge := by
  intro d hd
  rcases hd.cases_head with rfl | ⟨part, ⟨row, hrow, hpart⟩, hholds⟩
  · exact h
  · exact hparts row hrow part hpart d hholds

/-- An expression that is made of no other. -/
theorem leaf (hforward : e.span.Forward) (hmeets : e.span.Meets edge) (hrows : e.rows = [])
    (hfield : e.field? = Option.none) : e.NestedThroughout edge := by
  refine of_parts ⟨hforward, hmeets, ?_, by simp [hfield], by simp [hrows]⟩ (by simp [hrows])
  rintro part ⟨row, hrow, -⟩
  rw [hrows] at hrow
  cases hrow

/-- Several expressions, one behind the other, that make up a tuple without parentheses. -/
theorem items (h : ∀ part ∈ e :: es, part.NestedThroughout edge)
    (hapart : (e :: es).Pairwise fun part next => part.span.Before next.span) :
    (tuple (e :: es) (es.foldl (fun s e => s.cover e.span) e.span)).NestedThroughout edge := by
  obtain ⟨hfirst, hothers⟩ := contains_foldl_cover e.span es
  obtain ⟨he, hes⟩ := List.forall_mem_cons.mp h
  refine .of_parts ⟨?_, ?_, ?_, by simp [field?], by simpa [rows] using hapart⟩ (by simpa [rows] using h)
  · exact foldl_cover_induction (P := Span.Forward) (fun _ s' hs _ => hs.cover s') he.nested.forward
      fun e he => (hes e he).nested.forward
  · exact foldl_cover_induction (P := Span.Meets edge) (fun _ _ hs hs' => hs.cover hs')
      he.nested.meets fun e he => (hes e he).nested.meets
  · rintro part ⟨_, _ | ⟨_, ⟨⟩⟩, hpart⟩
    rcases List.mem_cons.mp hpart with rfl | hpart
    · exact hfirst
    · exact hothers part hpart

end NestedThroughout

/-! ### Among tokens -/

/-- A token begins or ends at the offset. -/
def IsEdge (ts : List Token) (offset : Nat) : Prop :=
  ∃ t ∈ ts, offset = t.span.start ∨ offset = t.span.stop

/-- An edge of tokens is one of more tokens. -/
theorem IsEdge.mono {offset : Nat} (h : IsEdge ts offset) (hsub : ts ⊆ us) : IsEdge us offset := by
  obtain ⟨t, ht, hoffset⟩ := h
  exact ⟨t, hsub ht, hoffset⟩

/-- A span that ends among tokens meets their edges. -/
theorem meets_of_endsAmong (h : s.EndsAmong ts) : s.Meets (IsEdge ts) := by
  obtain ⟨⟨t, ht, hstart⟩, u, hu, hstop⟩ := h
  exact ⟨⟨t, ht, .inl hstart⟩, u, hu, .inr hstop⟩

/-- The expression begins and ends with tokens, and is nested all the way down. -/
structure Seated (ts : List Token) (e : Expr) : Prop where
  ends : e.span.EndsAmong ts
  nested : e.NestedThroughout (IsEdge ts)

/-- Expressions that stand one behind the other. -/
structure SeatedRow (ts : List Token) (es : List Expr) : Prop where
  each : ∀ e ∈ es, e.Seated ts
  apart : es.Pairwise fun e e' => e.span.Before e'.span

/-- An expression that sits among tokens sits among more. -/
theorem Seated.mono (h : e.Seated ts) (hsub : ts ⊆ us) : e.Seated us :=
  ⟨h.ends.mono hsub, h.nested.mono fun _ hoffset => hoffset.mono hsub⟩

/-- What ends among the tokens in front stands before what begins among those behind. -/
theorem before_of_endsAmong {s s' : Span} (haligned : Aligned (ts ++ us)) (h : s.EndsAmong ts)
    (h' : s'.EndsAmong us) : s.Before s' := by
  obtain ⟨-, t, ht, hstop⟩ := h
  obtain ⟨⟨u, hu, hstart⟩, -⟩ := h'
  rw [Span.Before, hstop, hstart]
  exact (List.pairwise_append.mp haligned.apart).2.2 t ht u hu

namespace SeatedRow

theorem nil : SeatedRow ts [] :=
  ⟨by simp, .nil⟩

theorem single (h : e.Seated ts) : SeatedRow ts [e] :=
  ⟨by simpa using h, List.pairwise_singleton _ _⟩

/-- A row sits among more tokens. -/
theorem mono (h : SeatedRow ts es) (hsub : ts ⊆ us) : SeatedRow us es :=
  ⟨fun e he => (h.each e he).mono hsub, h.apart⟩

/-- One row behind the other. -/
theorem append (haligned : Aligned (ts ++ us)) (h : SeatedRow ts es) (h' : SeatedRow us es') :
    SeatedRow (ts ++ us) (es ++ es') where
  each := List.forall_mem_append.mpr ⟨(h.mono (List.subset_append_left ts us)).each,
    (h'.mono (List.subset_append_right ts us)).each⟩
  apart := List.pairwise_append.mpr ⟨h.apart, h'.apart, fun e he e' he' =>
    before_of_endsAmong haligned (h.each e he).ends (h'.each e' he').ends⟩

theorem cons (haligned : Aligned (ts ++ us)) (h : e.Seated ts) (h' : SeatedRow us es) :
    SeatedRow (ts ++ us) (e :: es) :=
  (single h).append haligned h'

end SeatedRow

/-- An expression that is made of rows of such expressions, which its span holds. -/
theorem Seated.of_rows (hends : e.span.EndsAmong ts) (hforward : e.span.Forward)
    (hrows : ∀ row ∈ e.rows, SeatedRow ts row ∧ ∀ part ∈ row, e.span.Contains part.span)
    (hfield : ∀ field ∈ e.field?, e.span.Contains field.span) : e.Seated ts where
  ends := hends
  nested := .of_parts ⟨hforward, meets_of_endsAmong hends,
      fun _ ⟨row, hrow, hpart⟩ => (hrows row hrow).2 _ hpart, hfield,
      fun row hrow => (hrows row hrow).1.apart⟩
    fun row hrow part hpart => ((hrows row hrow).1.each part hpart).nested

/-- What has no parts sits among the tokens between which it ends. -/
theorem Seated.leaf (hends : e.span.EndsAmong ts) (hforward : e.span.Forward) (hrows : e.rows = [])
    (hfield : e.field? = Option.none) : e.Seated ts :=
  ⟨hends, .leaf hforward (meets_of_endsAmong hends) hrows hfield⟩

/-! ### The phrases of the grammar -/

/-- What the phrase is made of is seated among its tokens.  What goes on with an expression leads to
    one that is seated among its tokens and those of the first. -/
def Phrase.Seated : Phrase → List Token → Prop
  | .read e, ts | .operand e, ts | .atom e, ts | .subscripts e, ts => Expr.Seated ts e
  | .unionTail b e, ts | .trailers b e, ts =>
    ∀ us, Aligned (us ++ ts) → Expr.Seated us b → Expr.Seated (us ++ ts) e
  | .elements es, ts | .moreElements es, ts => SeatedRow ts es
  | .dictEntry entry, ts => SeatedRow ts (entry.1.toList ++ [entry.2])
  | .dictEntries entries, ts =>
    SeatedRow ts (entries.flatMap fun entry => entry.1.toList ++ [entry.2])
  | .argument arg, ts => Expr.Seated ts (arg.elim id Prod.snd)
  | .arguments args, ts => SeatedRow ts args.1 ∧ SeatedRow ts (args.2.map Prod.snd)

/-- Both parts of aligned tokens are aligned. -/
theorem aligned_of_append (h : Aligned (ts ++ us)) : Aligned ts ∧ Aligned us :=
  ⟨h.sublist (List.sublist_append_left ts us), h.sublist (List.sublist_append_right ts us)⟩

/-- So are those behind the first. -/
theorem aligned_of_cons (h : Aligned (t :: ts)) : Aligned ts :=
  h.sublist (List.sublist_cons_self t ts)

/-- What stands in brackets is in the span from one bracket to the other. -/
theorem contains_cover_brackets (haligned : Aligned (o :: (ts ++ [c]))) {s : Span}
    (h : s.EndsAmong ts) : (o.span.cover c.span).Contains s := by
  have hbehind : Aligned ([o] ++ ts) := haligned.sublist (by simp)
  have hbefore : Aligned (ts ++ [c]) := aligned_of_cons haligned
  exact Span.contains_cover_of_before (haligned.forward o (by simp)) (haligned.forward c (by simp))
    (before_of_endsAmong hbehind (.of_mem (List.mem_singleton_self o)) h)
    (before_of_endsAmong hbefore h (.of_mem (List.mem_singleton_self c)))

/-- An expression in brackets of its own. -/
theorem Seated.brackets (haligned : Aligned (o :: (ts ++ [c]))) {row : List Expr}
    (hspan : e.span = o.span.cover c.span) (hrows : e.rows = [row]) (hfield : e.field? = Option.none)
    (hrow : SeatedRow ts row) : e.Seated (o :: (ts ++ [c])) := by
  refine .of_rows ?_ ?_ ?_ (by simp [hfield])
  · rw [hspan]
    exact (Span.EndsAmong.of_mem (by simp)).cover (.of_mem (by simp))
  · rw [hspan]
    exact Span.Forward.cover (haligned.forward o (by simp)) _
  · rw [hrows, hspan]
    rintro _ (_ | ⟨_, ⟨⟩⟩)
    exact ⟨hrow.mono (by simp), fun part hpart =>
      contains_cover_brackets haligned (hrow.each part hpart).ends⟩

/-- A union sits among the tokens of its sides. -/
theorem Seated.union {l r : Expr} (haligned : Aligned (us ++ t :: ts)) (hl : l.Seated us)
    (hr : r.Seated ts) : (union l r (l.span.cover r.span)).Seated (us ++ t :: ts) := by
  have hr' : r.Seated (t :: ts) := hr.mono (List.subset_cons_self t ts)
  refine .of_rows ?_ (hl.nested.nested.forward.cover _) ?_ (by simp [field?])
  · exact (hl.ends.mono (by simp)).cover (hr.ends.mono (by simp))
  · rintro _ (_ | ⟨_, ⟨⟩⟩)
    refine ⟨.cons haligned hl (.single hr'), ?_⟩
    rintro _ (_ | ⟨_, _ | ⟨_, ⟨⟩⟩⟩)
    · exact Span.contains_cover_left _ _
    · exact Span.contains_cover_right _ _

/-- An attribute sits among those of its base and its name. -/
theorem Seated.attr {b : Expr} {field : Ident} (hb : b.Seated us) (hfield : field.span = t.span) :
    (attr b field (b.span.cover t.span)).Seated (us ++ [o, t]) := by
  refine .of_rows ?_ (hb.nested.nested.forward.cover _) ?_ ?_
  · exact (hb.ends.mono (by simp)).cover (.of_mem (by simp))
  · rintro _ (_ | ⟨_, ⟨⟩⟩)
    refine ⟨.single (hb.mono (by simp)), ?_⟩
    rintro _ (_ | ⟨_, ⟨⟩⟩)
    exact Span.contains_cover_left _ _
  · rintro _ ⟨⟩
    rw [hfield]
    exact Span.contains_cover_right _ _

/-- Behind an expression stand brackets with more in them. -/
theorem Seated.applied {b : Expr} (haligned : Aligned (us ++ o :: (ts ++ [c]))) (hb : b.Seated us)
    (hspan : e.span = b.span.cover c.span) (hfield : e.field? = Option.none)
    (hrows : ∀ row ∈ e.rows, ∃ args, row = b :: args ∧ SeatedRow ts args) :
    e.Seated (us ++ o :: (ts ++ [c])) := by
  have hforward := hb.nested.nested.forward
  refine .of_rows ?_ ?_ (fun row hrow => ?_) (by simp [hfield])
  · rw [hspan]
    exact (hb.ends.mono (by simp)).cover (.of_mem (by simp))
  · rw [hspan]
    exact hforward.cover _
  · obtain ⟨args, rfl, hargs⟩ := hrows row hrow
    refine ⟨.cons haligned hb (hargs.mono (by simp)), List.forall_mem_cons.mpr ⟨?_, fun arg harg => ?_⟩⟩
    · rw [hspan]
      exact Span.contains_cover_left _ _
    · have hends := (hargs.each arg harg).ends
      have hbehind : Aligned (us ++ ts) := haligned.sublist (by simp)
      have hbefore : Aligned (ts ++ [c]) := haligned.sublist (by simp)
      rw [hspan]
      exact Span.contains_cover_of_before hforward (haligned.forward c (by simp))
        (before_of_endsAmong hbehind hb.ends hends)
        (before_of_endsAmong hbefore hends (.of_mem (List.mem_singleton_self c)))

/-- Several expressions in a subscript. -/
theorem Seated.items (h : SeatedRow ts (e :: es)) :
    (Expr.tuple (e :: es) (es.foldl (fun s e => s.cover e.span) e.span)).Seated ts := by
  obtain ⟨he, hes⟩ := List.forall_mem_cons.mp h.each
  refine ⟨?_, .items (fun part hpart => (h.each part hpart).nested) h.apart⟩
  exact foldl_cover_induction (P := (Span.EndsAmong · ts)) (fun _ _ hs hs' => hs.cover hs') he.ends
    fun e he => (hes e he).ends

/-- The span of joined literals ends behind its start. -/
theorem joinLiterals_forward (value : StringValue) {span : Span} (prev : Token) (ts : List Token)
    (h : span.Forward) : (joinLiterals value span prev ts).2.1.Forward := by
  induction ts generalizing value span prev with
  | nil => exact h
  | cons t ts ih =>
    rw [joinLiterals]
    split
    · exact ih _ _ (h.cover _)
    · exact h

/-- A token that is an expression has no parts. -/
theorem leaf_of_ofToken? (h : ofToken? t = some e) : e.rows = [] ∧ e.field? = Option.none := by
  unfold ofToken? at h
  split at h <;> cases h <;> exact ⟨rfl, rfl⟩

/-- **The expressions of the modelled language are nested all the way down.** -/
theorem Parses.seated {p : Phrase} {ts : List Token} (h : Parses p ts) (haligned : Aligned ts) :
    p.Seated ts := by
  -- tokens that are aligned as a whole are aligned in each part, where the hypotheses apply
  induction h with
  | @read l e ts us _ _ ih ih' | @applied l e ts us _ _ ih ih' =>
    obtain ⟨hts, hus⟩ := aligned_of_append haligned
    exact ih' hus ts haligned (ih hts)
  | unionEnd | trailersEnd => exact fun us _ hb => by simpa using hb
  | @unionMore l r e p ts us _ _ _ ih ih' =>
    -- the union so far is the left operand of what goes on with it
    intro vs hall hl
    obtain ⟨hts, hus⟩ := aligned_of_append (aligned_of_cons haligned)
    have hfront : Aligned (vs ++ p :: ts) := hall.sublist (by simp)
    simpa using ih' hus (vs ++ p :: ts) (by simpa using hall) (.union hfront hl (ih hts))
  | negative =>
    exact .leaf ((Span.EndsAmong.of_mem (by simp)).cover (.of_mem (by simp)))
      (Span.Forward.cover (haligned.forward _ (by simp)) _) rfl rfl
  -- each trailer makes an expression of what stands in front, with all tokens up to its own last
  | @attr b e d t us _ _ _ ih =>
    intro vs hall hb
    have hus : Aligned us := aligned_of_cons (aligned_of_cons haligned)
    simpa using ih hus (vs ++ [d, t]) (by simpa using hall) (.attr hb rfl)
  | @subscript b i e o c ts us _ _ _ _ ih ih' =>
    intro vs hall hb
    obtain ⟨hts, hus⟩ := aligned_of_append (aligned_of_cons haligned)
    have hfront : Aligned (vs ++ o :: (ts ++ [c])) := hall.sublist (by simp)
    have hwhole := Seated.applied (e := Expr.subscript b i (b.span.cover c.span)) hfront hb rfl rfl
      (by simpa [rows] using SeatedRow.single (ih hts))
    simpa using ih' (aligned_of_cons hus) (vs ++ o :: (ts ++ [c])) (by simpa using hall) hwhole
  | @call b e args o c ts us _ _ _ _ ih ih' =>
    intro vs hall hb
    obtain ⟨hts, hus⟩ := aligned_of_append (aligned_of_cons haligned)
    have hfront : Aligned (vs ++ o :: (ts ++ [c])) := hall.sublist (by simp)
    obtain ⟨hargs, hkeywords⟩ := ih hts
    have hwhole := Seated.applied (e := Expr.call b args.1 args.2 (b.span.cover c.span)) hfront hb rfl rfl
      (by simp [rows, hargs, hkeywords])
    simpa using ih' (aligned_of_cons hus) (vs ++ o :: (ts ++ [c])) (by simpa using hall) hwhole
  | @single t e hsingle =>
    have hspan := span_of_ofToken? hsingle
    obtain ⟨hrows, hfield⟩ := leaf_of_ofToken? hsingle
    exact .leaf (hspan ▸ .of_mem (by simp)) (hspan ▸ haligned.forward t (by simp)) hrows hfield
  | @literals t ts hstrings =>
    exact .leaf (Parses.literals hstrings).endsAmong
      (joinLiterals_forward _ t (t :: ts) (haligned.forward t (by simp))) rfl rfl
  | emptyTuple =>
    have hnone : SeatedRow [] [] := .nil
    exact .brackets haligned rfl rfl rfl hnone
  | @group e o c ts _ _ _ ih =>
    -- the span is that of the expression inside, without the parentheses
    exact (ih (aligned_of_append (aligned_of_cons haligned)).1).mono
      (List.subset_cons_of_subset o (List.subset_append_left ts [c]))
  | @tuple e es o c ts us _ _ _ _ _ ih ih' =>
    have hinner := (aligned_of_append (aligned_of_cons haligned)).1
    obtain ⟨hts, hus⟩ := aligned_of_append hinner
    exact .brackets haligned rfl rfl rfl (.cons hinner (ih hts) (ih' hus))
  | list _ _ _ ih | dict _ _ _ ih =>
    exact .brackets haligned rfl rfl rfl (ih (aligned_of_append (aligned_of_cons haligned)).1)
  -- lists of expressions are a row, one behind the other
  | noElements | noMore | noEntries | lastComma => exact SeatedRow.nil
  | @elements e es ts us _ _ ih ih' =>
    obtain ⟨hts, hus⟩ := aligned_of_append haligned
    exact SeatedRow.cons haligned (ih hts) (ih' hus)
  | @moreElements e es t ts us _ _ _ ih ih' =>
    have hinner := aligned_of_cons haligned
    obtain ⟨hts, hus⟩ := aligned_of_append hinner
    exact (SeatedRow.cons hinner (ih hts) (ih' hus)).mono (List.subset_cons_self t _)
  | index _ ih | positional _ ih => exact ih haligned
  | @indices e es ts us _ _ _ ih ih' =>
    obtain ⟨hts, hus⟩ := aligned_of_append haligned
    exact .items (.cons haligned (ih hts) (ih' hus))
  | @spread e s ts _ _ ih =>
    exact SeatedRow.single ((ih (aligned_of_cons haligned)).mono (List.subset_cons_self s ts))
  | @pair k v c ts us _ _ _ ih ih' =>
    obtain ⟨hts, hus⟩ := aligned_of_append haligned
    have hvalue := (ih' (aligned_of_cons hus)).mono (List.subset_cons_self c us)
    exact SeatedRow.cons haligned (ih hts) (.single hvalue)
  | lastEntry _ ih => simpa [Phrase.Seated] using ih haligned
  | @entries entry entries c ts us _ _ _ ih ih' =>
    obtain ⟨hts, hus⟩ := aligned_of_append haligned
    exact (ih hts).append haligned ((ih' (aligned_of_cons hus)).mono (List.subset_cons_self c us))
  | @keywordSpread e s ts _ _ ih | @positionalSpread e s ts _ _ ih =>
    exact (ih (aligned_of_cons haligned)).mono (List.subset_cons_self s ts)
  | @keyword e k q ts _ _ _ ih =>
    exact (ih (aligned_of_cons (aligned_of_cons haligned))).mono (by simp)
  | noArguments => exact ⟨.nil, .nil⟩
  | @lastArgument arg ts _ ih =>
    have hfirst := SeatedRow.single (ih haligned)
    cases arg with
    | inl e => exact ⟨hfirst, .nil⟩
    | inr key => exact ⟨.nil, hfirst⟩
  | @arguments arg args c ts us _ _ _ ih ih' =>
    obtain ⟨hts, hus⟩ := aligned_of_append haligned
    obtain ⟨hargs, hkeywords⟩ := ih' (aligned_of_cons hus)
    have hsub : us ⊆ ts ++ c :: us := by simp
    -- the argument is put in front of the row that it belongs to
    cases arg with
    | inl e =>
      exact ⟨.cons haligned (ih hts) (hargs.mono (List.subset_cons_self c us)), hkeywords.mono hsub⟩
    | inr key =>
      exact ⟨hargs.mono hsub, .cons haligned (ih hts) (hkeywords.mono (List.subset_cons_self c us))⟩

end Expr
end PackageDoc
