import PackageDoc.Proofs.Annotation.Readback

namespace PackageDoc

/-!
# Expressions in another place

What tokens are does not depend on where they stand in the text: when all of them are moved, so is
what they are, and nothing else of it changes.

* `Expr.mapSpan` — an expression with the places of all its parts changed;
* `Expr.Parses.mapSpan` — moved tokens are the moved phrase;
* `Expr.shift` and `Expr.SameButPlace` — expressions that are equal up to their place.
-/

/-! ### Spans -/

namespace Span

/-- A span, `k` bytes further on. -/
def shift (k : Nat) (s : Span) : Span :=
  ⟨s.start + k, s.stop + k⟩

/-- A span, `k` bytes further back. -/
def back (k : Nat) (s : Span) : Span :=
  ⟨s.start - k, s.stop - k⟩

/-- A cover is moved by moving what it covers. -/
theorem shift_cover (k : Nat) (s t : Span) : (s.cover t).shift k = (s.shift k).cover (t.shift k) := by
  simp only [cover, shift, mk.injEq]
  omega

/-- It is moved back in the same way. -/
theorem back_cover (k : Nat) (s t : Span) : (s.cover t).back k = (s.back k).cover (t.back k) := by
  simp only [cover, back, mk.injEq]
  omega

/-- Moving back undoes moving. -/
theorem back_shift (k : Nat) (s : Span) : (s.shift k).back k = s := by
  simp [back, shift]

end Span

/-- A token in another place. -/
def Token.mapSpan (f : Span → Span) (t : Token) : Token :=
  { t with span := f t.span }

@[simp] theorem Token.mapSpan_kind (f : Span → Span) (t : Token) : (t.mapSpan f).kind = t.kind := rfl

theorem Token.mapSpan_kind_eq (f : Span → Span) {t : Token} {kind : TokenKind} (h : t.kind = kind) :
    (t.mapSpan f).kind = kind := h

@[simp] theorem Token.mapSpan_text (f : Span → Span) (t : Token) : (t.mapSpan f).text = t.text := rfl

@[simp] theorem Token.mapSpan_span (f : Span → Span) (t : Token) : (t.mapSpan f).span = f t.span := rfl

/-! ### Expressions -/

namespace Expr

variable (f : Span → Span)

mutual

/-- An expression with the places of all its parts changed. -/
def mapSpan : Expr → Expr
  | name ident => name ⟨ident.name, f ident.span⟩
  | attr value field s => attr value.mapSpan ⟨field.name, f field.span⟩ (f s)
  | subscript value index s => subscript value.mapSpan index.mapSpan (f s)
  | call func args keywords s => call func.mapSpan (mapSpanAll args) (mapSpanKeywords keywords) (f s)
  | str value isBytes isFormatted s => str value isBytes isFormatted (f s)
  | num text s => num text (f s)
  | bool value s => bool value (f s)
  | none s => none (f s)
  | ellipsis s => ellipsis (f s)
  | tuple items s => tuple (mapSpanAll items) (f s)
  | list items s => list (mapSpanAll items) (f s)
  | dict entries s => dict (mapSpanEntries entries) (f s)
  | union left right s => union left.mapSpan right.mapSpan (f s)
  | unmodelled s => unmodelled (f s)

/-- Expressions with their places changed. -/
def mapSpanAll : List Expr → List Expr
  | [] => []
  | e :: es => e.mapSpan :: mapSpanAll es

/-- Keyword arguments with their places changed. -/
def mapSpanKeywords : List (Option String × Expr) → List (Option String × Expr)
  | [] => []
  | (key, value) :: rest => (key, value.mapSpan) :: mapSpanKeywords rest

/-- Entries of a dictionary with their places changed. -/
def mapSpanEntries : List (Option Expr × Expr) → List (Option Expr × Expr)
  | [] => []
  | (some key, value) :: rest => (some key.mapSpan, value.mapSpan) :: mapSpanEntries rest
  | (Option.none, value) :: rest => (Option.none, value.mapSpan) :: mapSpanEntries rest

end

/-- A list of expressions is moved by moving each. -/
theorem mapSpanAll_eq (es : List Expr) : mapSpanAll f es = es.map (mapSpan f) := by
  induction es with
  | nil => rfl
  | cons e es ih => rw [mapSpanAll, ih, List.map_cons]

/-- So are keyword arguments. -/
theorem mapSpanKeywords_eq (ks : List (Option String × Expr)) :
    mapSpanKeywords f ks = ks.map fun k => (k.1, k.2.mapSpan f) := by
  induction ks with
  | nil => rfl
  | cons k ks ih => rw [mapSpanKeywords, ih, List.map_cons]

/-- So are the entries of a dictionary. -/
theorem mapSpanEntries_eq (ks : List (Option Expr × Expr)) :
    mapSpanEntries f ks = ks.map fun k => (k.1.map (mapSpan f), k.2.mapSpan f) := by
  induction ks with
  | nil => rfl
  | cons k ks ih =>
    obtain ⟨key, value⟩ := k
    cases key <;> simp [mapSpanEntries, ih]

/-- The span of an expression that is moved is its span, moved. -/
theorem span_mapSpan (e : Expr) : (e.mapSpan f).span = f e.span := by
  cases e <;> rfl

/-- What a reader reads, with its places changed. -/
def Phrase.mapSpan : Phrase → Phrase
  | .read e => .read (e.mapSpan f)
  | .unionTail left e => .unionTail (left.mapSpan f) (e.mapSpan f)
  | .operand e => .operand (e.mapSpan f)
  | .trailers base e => .trailers (base.mapSpan f) (e.mapSpan f)
  | .atom e => .atom (e.mapSpan f)
  | .elements es => .elements (es.map (Expr.mapSpan f))
  | .moreElements es => .moreElements (es.map (Expr.mapSpan f))
  | .subscripts e => .subscripts (e.mapSpan f)
  | .dictEntry entry => .dictEntry (entry.1.map (Expr.mapSpan f), entry.2.mapSpan f)
  | .dictEntries entries =>
    .dictEntries (entries.map fun k => (k.1.map (Expr.mapSpan f), k.2.mapSpan f))
  | .argument arg => .argument (arg.map (Expr.mapSpan f) fun k => (k.1, k.2.mapSpan f))
  | .arguments args =>
    .arguments (args.1.map (Expr.mapSpan f), args.2.map fun k => (k.1, k.2.mapSpan f))

variable {f}

/-- A token that is moved is read as the expression that it was, moved. -/
theorem ofToken?_mapSpan {t : Token} {e : Expr} (h : ofToken? t = some e) :
    ofToken? (t.mapSpan f) = some (e.mapSpan f) := by
  unfold ofToken? at h ⊢
  rw [Token.mapSpan_kind]
  split at h <;> cases h <;> simp [*, Expr.mapSpan]

/-- Adding an argument to a list of arguments goes with moving them. -/
theorem consArgument_mapSpan (arg : Expr ⊕ (Option String × Expr))
    (args : List Expr × List (Option String × Expr)) :
    consArgument (arg.map (mapSpan f) fun k => (k.1, k.2.mapSpan f))
        (args.1.map (mapSpan f), args.2.map fun k => (k.1, k.2.mapSpan f)) =
      ((consArgument arg args).1.map (mapSpan f),
        (consArgument arg args).2.map fun k => (k.1, k.2.mapSpan f)) := by
  cases arg <;> rfl

section Cover

variable (hf : ∀ s t : Span, f (s.cover t) = (f s).cover (f t))
include hf

/-- String literals that are moved are joined to the same value. -/
theorem joinLiterals_mapSpan (value : StringValue) (span : Span) (prev prev' : Token)
    (ts : List Token) :
    (joinLiterals value (f span) prev' (ts.map (Token.mapSpan f))).1 = (joinLiterals value span prev ts).1 ∧
      (joinLiterals value (f span) prev' (ts.map (Token.mapSpan f))).2.1 =
        f (joinLiterals value span prev ts).2.1 := by
  induction ts generalizing value span prev prev' with
  | nil => exact ⟨rfl, rfl⟩
  | cons t ts ih =>
    rw [List.map_cons, joinLiterals, joinLiterals, Token.mapSpan_kind]
    split
    · rw [Token.mapSpan_text, Token.mapSpan_span, ← hf]
      exact ih ..
    · exact ⟨rfl, rfl⟩

/-- The string that they make is the one that they made, moved. -/
theorem ofLiterals_mapSpan (t : Token) (ts : List Token) :
    ofLiterals (t.mapSpan f) (ts.map (Token.mapSpan f)) = (ofLiterals t ts).mapSpan f := by
  obtain ⟨hvalue, hspan⟩ := joinLiterals_mapSpan hf ⟨"", false, false⟩ t.span t (t.mapSpan f) (t :: ts)
  rw [List.map_cons] at hvalue hspan
  simp only [ofLiterals, Token.mapSpan_span, hvalue, hspan, Expr.mapSpan]

/-- The span that covers several expressions is moved by moving them. -/
theorem foldl_cover_mapSpan (es : List Expr) (s : Span) :
    (es.map (mapSpan f)).foldl (fun s e => s.cover e.span) (f s) =
      f (es.foldl (fun s e => s.cover e.span) s) := by
  induction es generalizing s with
  | nil => rfl
  | cons e es ih => rw [List.map_cons, List.foldl_cons, span_mapSpan, ← hf, ih, List.foldl_cons]

/-- Moved tokens are the moved phrase. -/
theorem Parses.mapSpan {p : Phrase} {ts : List Token} (h : Parses p ts) :
    Parses (p.mapSpan f) (ts.map (Token.mapSpan f)) := by
  have moved {t : Token} {kind : TokenKind} (h : t.kind = kind) := Token.mapSpan_kind_eq f h
  induction h with
  -- what is read so far takes its place from the tokens behind it, so `hf` moves it too
  | read _ _ ihleft ihtail =>
    rw [List.map_append]
    exact .read ihleft ihtail
  | unionEnd e => exact .unionEnd _
  | unionMore hpipe _ _ ihright ihtail =>
    rw [List.map_cons, List.map_append]
    refine .unionMore hpipe ihright ?_
    simpa only [Phrase.mapSpan, Expr.mapSpan, hf, span_mapSpan] using ihtail
  | negative hminus hnumber =>
    simp only [Phrase.mapSpan, Expr.mapSpan, hf]
    exact .negative (moved hminus) (moved hnumber)
  | applied _ _ ihbase ihtail =>
    rw [List.map_append]
    exact .applied ihbase ihtail
  | trailersEnd e => exact .trailersEnd _
  | attr hdot hfield _ ihtail =>
    refine .attr (moved hdot) (moved hfield) ?_
    simpa only [Phrase.mapSpan, Expr.mapSpan, hf, span_mapSpan, Token.mapSpan_text,
      Token.mapSpan_span] using ihtail
  | subscript hopen _ hclose _ ihindex ihtail =>
    rw [List.map_cons, List.map_append, List.map_cons]
    refine .subscript (moved hopen) ihindex (moved hclose) ?_
    simpa only [Phrase.mapSpan, Expr.mapSpan, hf, span_mapSpan, Token.mapSpan_span] using ihtail
  | call hopen _ hclose _ ihinner ihtail =>
    rw [List.map_cons, List.map_append, List.map_cons]
    refine .call (moved hopen) ihinner (moved hclose) ?_
    simpa only [Phrase.mapSpan, Expr.mapSpan, hf, span_mapSpan, mapSpanAll_eq, mapSpanKeywords_eq,
      Token.mapSpan_span] using ihtail
  -- what stands on its own, or in brackets
  | single hsingle => exact .single (ofToken?_mapSpan hsingle)
  | literals hstrings =>
    simp only [Phrase.mapSpan, ← ofLiterals_mapSpan hf]
    refine .literals fun u hu => ?_
    rw [← List.map_cons] at hu
    obtain ⟨v, hv, rfl⟩ := List.mem_map.mp hu
    exact hstrings v hv
  | emptyTuple hopen hclose =>
    simp only [Phrase.mapSpan, Expr.mapSpan, mapSpanAll, hf]
    exact .emptyTuple (moved hopen) (moved hclose)
  | group hopen _ hclose ih =>
    rw [List.map_cons, List.map_append]
    exact .group hopen ih hclose
  | tuple hopen _ _ hseveral hclose ihfirst ihothers =>
    rw [List.map_cons, List.map_append, List.map_append]
    simp only [Phrase.mapSpan, Expr.mapSpan, mapSpanAll, mapSpanAll_eq, hf]
    exact .tuple (moved hopen) ihfirst ihothers (by simpa using hseveral) (moved hclose)
  | list hopen _ hclose ih =>
    rw [List.map_cons, List.map_append]
    simp only [Phrase.mapSpan, Expr.mapSpan, mapSpanAll_eq, hf]
    exact .list (moved hopen) ih (moved hclose)
  | dict hopen _ hclose ih =>
    rw [List.map_cons, List.map_append]
    simp only [Phrase.mapSpan, Expr.mapSpan, mapSpanEntries_eq, hf]
    exact .dict (moved hopen) ih (moved hclose)
  -- lists of expressions have no places of their own
  | noElements => exact .noElements
  | elements _ _ ihfirst ihothers =>
    rw [List.map_append]
    exact .elements ihfirst ihothers
  | noMore => exact .noMore
  | lastComma hcomma => exact .lastComma hcomma
  | moreElements hcomma _ _ ihfirst ihothers =>
    rw [List.map_cons, List.map_append]
    exact .moreElements hcomma ihfirst ihothers
  | index _ ih => exact .index ih
  | @indices e es _ _ _ _ hseveral ihfirst ihothers =>
    -- several in a subscript are a tuple without brackets, which stands where they do together
    have hspan := foldl_cover_mapSpan hf es e.span
    rw [← span_mapSpan f e] at hspan
    rw [List.map_append]
    simp only [Phrase.mapSpan, Expr.mapSpan, mapSpanAll, mapSpanAll_eq, ← hspan]
    exact .indices ihfirst ihothers (by simpa using hseveral)
  | spread hstar _ ih => exact .spread hstar ih
  | pair _ hcolon _ ihkey ihvalue =>
    rw [List.map_append, List.map_cons]
    exact .pair ihkey hcolon ihvalue
  | noEntries => exact .noEntries
  | lastEntry _ ih => exact .lastEntry ih
  | entries _ hcomma _ ihfirst ihothers =>
    rw [List.map_append, List.map_cons]
    exact .entries ihfirst hcomma ihothers
  | keywordSpread hstar _ ih => exact .keywordSpread hstar ih
  | keyword hkey hequals _ ih => exact .keyword (moved hkey) (moved hequals) ih
  | positionalSpread hstar _ ih => exact .positionalSpread hstar ih
  | positional _ ih => exact .positional ih
  | noArguments => exact .noArguments
  | lastArgument _ ih =>
    simp only [Phrase.mapSpan, ← consArgument_mapSpan]
    exact .lastArgument ih
  | arguments _ hcomma _ ihfirst ihothers =>
    rw [List.map_append, List.map_cons]
    simp only [Phrase.mapSpan, ← consArgument_mapSpan]
    exact .arguments ihfirst hcomma ihothers

end Cover

/-! ### Places -/

/-- An expression, `k` bytes further on. -/
def shift (k : Nat) (e : Expr) : Expr :=
  e.mapSpan (Span.shift k)

/-- Two expressions are equal up to a shift of all their places by the same number of bytes. -/
def SameButPlace (e e' : Expr) : Prop :=
  ∃ k, e.shift k = e' ∨ e'.shift k = e

/-- Expressions that differ by their place alone are equally long. -/
theorem SameButPlace.length_eq {e e' : Expr} (h : e.SameButPlace e') :
    e.span.stop - e.span.start = e'.span.stop - e'.span.start := by
  have hlength : ∀ (k : Nat) (e : Expr),
      (e.shift k).span.stop - (e.shift k).span.start = e.span.stop - e.span.start := by
    intro k e
    rw [shift, span_mapSpan]
    simp only [Span.shift]
    omega
  obtain ⟨k, rfl | rfl⟩ := h
  · exact (hlength k e).symm
  · exact hlength k e'

end Expr
end PackageDoc
