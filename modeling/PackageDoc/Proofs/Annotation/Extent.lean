import PackageDoc.Proofs.Annotation.Moved
import PackageDoc.Proofs.Layout.Lines

namespace PackageDoc

/-!
# Where an expression stands

An expression in parentheses stands where it does without them.  So the tokens between its first and
its last byte need not be an expression: they are one when every bracket among them is closed.

* `Balanced` — every bracket among some tokens is closed;
* `Expr.Parses.balanced` — the tokens of a phrase are balanced;
* `Expr.Framed` — the tokens where an expression stands, and the parentheses around them;
* `Expr.Parses.framed` — the tokens of every expression are framed like that.
-/

/-! ### Brackets -/

/-- How many brackets are open behind a token, or `none` when it closes one that is not open. -/
def TokenKind.depthBehind? (depth : Nat) (kind : TokenKind) : Option Nat :=
  if kind.isOpenBracket then some (depth + 1)
  else if kind.isCloseBracket then if depth = 0 then none else some (depth - 1)
  else some depth

/-- How many brackets are open behind some tokens. -/
def depthBehind? (depth : Nat) (ts : List Token) : Option Nat :=
  ts.foldlM (fun d t => t.kind.depthBehind? d) depth

@[simp] theorem depthBehind?_nil (depth : Nat) : depthBehind? depth [] = some depth := rfl

/-- The brackets that are open behind some tokens are found token by token. -/
theorem depthBehind?_cons (depth : Nat) (t : Token) (ts : List Token) :
    depthBehind? depth (t :: ts) = (t.kind.depthBehind? depth).bind fun d => depthBehind? d ts :=
  List.foldlM_cons

/-- Behind two rows of tokens are the brackets that the second leaves of those behind the first. -/
theorem depthBehind?_append (depth : Nat) (ts us : List Token) :
    depthBehind? depth (ts ++ us) = (depthBehind? depth ts).bind fun d => depthBehind? d us :=
  List.foldlM_append

/-- Brackets are counted by kinds, not by places. -/
theorem depthBehind?_mapSpan (f : Span → Span) (depth : Nat) (ts : List Token) :
    depthBehind? depth (ts.map (Token.mapSpan f)) = depthBehind? depth ts := by
  induction ts generalizing depth with
  | nil => rfl
  | cons t ts ih => simp only [List.map_cons, depthBehind?_cons, Token.mapSpan_kind, ih]

/-- What can stand at some depth can stand further inside. -/
theorem TokenKind.depthBehind?_add {kind : TokenKind} {depth depth' : Nat} (k : Nat)
    (h : kind.depthBehind? depth = some depth') : kind.depthBehind? (depth + k) = some (depth' + k) := by
  unfold depthBehind? at h ⊢
  split_ifs at h ⊢ <;> grind

/-- Brackets that are open all along make no difference to the others. -/
theorem depthBehind?_add {depth depth' : Nat} (k : Nat) {ts : List Token}
    (h : depthBehind? depth ts = some depth') : depthBehind? (depth + k) ts = some (depth' + k) := by
  induction ts generalizing depth with
  | nil =>
    obtain rfl := Option.some.inj h
    rfl
  | cons t ts ih =>
    rw [depthBehind?_cons] at h ⊢
    obtain ⟨d, ht, hts⟩ := Option.bind_eq_some_iff.mp h
    rw [TokenKind.depthBehind?_add k ht, Option.bind_some, ih hts]

/-- Opening brackets are counted one by one. -/
theorem depthBehind?_opens {ts : List Token} (h : ∀ t ∈ ts, t.kind = .lparen) (depth : Nat) :
    depthBehind? depth ts = some (depth + ts.length) := by
  induction ts generalizing depth with
  | nil => rfl
  | cons t ts ih =>
    obtain ⟨ht, hts⟩ := List.forall_mem_cons.mp h
    rw [depthBehind?_cons, ht]
    change depthBehind? (depth + 1) ts = _
    rw [ih hts, List.length_cons]
    congr 1
    omega

/-- Every bracket among the tokens is closed among them, and none besides. -/
def Balanced (ts : List Token) : Prop :=
  ∀ depth, depthBehind? depth ts = some depth

namespace Balanced

variable {ts us : List Token} {t o c : Token}

/-- Tokens whose brackets close one another are balanced at every depth. -/
theorem of_zero (h : depthBehind? 0 ts = some 0) : Balanced ts := by
  intro depth
  have hadd := depthBehind?_add depth h
  rwa [Nat.zero_add] at hadd

/-- Balance does not depend on where tokens stand. -/
theorem mapSpan (h : Balanced ts) (f : Span → Span) : Balanced (ts.map (Token.mapSpan f)) := by
  intro depth
  rw [depthBehind?_mapSpan, h]

theorem nil : Balanced [] := fun _ => rfl

theorem append (hts : Balanced ts) (hus : Balanced us) : Balanced (ts ++ us) := by
  intro depth
  rw [depthBehind?_append, hts, Option.bind_some, hus]

/-- A token that is no bracket changes nothing. -/
theorem cons (ht : t.kind.isOpenBracket = false ∧ t.kind.isCloseBracket = false)
    (hts : Balanced ts) : Balanced (t :: ts) := by
  intro depth
  rw [depthBehind?_cons, TokenKind.depthBehind?, ht.1, ht.2]
  exact hts depth

/-- Tokens without brackets are balanced. -/
theorem of_plain (h : ∀ t ∈ ts, t.kind.isOpenBracket = false ∧ t.kind.isCloseBracket = false) :
    Balanced ts := by
  induction ts with
  | nil => exact .nil
  | cons t ts ih =>
    obtain ⟨ht, hts⟩ := List.forall_mem_cons.mp h
    exact .cons ht (ih hts)

/-- What stands in brackets, and more behind them. -/
theorem group (ts : List Token) (ho : o.kind.isOpenBracket = true) (hts : Balanced ts)
    (hc : c.kind.isOpenBracket = false ∧ c.kind.isCloseBracket = true) (hus : Balanced us) :
    Balanced (o :: (ts ++ c :: us)) := by
  intro depth
  rw [depthBehind?_cons, TokenKind.depthBehind?, if_pos ho, Option.bind_some, depthBehind?_append,
    hts, Option.bind_some, depthBehind?_cons, TokenKind.depthBehind?, hc.1, hc.2]
  exact hus depth

end Balanced

namespace Expr

/-- A token that is an expression on its own is a part of a statement, and no bracket. -/
theorem plain_of_ofToken? {t : Token} {e : Expr} (h : ofToken? t = some e) :
    t.kind.isContent = true ∧ t.kind.isOpenBracket = false ∧ t.kind.isCloseBracket = false := by
  unfold ofToken? at h
  split at h <;> first
    | rename_i hkind
      rw [hkind]
      exact ⟨rfl, rfl, rfl⟩
    | cases h

/-- **The tokens of a phrase are balanced.** -/
theorem Parses.balanced {p : Phrase} {ts : List Token} (h : Parses p ts) : Balanced ts := by
  have plain {t : Token} {kind : TokenKind} (hkind : t.kind = kind)
      (hopen : kind.isOpenBracket = false) (hclose : kind.isCloseBracket = false) :
      t.kind.isOpenBracket = false ∧ t.kind.isCloseBracket = false := by
    rw [hkind]
    exact ⟨hopen, hclose⟩
  have opens {t : Token} {kind : TokenKind} (hkind : t.kind = kind)
      (hopen : kind.isOpenBracket = true) : t.kind.isOpenBracket = true := by rw [hkind, hopen]
  have closes {t : Token} {kind : TokenKind} (hkind : t.kind = kind)
      (hopen : kind.isOpenBracket = false) (hclose : kind.isCloseBracket = true) :
      t.kind.isOpenBracket = false ∧ t.kind.isCloseBracket = true := by
    rw [hkind]
    exact ⟨hopen, hclose⟩
  induction h with
  | unionEnd | trailersEnd | noElements | noMore | noEntries | noArguments => exact .nil
  | read _ _ ih ih' | applied _ _ ih ih' | elements _ _ ih ih' | indices _ _ _ ih ih' =>
    exact ih.append ih'
  | index _ ih | lastEntry _ ih | positional _ ih | lastArgument _ ih => exact ih
  | unionMore hpipe _ _ ih ih' => exact .cons (plain hpipe rfl rfl) (ih.append ih')
  | moreElements hcomma _ _ ih ih' => exact .cons (plain hcomma rfl rfl) (ih.append ih')
  | negative hminus hnumber =>
    exact .cons (plain hminus rfl rfl) (.cons (plain hnumber rfl rfl) .nil)
  | attr hdot hfield _ ih => exact .cons (plain hdot rfl rfl) (.cons (plain hfield rfl rfl) ih)
  | single hsingle => exact .cons (plain_of_ofToken? hsingle).2 .nil
  | literals hstrings => exact .of_plain fun u hu => plain (hstrings u hu) rfl rfl
  | lastComma hcomma => exact .cons (plain hcomma rfl rfl) .nil
  | spread hstar _ ih | keywordSpread hstar _ ih | positionalSpread hstar _ ih =>
    exact .cons (plain hstar rfl rfl) ih
  | keyword hkey hequals _ ih =>
    exact .cons (plain hkey rfl rfl) (.cons (plain hequals rfl rfl) ih)
  | pair _ hcolon _ ih ih' => exact ih.append (.cons (plain hcolon rfl rfl) ih')
  | entries _ hcomma _ ih ih' | arguments _ hcomma _ ih ih' =>
    exact ih.append (.cons (plain hcomma rfl rfl) ih')
  | subscript hopen _ hclose _ ih ih' | call hopen _ hclose _ ih ih' =>
    exact .group _ (opens hopen rfl) ih (closes hclose rfl rfl) ih'
  | emptyTuple hopen hclose =>
    exact .group [] (opens hopen rfl) .nil (closes hclose rfl rfl) .nil
  | group hopen _ hclose ih | list hopen _ hclose ih | dict hopen _ hclose ih =>
    exact .group _ (opens hopen rfl) ih (closes hclose rfl rfl) .nil
  | tuple hopen _ _ _ hclose ih ih' =>
    exact .group _ (opens hopen rfl) (ih.append ih') (closes hclose rfl rfl) .nil

/-- The tokens of a phrase are parts of a statement. -/
theorem Parses.isContent {p : Phrase} {ts : List Token} (h : Parses p ts) :
    ∀ t ∈ ts, t.kind.isContent = true := by
  induction h with
  | single hsingle => simpa using (plain_of_ofToken? hsingle).1
  | literals hstrings =>
    intro u hu
    rw [hstrings u hu]
    rfl
  | _ => simp_all [TokenKind.isContent, or_imp]

/-! ### Parentheses that do not count -/

/-- An operand is an expression. -/
theorem Parses.of_operand {e : Expr} {ts : List Token} (h : Parses (.operand e) ts) :
    Parses (.read e) ts := by
  have hread := Parses.read h (.unionEnd e)
  rwa [List.append_nil] at hread

/-- So is an atom. -/
theorem Parses.of_atom {e : Expr} {ts : List Token} (h : Parses (.atom e) ts) :
    Parses (.read e) ts := by
  have hoperand := Parses.applied h (.trailersEnd e)
  rw [List.append_nil] at hoperand
  exact hoperand.of_operand

/-- The tokens of an expression: those where it stands, in parentheses that do not count.  Those
    where it stands are the expression too when they are balanced, so when none of the parentheses
    in front is closed among them. -/
structure Framed (e : Expr) (ts opens core closes : List Token) : Prop where
  eq : ts = opens ++ core ++ closes
  opened : ∀ t ∈ opens, t.kind = .lparen
  closed : ∀ t ∈ closes, t.kind = .rparen
  start : ∃ first ∈ core.head?, e.span.start = first.span.start
  stop : ∃ last ∈ core.getLast?, e.span.stop = last.span.stop
  parses : Balanced core → Parses (.read e) core

namespace Framed

variable {b e : Expr} {ts us opens core closes mid more : List Token} {o c first last : Token}

/-- An expression that spans its tokens from the first to the last has no brackets around it. -/
theorem whole (first last : Token) (h : Parses (.read e) ts) (hfirst : first ∈ ts.head?)
    (hstart : e.span.start = first.span.start) (hlast : last ∈ ts.getLast?)
    (hstop : e.span.stop = last.span.stop) : Framed e ts [] ts [] where
  eq := by simp
  opened := by simp
  closed := by simp
  start := ⟨first, hfirst, hstart⟩
  stop := ⟨last, hlast, hstop⟩
  parses := fun _ => h

/-- One more pair of parentheses. -/
theorem group (h : Framed e ts opens core closes) (ho : o.kind = .lparen) (hc : c.kind = .rparen) :
    Framed e (o :: (ts ++ [c])) (o :: opens) core (closes ++ [c]) where
  eq := by simp [h.eq]
  opened := List.forall_mem_cons.mpr ⟨ho, h.opened⟩
  closed := List.forall_mem_append.mpr ⟨h.closed, by simpa using hc⟩
  start := h.start
  stop := h.stop
  parses := h.parses

/-- Behind an expression stands what goes on with it, up to parentheses that do not count.  When
    what stands between is balanced, there are none. -/
theorem extend (h : Framed b ts opens core closes) (hts : Balanced ts)
    (hparse : Parses (.read e) (ts ++ us)) (hus : us = mid ++ more)
    (hmore : ∀ t ∈ more, t.kind = .rparen) (hstart : e.span.start = b.span.start)
    (hlast : last ∈ mid.getLast?) (hstop : e.span.stop = last.span.stop) :
    Framed e (ts ++ us) opens (core ++ closes ++ mid) more where
  eq := by simp [h.eq, hus]
  opened := h.opened
  closed := hmore
  start := by
    obtain ⟨first, hfirst, heq⟩ := h.start
    refine ⟨first, ?_, hstart.trans heq⟩
    rw [Option.mem_def] at hfirst
    simp [List.head?_append, hfirst]
  stop := by
    refine ⟨last, ?_, hstop⟩
    rw [Option.mem_def] at hlast
    simp [List.getLast?_append, hlast]
  parses := by
    intro hcore
    -- behind `core ++ closes` the parentheses in front are closed, on their own as well as with them
    have hopens : depthBehind? opens.length (core ++ closes) = some 0 := by
      have hall := hts 0
      rwa [h.eq, List.append_assoc, depthBehind?_append, depthBehind?_opens h.opened,
        Option.bind_some, Nat.zero_add] at hall
    have hnil : opens = [] := by
      have hpart := hcore 0
      rw [depthBehind?_append] at hpart
      obtain ⟨d, hd, -⟩ := Option.bind_eq_some_iff.mp hpart
      have hadd := depthBehind?_add opens.length hd
      rw [Nat.zero_add, hopens] at hadd
      exact List.length_eq_zero_iff.mp (by have := Option.some.inj hadd; omega)
    have hts' : ts = core ++ closes := by simp [h.eq, hnil]
    have hmore' : more = [] := by
      have hall := hparse.balanced 0
      rw [hts', hus, ← List.append_assoc, depthBehind?_append, hcore, Option.bind_some] at hall
      cases more with
      | nil => rfl
      | cons t more =>
        have ht := hmore t List.mem_cons_self
        rw [depthBehind?_cons, ht] at hall
        cases hall
    rwa [hts', hus, hmore', List.append_nil] at hparse

end Framed

/-! ### Every expression -/

/-- Behind `b` the tokens lead to `e`, which ends with the last of them. -/
def Extends (b e : Expr) (ts : List Token) : Prop :=
  e.span.start = b.span.start ∧ ∃ last ∈ ts.getLast?, e.span.stop = last.span.stop

/-- Where the expression of a phrase stands among its tokens. -/
def Phrase.Stands : Phrase → List Token → Prop
  | .read e, ts | .operand e, ts | .atom e, ts => ∃ opens core closes, Framed e ts opens core closes
  | .unionTail b e, ts =>
    b.span.start ≤ b.span.stop → (∀ t ∈ ts, b.span.stop ≤ t.span.start) →
      (ts = [] ∧ e = b) ∨ ∃ mid more, ts = mid ++ more ∧ (∀ t ∈ more, t.kind = .rparen) ∧
        Extends b e mid
  | .trailers b e, ts =>
    b.span.start ≤ b.span.stop → (∀ t ∈ ts, b.span.stop ≤ t.span.start) →
      (ts = [] ∧ e = b) ∨ Extends b e ts
  | _, _ => True

/-- The last of the second row is the last of both. -/
theorem mem_getLast?_append (ts : List Token) {us : List Token} {last : Token}
    (h : last ∈ us.getLast?) :
    last ∈ (ts ++ us).getLast? := by
  rw [Option.mem_def] at h ⊢
  rw [List.getLast?_append, h, Option.some_or]

variable {b e : Expr} {ts us opens core closes : List Token} {t o c : Token}

/-- An expression stands in front of what stands behind its tokens. -/
theorem Framed.forward (h : Framed e ts opens core closes) (hts : Ordered (ts ++ us)) :
    e.span.start ≤ e.span.stop ∧ ∀ t ∈ us, e.span.stop ≤ t.span.start := by
  obtain ⟨first, hfirst, hstart⟩ := h.start
  obtain ⟨last, hlast, hstop⟩ := h.stop
  rw [h.eq] at hts
  have hcore := hts.of_append.1.of_append.1.of_append.2
  have hmem : last ∈ core := List.mem_of_getLast? hlast
  refine ⟨?_, fun t ht => ?_⟩
  · obtain ⟨more, rfl⟩ : ∃ more, core = first :: more := by
      cases core with
      | nil => cases hfirst
      | cons u more => exact ⟨more, by rw [Option.some.inj hfirst]⟩
    rw [hstart, hstop]
    exact le_trans (hcore.start_le_start hmem) (hcore.forward last hmem)
  · rw [hstop]
    exact hts.stop_le_start (by simp [hmem]) ht

/-- A token further, which ends the expression so far. -/
theorem cover_of_forward {s u : Span} (hs : s.start ≤ s.stop) (hu : s.stop ≤ u.start)
    (hforward : u.start ≤ u.stop) : s.cover u = ⟨s.start, u.stop⟩ := by
  simp only [Span.cover, Span.mk.injEq]
  omega

/-- What trailers lead to when their first tokens `us` make `m` of `b`. -/
theorem stands_trailers (us : List Token) {m : Expr} {last : Token} (hb : b.span.start ≤ b.span.stop)
    (hafter : ∀ t ∈ us ++ ts, b.span.stop ≤ t.span.start) (horder : Ordered (us ++ ts))
    (hlast : last ∈ us.getLast?) (hm : m.span = b.span.cover last.span)
    (htail : Ordered ts → Phrase.Stands (.trailers m e) ts) :
    (us ++ ts = [] ∧ e = b) ∨ Extends b e (us ++ ts) := by
  have hmem : last ∈ us := List.mem_of_getLast? hlast
  have hforward := horder.of_append.1.forward last hmem
  rw [cover_of_forward hb (hafter last (List.mem_append_left _ hmem)) hforward] at hm
  have hstop : ∀ t ∈ ts, m.span.stop ≤ t.span.start := by
    intro t ht
    rw [hm]
    exact horder.stop_le_start hmem ht
  have hle : m.span.start ≤ m.span.stop := by
    have hbehind := hafter last (List.mem_append_left _ hmem)
    rw [hm]
    exact le_trans hb (le_trans hbehind hforward)
  -- without further trailers `m` is the expression, and `us` ends it
  obtain ⟨rfl, rfl⟩ | ⟨hstart, last', hlast', hend⟩ := htail horder.of_append.2 hle hstop
  · refine .inr ⟨by rw [hm], last, ?_, by rw [hm]⟩
    rwa [List.append_nil]
  · exact .inr ⟨by rw [hstart, hm], last', mem_getLast?_append us hlast', hend⟩

/-- A trailer in brackets of its own. -/
theorem stands_brackets {m : Expr} (horder : Ordered (o :: (ts ++ c :: us)))
    (hm : m.span = b.span.cover c.span)
    (htail : Ordered us → Phrase.Stands (.trailers m e) us) :
    Phrase.Stands (.trailers b e) (o :: (ts ++ c :: us)) := by
  intro hb hafter
  have heq : o :: (ts ++ c :: us) = (o :: (ts ++ [c])) ++ us := by simp
  rw [heq] at hafter horder ⊢
  exact stands_trailers (o :: (ts ++ [c])) hb hafter horder (mem_getLast?_append (o :: ts) rfl) hm htail

/-- Trailers go on like a union does, with no parentheses behind them. -/
theorem stands_unionTail (h : Phrase.Stands (.trailers b e) ts) :
    Phrase.Stands (.unionTail b e) ts := by
  intro hb hafter
  obtain ⟨rfl, rfl⟩ | hextends := h hb hafter
  · exact .inl ⟨rfl, rfl⟩
  · exact .inr ⟨ts, [], (List.append_nil ts).symm, by simp, hextends⟩

/-- The expression that starts with `b` stands from where `b` does. -/
theorem stands_further (hb : Phrase.Stands (.read b) ts) (hts : Balanced ts)
    (hread : Parses (.read e) (ts ++ us)) (horder : Ordered (ts ++ us))
    (htail : Phrase.Stands (.unionTail b e) us) : Phrase.Stands (.read e) (ts ++ us) := by
  obtain ⟨opens, core, closes, hframed⟩ := hb
  obtain ⟨hforward, hbehind⟩ := hframed.forward horder
  obtain ⟨rfl, rfl⟩ | ⟨mid, more, hus, hmore, hstart, last, hlast, hstop⟩ := htail hforward hbehind
  · rw [List.append_nil]
    exact ⟨opens, core, closes, hframed⟩
  · exact ⟨_, _, _, hframed.extend hts hread hus hmore hstart hlast hstop⟩

/-- What one more member of a union leads to. -/
theorem stands_unionMore {l r : Expr} {p : Token}
    (horder : Ordered (p :: (ts ++ us))) (hright : ∃ opens core closes, Framed r ts opens core closes)
    (htail : Phrase.Stands (.unionTail (union l r (l.span.cover r.span)) e) us) :
    Phrase.Stands (.unionTail l e) (p :: (ts ++ us)) := by
  intro hl hafter
  obtain ⟨opens, core, closes, hframed⟩ := hright
  have hparts : Ordered (ts ++ us) := (show Ordered ([p] ++ (ts ++ us)) from horder).of_append.2
  obtain ⟨hforward, hbehind⟩ := hframed.forward hparts
  obtain ⟨first, hfirst, hstart⟩ := hframed.start
  have hmem : first ∈ ts := by
    rw [hframed.eq]
    simp [List.mem_of_mem_head? hfirst]
  have hcover : l.span.cover r.span = ⟨l.span.start, r.span.stop⟩ := by
    refine cover_of_forward hl ?_ hforward
    rw [hstart]
    exact hafter first (by simp [hmem])
  have hle : l.span.start ≤ r.span.stop := by
    have hl' := hafter first (by simp [hmem])
    omega
  rw [hcover] at htail
  obtain ⟨rfl, rfl⟩ | ⟨mid, more, rfl, hmore, hextends, last, hlast, hstop⟩ := htail hle hbehind
  -- it is the last one: the parentheses around it are behind the union
  · obtain ⟨last, hlast, hstop⟩ := hframed.stop
    refine .inr ⟨p :: (opens ++ core), closes, ?_, hframed.closed, rfl, last, ?_, hstop⟩
    · rw [List.append_nil, hframed.eq]
      simp
    · exact mem_getLast?_append (p :: opens) hlast
  -- there are more: the parentheses around it are inside
  · refine .inr ⟨p :: (ts ++ mid), more, by simp, hmore, hextends, last, ?_, hstop⟩
    exact mem_getLast?_append (p :: ts) hlast

/-- What stands in brackets of its own. -/
theorem framed_brackets (ts : List Token) (h : Parses (.atom e) (o :: (ts ++ [c])))
    (hspan : e.span = o.span.cover c.span) (horder : Ordered (o :: (ts ++ [c]))) :
    Framed e (o :: (ts ++ [c])) [] (o :: (ts ++ [c])) [] := by
  have hsplit : Ordered ([o] ++ (ts ++ [c])) := horder
  have hforward := horder.forward o List.mem_cons_self
  have hstop : o.span.stop ≤ c.span.start := hsplit.stop_le_start (by simp) (by simp)
  have hcover := cover_of_forward hforward hstop (horder.forward c (by simp))
  refine .whole o c h.of_atom rfl ?_ ?_ ?_
  · rw [hspan, hcover]
  · exact mem_getLast?_append (o :: ts) rfl
  · rw [hspan, hcover]

/-- Literals that are joined stand up to the last of them. -/
theorem joinLiterals_span (value : StringValue) {start : Nat} (prev : Token)
    (hts : ∀ u ∈ ts, u.kind = .string) (horder : Ordered (t :: ts)) (hstart : start ≤ t.span.stop) :
    ∃ last ∈ (t :: ts).getLast?,
      (joinLiterals value ⟨start, t.span.stop⟩ prev ts).2.1 = ⟨start, last.span.stop⟩ := by
  induction ts generalizing value prev t with
  | nil => exact ⟨t, rfl, rfl⟩
  | cons u ts ih =>
    obtain ⟨hu, hts⟩ := List.forall_mem_cons.mp hts
    have hsplit : Ordered ([t] ++ u :: ts) := horder
    have hnext : t.span.stop ≤ u.span.start := hsplit.stop_le_start (by simp) (by simp)
    have hforward := horder.forward u (by simp)
    rw [joinLiterals, if_pos hu, cover_of_forward (s := ⟨start, t.span.stop⟩) hstart hnext hforward]
    obtain ⟨last, hlast, heq⟩ := ih ⟨value.value ++ (decodeLiteral u.text).value,
      value.isBytes || (decodeLiteral u.text).isBytes,
      value.isFormatted || (decodeLiteral u.text).isFormatted⟩ u hts hsplit.of_append.2
      (le_trans hstart (le_trans hnext hforward))
    exact ⟨last, mem_getLast?_append [t] hlast, heq⟩

/-- Adjacent strings span their tokens. -/
theorem framed_literals (h : ∀ u ∈ t :: ts, u.kind = .string) (horder : Ordered (t :: ts)) :
    Framed (ofLiterals t ts) (t :: ts) [] (t :: ts) [] := by
  obtain ⟨ht, hts⟩ := List.forall_mem_cons.mp h
  have hself : t.span.cover t.span = ⟨t.span.start, t.span.stop⟩ := by simp [Span.cover]
  have hspan : ∃ last ∈ (t :: ts).getLast?,
      (ofLiterals t ts).span = ⟨t.span.start, last.span.stop⟩ := by
    rw [ofLiterals, joinLiterals_string ht, hself]
    exact joinLiterals_span _ t hts horder (horder.forward t List.mem_cons_self)
  obtain ⟨last, hlast, hspan⟩ := hspan
  exact .whole t last (Parses.literals h).of_atom rfl (by rw [hspan]) hlast (by rw [hspan])

/-- An expression of one token stands where the token does. -/
theorem span_of_ofToken? (h : ofToken? t = some e) : e.span = t.span := by
  unfold ofToken? at h
  split at h <;> cases h <;> rfl

/-- The expression of a phrase stands among its tokens where `Phrase.Stands` says. -/
theorem Parses.stands {p : Phrase} {ts : List Token} (h : Parses p ts) (horder : Ordered ts) :
    p.Stands ts := by
  induction h with
  -- an expression and what goes on with it
  | read hleft htail ihleft ihtail =>
    exact stands_further (ihleft horder.of_append.1) hleft.balanced (.read hleft htail) horder
      (ihtail horder.of_append.2)
  | applied hbase htail ihbase ihtail =>
    exact stands_further (ihbase horder.of_append.1) hbase.balanced
      (Parses.applied hbase htail).of_operand horder (stands_unionTail (ihtail horder.of_append.2))
  | unionEnd | trailersEnd => exact fun _ _ => .inl ⟨rfl, rfl⟩
  | @unionMore l r e p ts us _ _ _ ihright ihtail =>
    have hsplit : Ordered ([p] ++ (ts ++ us)) := horder
    have hparts := hsplit.of_append.2
    exact stands_unionMore horder (ihright hparts.of_append.1) (ihtail hparts.of_append.2)
  | @attr b e d t us hdot hfield _ ih =>
    exact fun hb hafter => stands_trailers [d, t] hb hafter horder rfl rfl ih
  | subscript _ _ _ _ _ ih => exact stands_brackets horder rfl ih
  | call _ _ _ _ _ ih => exact stands_brackets horder rfl ih
  -- an expression with no more than its own tokens
  | @negative m t hminus hnumber =>
    have hsplit : Ordered ([m] ++ [t]) := horder
    have hcover := cover_of_forward (horder.forward m (by simp))
      (hsplit.stop_le_start (by simp) (by simp)) (horder.forward t (by simp))
    refine ⟨_, _, _, .whole m t (Parses.negative hminus hnumber).of_operand rfl ?_
      rfl ?_⟩
    · rw [Expr.span, hcover]
    · rw [Expr.span, hcover]
  | @single t e hsingle =>
    have hspan := span_of_ofToken? hsingle
    exact ⟨_, _, _, .whole t t (Parses.single hsingle).of_atom rfl
      (by rw [hspan]) rfl (by rw [hspan])⟩
  | literals hstrings => exact ⟨_, _, _, framed_literals hstrings horder⟩
  | emptyTuple hopen hclose =>
    exact ⟨_, _, _, framed_brackets [] (.emptyTuple hopen hclose) rfl horder⟩
  | tuple hopen hfirst hothers hseveral hclose =>
    exact ⟨_, _, _, framed_brackets _ (.tuple hopen hfirst hothers hseveral hclose) rfl horder⟩
  | list hopen hinner hclose =>
    exact ⟨_, _, _, framed_brackets _ (.list hopen hinner hclose) rfl horder⟩
  | dict hopen hinner hclose =>
    exact ⟨_, _, _, framed_brackets _ (.dict hopen hinner hclose) rfl horder⟩
  -- parentheses around an expression are no part of it
  | @group e o c ts hopen _ hclose ih =>
    have hsplit : Ordered ([o] ++ (ts ++ [c])) := horder
    obtain ⟨opens, core, closes, hframed⟩ := ih hsplit.of_append.2.of_append.1
    exact ⟨_, _, _, hframed.group hopen hclose⟩
  | _ => trivial

/-- **The tokens of an expression are those where it stands, in parentheses that do not count.** -/
theorem Parses.framed (h : Parses (.read e) ts) (horder : Ordered ts) :
    ∃ opens core closes, Framed e ts opens core closes :=
  h.stands horder

end Expr
end PackageDoc
