import PackageDoc.Proofs.Annotation.Extent
import PackageDoc.Proofs.Layout.Within
import PackageDoc.Proofs.Tokens.Tiling

namespace PackageDoc

/-!
# What skipping passes

An expression of unknown shape is passed by a scan that counts brackets and lambdas.

* `outside` — the tokens that stand outside brackets;
* `TokenKind.isLoose` — tokens that leave the counts alone and end no expression;
* `Plain` — nothing outside brackets but such tokens, as in expressions of the modelled language
  (`Expr.Parses.plain`);
* `Skipping.behind?` — what one token does to the counts, or that the scan ends in front of it;
* `Skipping.behindAll?_of_outside` — what passes some tokens is decided by those outside brackets;
* `Expr.skipShape_append` and `Expr.skipShape_stuck` — the scan over some tokens and what follows
  them, from what the tokens do to the counts;
* `Expr.Parses.passed` — so it passes every expression of the modelled language.
-/

/-! ### Outside brackets -/

/-- The tokens that stand outside brackets, those that open brackets there included. -/
def outside (depth : Nat) : List Token → List Token
  | [] => []
  | t :: ts =>
    if depth = 0 then t :: outside (t.kind.depthBehind depth) ts
    else outside (t.kind.depthBehind depth) ts

section Outside

variable {t o c : Token} {ts : List Token} {depth depth' : Nat}

/-- The brackets that are open behind a token are those that are counted. -/
theorem depthBehind_of_depthBehind? {kind : TokenKind} (h : kind.depthBehind? depth = some depth') :
    kind.depthBehind depth = depth' := by
  unfold TokenKind.depthBehind? at h
  unfold TokenKind.depthBehind
  split_ifs at h ⊢ <;> exact Option.some.inj h

/-- What stands outside brackets is found in one part and then the next. -/
theorem outside_append (h : depthBehind? depth ts = some depth') (us : List Token) :
    outside depth (ts ++ us) = outside depth ts ++ outside depth' us := by
  induction ts generalizing depth with
  | nil =>
    obtain rfl := Option.some.inj h
    rfl
  | cons t ts ih =>
    rw [depthBehind?_cons] at h
    obtain ⟨d, hd, hrest⟩ := Option.bind_eq_some_iff.mp h
    rw [List.cons_append, outside, outside, depthBehind_of_depthBehind? hd, ih hrest]
    split <;> rfl

/-- Inside brackets nothing stands outside them. -/
theorem outside_succ (h : depthBehind? depth ts = some depth') : outside (depth + 1) ts = [] := by
  induction ts generalizing depth with
  | nil => rfl
  | cons t ts ih =>
    rw [depthBehind?_cons] at h
    obtain ⟨d, hd, hrest⟩ := Option.bind_eq_some_iff.mp h
    rw [outside, if_neg (Nat.succ_ne_zero depth),
      depthBehind_of_depthBehind? (TokenKind.depthBehind?_add 1 hd)]
    exact ih hrest

/-- A token that is no bracket stands outside them. -/
theorem outside_cons (h : t.kind.isOpenBracket = false ∧ t.kind.isCloseBracket = false)
    (ts : List Token) : outside 0 (t :: ts) = t :: outside 0 ts := by
  rw [outside, if_pos rfl, TokenKind.depthBehind, h.1, h.2]
  rfl

/-- Of a group in brackets only the first bracket does. -/
theorem outside_group (ho : o.kind.isOpenBracket = true) (hts : Balanced ts) :
    outside 0 (o :: (ts ++ [c])) = [o] := by
  have hinner : outside 1 (ts ++ [c]) = [] := by
    rw [outside_append (hts 1), outside_succ (hts 0)]
    rfl
  rw [outside, if_pos rfl, TokenKind.depthBehind, if_pos ho, hinner]

end Outside

/-! ### Tokens that end no expression -/

namespace Expr

/-- The kinds of tokens, besides those that end every statement, at which the readers of statements
    let an expression end. -/
def stopKinds : List TokenKind := [.comma, .rparen, .equals, .colon, .augAssign]

/-- With fewer stops, less ends an expression. -/
theorem endsAt_mono {stops stops' : List TokenKind} (hstops : stops ⊆ stops') {kind : TokenKind}
    (h : endsAt stops' kind = false) : endsAt stops kind = false := by
  simp only [endsAt, Bool.or_eq_false_iff, List.contains_eq_mem, decide_eq_false_iff_not] at h ⊢
  exact ⟨⟨⟨fun hmem => h.1.1.1 (hstops hmem), h.1.1.2⟩, h.1.2⟩, h.2⟩

end Expr

namespace TokenKind

/-- Can a token of this kind stand in an expression without a bracket, a lambda or an end of any
    expression? -/
def isLoose (kind : TokenKind) : Bool :=
  !(Expr.endsAt Expr.stopKinds kind || kind.isOpenBracket || kind.isCloseBracket ||
    kind == .keyword .Lambda)

variable {kind : TokenKind}

/-- A token is loose when it is neither a stop nor a bracket nor begins a lambda. -/
theorem isLoose_iff : kind.isLoose = true ↔ Expr.endsAt Expr.stopKinds kind = false ∧
    kind.isOpenBracket = false ∧ kind.isCloseBracket = false ∧ kind ≠ .keyword .Lambda := by
  simp [isLoose, and_assoc]

/-- So it is no colon. -/
theorem ne_colon_of_isLoose (h : kind.isLoose = true) : kind ≠ .colon := by
  rintro rfl
  cases h

/-- A bracket that opens ends nothing. -/
theorem ends_false_of_isOpenBracket (h : kind.isOpenBracket = true) :
    Expr.endsAt Expr.stopKinds kind = false ∧ kind.isCloseBracket = false ∧ kind ≠ .colon ∧
      kind ≠ .keyword .Lambda := by
  cases kind <;> first | exact absurd h (by decide) | decide | cases h

/-- Brackets end no line. -/
theorem isLineEnd_of_bracket (h : kind.isOpenBracket = true ∨ kind.isCloseBracket = true) :
    kind.isLineEnd = false := by
  cases kind <;> first | rfl | exact absurd h (by decide)

/-- Nor does anything that is content. -/
theorem isLineEnd_of_isContent (h : kind.isContent = true) : kind.isLineEnd = false := by
  cases kind <;> first | rfl | cases h

end TokenKind

/-- Outside brackets there are only loose tokens, and brackets that open. -/
def Plain (ts : List Token) : Prop :=
  ∀ t ∈ outside 0 ts, t.kind.isLoose = true ∨ t.kind.isOpenBracket = true

namespace Plain

variable {t o c : Token} {ts us : List Token}

theorem nil : Plain [] := fun _ ht => nomatch ht

theorem cons (ht : t.kind.isLoose = true) (hts : Plain ts) : Plain (t :: ts) := by
  obtain ⟨-, hopen, hclose, -⟩ := TokenKind.isLoose_iff.mp ht
  unfold Plain
  rw [outside_cons ⟨hopen, hclose⟩]
  exact List.forall_mem_cons.mpr ⟨.inl ht, hts⟩

/-- Loose tokens are plain. -/
theorem of_forall (h : ∀ t ∈ ts, t.kind.isLoose = true) : Plain ts := by
  induction ts with
  | nil => exact .nil
  | cons t ts ih =>
    obtain ⟨ht, hts⟩ := List.forall_mem_cons.mp h
    exact .cons ht (ih hts)

theorem append (hts : Plain ts) (hbalanced : Balanced ts) (hus : Plain us) : Plain (ts ++ us) := by
  unfold Plain
  rw [outside_append (hbalanced 0)]
  exact List.forall_mem_append.mpr ⟨hts, hus⟩

/-- What stands in brackets does not count. -/
theorem group (ho : o.kind.isOpenBracket = true) (hts : Balanced ts)
    (hc : c.kind.isOpenBracket = false ∧ c.kind.isCloseBracket = true) (hus : Plain us) :
    Plain (o :: (ts ++ c :: us)) := by
  have hgroup : Plain (o :: (ts ++ [c])) := by
    unfold Plain
    rw [outside_group ho hts]
    exact List.forall_mem_singleton.mpr (.inr ho)
  have happend := hgroup.append (.group ts ho hts hc .nil) hus
  rwa [List.cons_append, List.append_assoc] at happend

end Plain

/-! ### The counts -/

/-- How many brackets are open, and how many lambdas wait for their colon. -/
structure Skipping where
  depth : Nat
  lambdas : Nat

namespace Skipping

variable {stops : List TokenKind} {s s' : Skipping} {t : Token} {ts us : List Token}

/-- The counts behind a token, or `none` when an expression ends in front of it. -/
def behind? (stops : List TokenKind) (s : Skipping) (t : Token) : Option Skipping :=
  if t.kind.isLineEnd then none
  else if s.depth = 0 then
    if t.kind = .colon ∧ 0 < s.lambdas then some ⟨0, s.lambdas - 1⟩
    else if t.kind.isCloseBracket || Expr.endsAt stops t.kind then none
    else some ⟨if t.kind.isOpenBracket then 1 else 0,
      if t.kind = .keyword .Lambda then s.lambdas + 1 else s.lambdas⟩
  else (t.kind.depthBehind? s.depth).map fun depth => ⟨depth, s.lambdas⟩

/-- The counts behind some tokens, or `none` when an expression ends in front of one of them. -/
def behindAll? (stops : List TokenKind) (s : Skipping) (ts : List Token) : Option Skipping :=
  ts.foldlM (behind? stops) s

@[simp] theorem behindAll?_nil : behindAll? stops s [] = some s := rfl

/-- Tokens are passed one after the other. -/
theorem behindAll?_cons (t : Token) (ts : List Token) :
    behindAll? stops s (t :: ts) = (behind? stops s t).bind fun s' => behindAll? stops s' ts :=
  List.foldlM_cons

/-- So are two lists of them. -/
theorem behindAll?_append (ts us : List Token) :
    behindAll? stops s (ts ++ us) = (behindAll? stops s ts).bind fun s' => behindAll? stops s' us :=
  List.foldlM_append

/-- Outside brackets a token that ends nothing counts for what it is. -/
theorem behind?_outside (hends : Expr.endsAt stops t.kind = false)
    (hclose : t.kind.isCloseBracket = false) (hcolon : t.kind ≠ .colon) (lambdas : Nat) :
    behind? stops ⟨0, lambdas⟩ t = some ⟨if t.kind.isOpenBracket then 1 else 0,
      if t.kind = .keyword .Lambda then lambdas + 1 else lambdas⟩ := by
  have hline : t.kind.isLineEnd = false := by
    simp only [Expr.endsAt, Bool.or_eq_false_iff] at hends
    exact hends.1.1.2
  simp [behind?, hline, hcolon, hclose, hends]

/-- Inside brackets nothing counts but brackets. -/
theorem behind?_inside (hline : t.kind.isLineEnd = false) {depth : Nat} (hdepth : depth ≠ 0)
    (lambdas : Nat) : behind? stops ⟨depth, lambdas⟩ t =
      (t.kind.depthBehind? depth).map fun depth => ⟨depth, lambdas⟩ := by
  rw [behind?, if_neg (by simp [hline]), if_neg hdepth]

/-- **Loose tokens and brackets, with all that stands in them, are passed.** -/
theorem behindAll?_of_outside (hstops : stops ⊆ Expr.stopKinds)
    (hline : ∀ t ∈ ts, t.kind.isLineEnd = false) {depth depth' : Nat}
    (hdepth : depthBehind? depth ts = some depth')
    (houtside : ∀ t ∈ outside depth ts, t.kind.isLoose = true ∨ t.kind.isOpenBracket = true)
    (lambdas : Nat) : behindAll? stops ⟨depth, lambdas⟩ ts = some ⟨depth', lambdas⟩ := by
  induction ts generalizing depth with
  | nil =>
    obtain rfl := Option.some.inj hdepth
    rfl
  | cons t ts ih =>
    obtain ⟨ht, hts⟩ := List.forall_mem_cons.mp hline
    rw [depthBehind?_cons] at hdepth
    obtain ⟨d, hd, hrest⟩ := Option.bind_eq_some_iff.mp hdepth
    have hbehind := depthBehind_of_depthBehind? hd
    -- within brackets everything is passed, whatever it is
    by_cases hzero : depth = 0
    · subst hzero
      rw [outside, if_pos rfl, hbehind] at houtside
      obtain ⟨hfirst, hmore⟩ := List.forall_mem_cons.mp houtside
      have hstep : behind? stops ⟨0, lambdas⟩ t = some ⟨d, lambdas⟩ := by
        rcases hfirst with hloose | hopen
        · obtain ⟨hends, hopen, hclose, hlambda⟩ := TokenKind.isLoose_iff.mp hloose
          rw [behind?_outside (Expr.endsAt_mono hstops hends) hclose
            (TokenKind.ne_colon_of_isLoose hloose), if_neg hlambda, ← hbehind, TokenKind.depthBehind,
            hopen, hclose]
          rfl
        · obtain ⟨hends, hclose, hcolon, hlambda⟩ := TokenKind.ends_false_of_isOpenBracket hopen
          rw [behind?_outside (Expr.endsAt_mono hstops hends) hclose hcolon, if_neg hlambda,
            ← hbehind, TokenKind.depthBehind, hopen]
          rfl
      rw [behindAll?_cons, hstep]
      exact ih hts hrest hmore
    · rw [outside, if_neg hzero, hbehind] at houtside
      rw [behindAll?_cons, behind?_inside ht hzero, hd]
      exact ih hts hrest houtside

end Skipping

namespace Expr

open Skipping

variable {stops : List TokenKind} {depth lambdas stop : Nat} {prev t : Token} {ts : List Token}

/-! ### The scan -/

/-- Skipping passes a token, or ends in front of it. -/
theorem skipShape_cons (stops : List TokenKind) (depth lambdas stop : Nat) (prev t : Token)
    (ts : List Token) :
    skipShape stops depth lambdas stop prev (t :: ts) =
      match behind? stops ⟨depth, lambdas⟩ t with
      | some s => skipShape stops s.depth s.lambdas t.span.stop t ts
      | Option.none => (stop, ⟨prev, t :: ts⟩) := by
  rw [skipShape, behind?, TokenKind.depthBehind?]
  by_cases hline : t.kind.isLineEnd = true
  · rw [if_pos hline, if_pos hline]
  rw [if_neg hline, if_neg hline]
  by_cases hdepth : depth = 0
  · subst hdepth
    rw [if_pos rfl, if_pos rfl]
    simp only [Bool.and_eq_true, decide_eq_true_eq]
    split_ifs <;> rfl
  · rw [if_neg hdepth, if_neg hdepth]
    split_ifs <;> rfl

/-- Behind some tokens the scan goes on with the counts that they lead to. -/
theorem skipShape_append {s : Skipping} (h : behindAll? stops ⟨depth, lambdas⟩ ts = some s)
    (rest : List Token) :
    skipShape stops depth lambdas stop prev (ts ++ rest) =
      skipShape stops s.depth s.lambdas ((ts.getLast?.map fun t => t.span.stop).getD stop)
        (ts.getLastD prev) rest := by
  induction ts generalizing depth lambdas stop prev with
  | nil =>
    obtain rfl := Option.some.inj h
    rfl
  | cons t ts ih =>
    rw [behindAll?_cons] at h
    obtain ⟨s', ht, hts⟩ := Option.bind_eq_some_iff.mp h
    rw [List.cons_append, skipShape_cons, ht]
    dsimp only
    rw [ih hts]
    cases ts with
    | nil => rfl
    | cons u ts => rw [List.getLast?_cons_cons]; rfl

/-- When the tokens lead to no counts, the scan ends in front of one of them. -/
theorem skipShape_stuck (stop : Nat) (prev : Token)
    (h : behindAll? stops ⟨depth, lambdas⟩ ts = Option.none) :
    ∃ passed u more, ts = passed ++ u :: more ∧ ∀ rest,
      (skipShape stops depth lambdas stop prev (ts ++ rest)).2 =
        ⟨passed.getLastD prev, u :: (more ++ rest)⟩ := by
  induction ts generalizing depth lambdas stop prev with
  | nil => cases h
  | cons t ts ih =>
    rw [behindAll?_cons] at h
    cases ht : behind? stops ⟨depth, lambdas⟩ t with
    | none =>
      refine ⟨[], t, ts, rfl, fun rest => ?_⟩
      rw [List.cons_append, skipShape_cons, ht]
      rfl
    | some s =>
      rw [ht, Option.bind_some] at h
      obtain ⟨passed, u, more, rfl, hstuck⟩ := ih t.span.stop t h
      refine ⟨t :: passed, u, more, rfl, fun rest => ?_⟩
      rw [List.cons_append, skipShape_cons, ht]
      dsimp only
      rw [hstuck rest]
      cases passed <;> rfl

/-- Outside brackets the scan ends at a token that ends expressions, and at a closing bracket. -/
theorem skipShape_end (h : t.kind.isCloseBracket = true ∨ endsAt stops t.kind = true)
    (ts : List Token) : skipShape stops 0 0 stop prev (t :: ts) = (stop, ⟨prev, t :: ts⟩) := by
  have hend : (t.kind.isCloseBracket || endsAt stops t.kind) = true := by simpa using h
  rw [skipShape]
  simp [hend]

/-- An unmodelled expression stands where the tokens do that are passed. -/
theorem readUnmodelled_of_passed (prev : Token) {first last : Token} {after : List Token}
    (h : behindAll? stops ⟨0, 0⟩ (first :: ts) = some ⟨0, lambdas⟩)
    (hlast : (first :: ts).getLast? = some last)
    (hend : ∀ stop prev,
      skipShape stops 0 lambdas stop prev (t :: after) = (stop, ⟨prev, t :: after⟩)) :
    readUnmodelled stops ⟨prev, first :: ts ++ t :: after⟩ =
      (unmodelled ⟨first.span.start, last.span.stop⟩, ⟨last, t :: after⟩) := by
  unfold readUnmodelled
  dsimp only
  rw [skipShape_append h, hend, List.getLastD_eq_getLast?, hlast]
  rfl

/-! ### Expressions of the modelled language -/

/-- Does the phrase stand outside the brackets of the expression it is a part of? -/
def Phrase.IsOutside : Phrase → Prop
  | .read _ | .unionTail _ _ | .operand _ | .trailers _ _ | .atom _ => True
  | _ => False

/-- A token that is an expression is loose. -/
theorem isLoose_of_ofToken? {e : Expr} (h : ofToken? t = some e) : t.kind.isLoose = true := by
  unfold ofToken? at h
  split at h <;> first
    | rename_i hkind
      rw [hkind]
      rfl
    | cases h

/-- **Outside brackets an expression has loose tokens and brackets that open.** -/
theorem Parses.plain {p : Phrase} {ts : List Token} (h : Parses p ts) (hp : p.IsOutside) :
    Plain ts := by
  have cons {t : Token} {kind : TokenKind} {us : List Token} (hkind : t.kind = kind)
      (hloose : kind.isLoose = true) (hus : Plain us) : Plain (t :: us) := .cons (hkind ▸ hloose) hus
  have opens {o : Token} {kind : TokenKind} (hkind : o.kind = kind)
      (hopen : kind.isOpenBracket = true) : o.kind.isOpenBracket = true := hkind ▸ hopen
  induction h with
  | unionEnd | trailersEnd => exact .nil
  | read hleft _ ih ih' => exact (ih trivial).append hleft.balanced (ih' trivial)
  | applied hbase _ ih ih' => exact (ih trivial).append hbase.balanced (ih' trivial)
  | unionMore hpipe hright _ ih ih' =>
    exact cons hpipe rfl ((ih trivial).append hright.balanced (ih' trivial))
  | negative hminus hnumber => exact cons hminus rfl (cons hnumber rfl .nil)
  | attr hdot hfield _ ih => exact cons hdot rfl (cons hfield rfl (ih trivial))
  | single hsingle => exact cons rfl (isLoose_of_ofToken? hsingle) .nil
  | literals hstrings =>
    refine .of_forall fun t ht => ?_
    rw [hstrings t ht]
    rfl
  | subscript hopen hinner hclose _ _ ih | call hopen hinner hclose _ _ ih =>
    exact .group (opens hopen rfl) hinner.balanced (by rw [hclose]; exact ⟨rfl, rfl⟩) (ih trivial)
  | emptyTuple hopen hclose =>
    exact @Plain.group _ _ [] _ (opens hopen rfl) .nil (by rw [hclose]; exact ⟨rfl, rfl⟩) .nil
  | group hopen hinner hclose | list hopen hinner hclose | dict hopen hinner hclose =>
    exact .group (opens hopen rfl) hinner.balanced (by rw [hclose]; exact ⟨rfl, rfl⟩) .nil
  | tuple hopen hfirst hothers _ hclose =>
    exact .group (opens hopen rfl) (hfirst.balanced.append hothers.balanced)
      (by rw [hclose]; exact ⟨rfl, rfl⟩) .nil
  | _ => exact hp.elim

/-- **The tokens of an expression are passed.** -/
theorem Parses.passed {e : Expr} {ts : List Token} (h : Parses (.read e) ts)
    (hstops : stops ⊆ stopKinds) (lambdas : Nat) :
    behindAll? stops ⟨0, lambdas⟩ ts = some ⟨0, lambdas⟩ :=
  behindAll?_of_outside hstops (fun t ht => TokenKind.isLineEnd_of_isContent (h.isContent t ht))
    (h.balanced 0) (h.plain trivial) lambdas

end Expr
end PackageDoc
