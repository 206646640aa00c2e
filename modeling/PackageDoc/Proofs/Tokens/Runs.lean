import PackageDoc.Analysis.TypeEval
import PackageDoc.Proofs.Annotation.Slices
import PackageDoc.Proofs.Tokens.Balance

namespace PackageDoc

/-!
# Dotted names among tokens

A dotted name is a run of name tokens with dots between them.  A run that is not preceded by a dot and
does not go on is found by one scan over the tokens, whatever stands around it.

* `tokenize_solid` — the parts of statements have characters, in any text;
* `DottedName` — names with dots between them;
* `LongestName` — where such a name stands among tokens, as long as it can be;
* `Scanned` — the names that a scan finds, and what it passes over;
* `Scanned.mem_iff` — they are the longest ones, all of them;
* `Scanned.sublist_flatten` — in their order, with no token in two of them;
* `nameRuns_eq` — the spans of `nameRuns` are those of a scan.
-/

namespace Lexer

variable {s s' s'' : Lexer}

/-! ### The parts of statements have characters -/

/-- A step inside a line adds nothing that is a part of a statement, or reads one. -/
theorem growsAside_or_emits (h : s.token = some s') :
    GrowsAside s s' ∨ ∃ gap behind text, Emits (s.skip gap behind) s' text := by
  obtain ⟨gap, c, cs, hrest, -, -, hstep⟩ := exists_tokenStep h
  have hskip : GrowsAside s (s.skip gap (c :: cs)) := .pass gap hrest rfl rfl
  have hline := (spanLineBreak_append (c :: cs)).symm
  have hcomment := (spanLine_append (c :: cs)).symm
  cases hstep with
  | newline => exact .inl (hskip.trans ((GrowsAside.emit rfl hline).trans (.pass [] rfl rfl rfl)))
  | bracketedLineEnd => exact .inl (hskip.trans (.pass _ hline rfl rfl))
  | comment => exact .inl (hskip.trans (.emit rfl hcomment))
  | bracketedComment => exact .inl (hskip.trans (.pass _ hcomment rfl rfl))
  | backslash =>
    have hcut : c :: cs = (c :: (spanLineBreak cs).1) ++ (spanLineBreak cs).2 :=
      congrArg (c :: ·) (spanLineBreak_append cs).symm
    refine .inl (hskip.trans ?_)
    split <;> exact .pass _ hcut rfl rfl
  | part hpart =>
    obtain ⟨text, hemits⟩ := hpart.emits rfl
    exact .inr ⟨gap, c :: cs, text, hemits⟩

/-- The parts of statements that were read have characters. -/
def Solid (s : Lexer) : Prop :=
  ∀ t ∈ s.tokens, t.kind.isContent = true → t.span.start < t.span.stop

/-- What adds no content keeps content solid. -/
theorem Solid.aside (hs : s.Solid) (h : GrowsAside s s') : s'.Solid := by
  obtain ⟨new, hgrows, haside⟩ := h
  intro t ht hcontent
  rw [hgrows.tokens] at ht
  rcases List.mem_append.mp ht with ht | ht
  · rw [haside t ht] at hcontent
    cases hcontent
  · exact hs t ht hcontent

/-- So does emitting a token, which has characters. -/
theorem Solid.emits {text : List Char} (hs : s.Solid) (h : Emits s s' text) : s'.Solid := by
  obtain ⟨kind, -, htokens⟩ := h.tokens
  intro t ht hcontent
  rw [htokens] at ht
  rcases List.mem_cons.mp ht with rfl | ht
  · have hpos := Text.byteLength_pos h.ne_nil
    have hoffset := h.offset
    dsimp only
    omega
  · exact hs t ht hcontent

/-- So does every step. -/
theorem Solid.step (hs : s.Solid) (h : s.step = some s') : s'.Solid := by
  unfold Lexer.step at h
  split at h
  · exact hs.aside (growsAside_lineStart h)
  · rcases growsAside_or_emits h with haside | ⟨gap, behind, text, hemits⟩
    · exact hs.aside haside
    · exact Solid.emits (s := s.skip gap behind) hs hemits

/-- So does a whole run. -/
theorem Solid.run (hs : s.Solid) (n : Nat) : (run n s).Solid :=
  run_induction (fun _ _ hs h => hs.step h) n hs

end Lexer

/-- The parts of statements have characters, in any text. -/
theorem tokenize_solid (source : String) :
    ∀ t ∈ (tokenize source).1, t.kind.isContent = true → t.span.start < t.span.stop := by
  have hwalked : (Lexer.walked source.toList).Solid :=
    Lexer.Solid.run (by rw [Lexer.Solid, Lexer.tokens_start]; simp) _
  obtain ⟨line, hfinish⟩ := Lexer.finish_tokens (Lexer.walked source.toList)
    (Text.byteLength source.toList)
  intro t ht hcontent
  rw [tokenize_eq] at ht
  rw [hfinish] at ht
  rcases List.mem_append.mp ht with ht | ht
  · exact hwalked t (List.mem_reverse.mp ht) hcontent
  · -- what closes the text is no part of a statement
    have hclosing : t.kind.isContent = false := by
      unfold Lexer.closing at ht
      rcases List.mem_append.mp ht with ht | ht
      · rcases List.mem_append.mp ht with ht | ht
        · split at ht
          · obtain rfl := List.mem_singleton.mp ht
            rfl
          · exact absurd ht List.not_mem_nil
        · obtain rfl := List.eq_of_mem_replicate ht
          rfl
      · obtain rfl := List.mem_singleton.mp ht
        rfl
    rw [hclosing] at hcontent
    cases hcontent

/-! ### Dotted names -/

/-- Names with dots between them. -/
inductive DottedName : List Token → Prop
  | single {t : Token} (h : t.kind = .name) : DottedName [t]
  | cons {t dot : Token} {rest : List Token} (h : t.kind = .name) (hdot : dot.kind = .dot)
    (hrest : DottedName rest) : DottedName (t :: dot :: rest)

/-- A dotted name does not go on with these tokens. -/
def StopsName (tokens : List Token) : Prop :=
  ∀ dot t rest, tokens = dot :: t :: rest → dot.kind = .dot → t.kind ≠ .name

/-- A dotted name among tokens, as long as it can be: it is not preceded by a dot and does not go on.
    `dot` tells whether a dot stands in front of all tokens. -/
structure LongestName (dot : Bool) (tokens front run back : List Token) : Prop where
  split : tokens = front ++ (run ++ back)
  dotted : DottedName run
  first : ∀ t ∈ front.getLast?, t.kind ≠ .dot
  start : front = [] → dot = false
  last : StopsName back

namespace DottedName

variable {run run' back back' : List Token}

/-- A dotted name begins with a name. -/
theorem exists_cons (h : DottedName run) : ∃ t rest, run = t :: rest ∧ t.kind = .name := by
  cases h with
  | single h => exact ⟨_, _, rfl, h⟩
  | cons h _ _ => exact ⟨_, _, rfl, h⟩

/-- It is not empty. -/
theorem ne_nil (h : DottedName run) : run ≠ [] := by
  obtain ⟨t, rest, rfl, -⟩ := h.exists_cons
  exact List.cons_ne_nil t rest

/-- It ends with a name. -/
theorem getLast (h : DottedName run) : ∃ t, run.getLast? = some t ∧ t.kind = .name := by
  induction h with
  | single h => exact ⟨_, rfl, h⟩
  | cons _ _ hrest ih =>
    obtain ⟨t, hlast, ht⟩ := ih
    obtain ⟨u, rest, rfl, -⟩ := hrest.exists_cons
    exact ⟨t, by rw [List.getLast?_cons_cons, List.getLast?_cons_cons, hlast], ht⟩

theorem append {dot : Token} (h : DottedName run) (hdot : dot.kind = .dot) (h' : DottedName run') :
    DottedName (run ++ dot :: run') := by
  induction h with
  | single h => exact .cons h hdot h'
  | cons h hdot' _ ih => exact .cons h hdot' ih

/-- In a dotted name every name but the first stands behind a dot. -/
theorem getLast?_front {front more : List Token} {t : Token} (h : DottedName (front ++ t :: more))
    (ht : t.kind = .name) (hfront : front ≠ []) :
    ∃ dot, front.getLast? = some dot ∧ dot.kind = .dot := by
  generalize hrun : front ++ t :: more = run at h
  induction h generalizing front with
  | single h =>
    obtain _ | ⟨u, front⟩ := front
    · exact absurd rfl hfront
    · exact absurd (congrArg List.length hrun) (by simp)
  | @cons u dot rest hu hdot _ ih =>
    -- names and dots alternate, so the name is at an even place
    match front with
    | [] => exact absurd rfl hfront
    | [u'] =>
      obtain ⟨-, rfl, -⟩ : u' = u ∧ t = dot ∧ more = rest := by simpa using hrun
      rw [hdot] at ht
      cases ht
    | [u', dot'] =>
      obtain ⟨-, rfl, -⟩ : u' = u ∧ dot' = dot ∧ t :: more = rest := by simpa using hrun
      exact ⟨dot', rfl, hdot⟩
    | u' :: dot' :: v :: front =>
      obtain ⟨-, -, hrest⟩ : u' = u ∧ dot' = dot ∧ v :: front ++ t :: more = rest := by
        simpa using hrun
      obtain ⟨last, hlast, hkind⟩ := ih (List.cons_ne_nil v front) hrest
      exact ⟨last, by rw [List.getLast?_cons_cons, List.getLast?_cons_cons, hlast], hkind⟩

/-- At one place there is one longest dotted name. -/
theorem eq_of_append_eq (h : DottedName run) (h' : DottedName run') (hback : StopsName back)
    (hback' : StopsName back') (heq : run ++ back = run' ++ back') : run = run' := by
  induction h generalizing run' with
  | single h =>
    cases h' with
    | single h' => rw [(List.cons.inj heq).1]
    | cons _ hdot hrest =>
      obtain ⟨t, rest, rfl, ht⟩ := hrest.exists_cons
      exact absurd ht (hback _ _ _ (List.cons.inj heq).2 hdot)
  | cons h hdot hrest ih =>
    cases h' with
    | single h' =>
      obtain ⟨t, rest, rfl, ht⟩ := hrest.exists_cons
      exact absurd ht (hback' _ _ _ (List.cons.inj heq).2.symm hdot)
    | cons h' hdot' hrest' =>
      obtain ⟨hfirst, hmore⟩ := List.cons.inj heq
      obtain ⟨hsecond, hmore⟩ := List.cons.inj hmore
      rw [hfirst, hsecond, ih hrest' hmore]

end DottedName

/-! ### A scan over tokens -/

/-- A scan over tokens finds runs of them.  `dot` tells whether a dot stands in front. -/
inductive Scanned : (dot : Bool) → List Token → List (List Token) → Prop
  | done (dot : Bool) : Scanned dot [] []
  | pass {dot : Bool} {t : Token} {ts : List Token} {runs : List (List Token)}
    (h : dot = true ∨ t.kind ≠ .name) (more : Scanned (t.kind == .dot) ts runs) :
    Scanned dot (t :: ts) runs
  | found {run back : List Token} {runs : List (List Token)} (hrun : DottedName run)
    (hback : StopsName back) (more : Scanned false back runs) :
    Scanned false (run ++ back) (run :: runs)

namespace Scanned

variable {dot : Bool} {tokens front run back : List Token} {runs : List (List Token)}

/-- The runs lie in the tokens in their order, and have no token in common. -/
theorem sublist_flatten (h : Scanned dot tokens runs) : runs.flatten.Sublist tokens := by
  induction h with
  | done => exact .slnil
  | pass _ _ ih => exact ih.cons _
  | @found run back runs _ _ _ ih => exact (List.Sublist.refl run).append ih

/-- Every run that is found is a longest name. -/
theorem dotted_of_mem (h : Scanned dot tokens runs) (hrun : run ∈ runs) :
    ∃ front back, LongestName dot tokens front run back := by
  induction h with
  | done => exact absurd hrun List.not_mem_nil
  | @pass dot t ts runs h _ ih =>
    -- behind the token that is passed over, the scan knows whether it was a dot
    obtain ⟨front, back, hlongest⟩ := ih hrun
    refine ⟨t :: front, back, by rw [hlongest.split]; rfl, hlongest.dotted, ?_,
      fun hnil => absurd hnil (List.cons_ne_nil t front), hlongest.last⟩
    obtain _ | ⟨u, front⟩ := front
    · rintro _ ⟨⟩
      simpa using hlongest.start rfl
    · rw [List.getLast?_cons_cons]
      exact hlongest.first
  | @found first back runs hfirst hback _ ih =>
    rcases List.mem_cons.mp hrun with rfl | hrun
    · exact ⟨[], back, rfl, hfirst, by simp, fun _ => rfl, hback⟩
    · obtain ⟨front, back', hlongest⟩ := ih hrun
      refine ⟨first ++ front, back', by rw [hlongest.split, List.append_assoc], hlongest.dotted, ?_,
        fun _ => rfl, hlongest.last⟩
      obtain ⟨name, hname, hkind⟩ := hfirst.getLast
      intro t ht
      rw [List.getLast?_append, hname] at ht
      cases hfront : front.getLast? with
      | none =>
        obtain rfl : name = t := by simpa [hfront] using ht
        rw [hkind]
        exact TokenKind.noConfusion
      | some u =>
        obtain rfl : u = t := by simpa [hfront] using ht
        exact hlongest.first u hfront

/-- Every longest name is found. -/
theorem mem_of_longestName (h : Scanned dot tokens runs)
    (hlongest : LongestName dot tokens front run back) : run ∈ runs := by
  induction h generalizing front with
  | done =>
    have hnil := (List.append_eq_nil_iff.mp (List.append_eq_nil_iff.mp hlongest.split.symm).2).1
    exact absurd hnil hlongest.dotted.ne_nil
  | @pass dot t ts runs h _ ih =>
    obtain _ | ⟨u, front⟩ := front
    · -- the run does not begin at a token that is passed over
      obtain ⟨name, rest, hrun, hname⟩ := hlongest.dotted.exists_cons
      have hsplit := hlongest.split
      rw [hrun] at hsplit
      obtain ⟨rfl, -⟩ := List.cons.inj hsplit
      rcases h with h | h
      · rw [hlongest.start rfl] at h
        cases h
      · exact absurd hname h
    · obtain ⟨rfl, hts⟩ := List.cons.inj hlongest.split
      refine ih ⟨hts, hlongest.dotted, fun v hv => ?_, ?_, hlongest.last⟩
      · refine hlongest.first v ?_
        obtain ⟨w, more, rfl⟩ := List.exists_cons_of_ne_nil (l := front) (by rintro rfl; cases hv)
        rwa [List.getLast?_cons_cons]
      · rintro rfl
        simpa using hlongest.first t rfl
  | @found first rest runs hfirst hrest _ ih =>
    -- a run that begins behind the first one is found by the rest of the scan
    have hbehind : ∀ mid, front = first ++ mid → rest = mid ++ (run ++ back) →
        run ∈ first :: runs := by
      rintro mid rfl hmore
      suffices hlater : LongestName false rest mid run back from List.mem_cons_of_mem _ (ih hlater)
      refine ⟨hmore, hlongest.dotted, fun v hv => hlongest.first v ?_, fun _ => rfl, hlongest.last⟩
      rw [List.getLast?_append, Option.mem_def.mp hv]
      rfl
    obtain ⟨mid, hfront, hmore⟩ | ⟨mid, hmid, hmore⟩ :=
      List.append_eq_append_iff.mp hlongest.split
    · exact hbehind mid hfront hmore
    obtain rfl | hfront := eq_or_ne front []
    · rw [hlongest.dotted.eq_of_append_eq hfirst hlongest.last hrest hlongest.split.symm]
      exact List.mem_cons_self
    obtain _ | ⟨t, mid⟩ := mid
    · exact hbehind [] (by simpa using hmid.symm) (by simpa using hmore.symm)
    · -- inside the first run every name but the first stands behind a dot
      obtain ⟨name, more, hrun, hname⟩ := hlongest.dotted.exists_cons
      rw [hrun] at hmore
      obtain ⟨rfl, -⟩ := List.cons.inj hmore
      rw [hmid] at hfirst
      obtain ⟨last, hlast, hdot⟩ := hfirst.getLast?_front hname hfront
      exact absurd hdot (hlongest.first last hlast)

/-- **A scan finds the longest dotted names**, all of them. -/
theorem mem_iff (h : Scanned dot tokens runs) :
    run ∈ runs ↔ ∃ front back, LongestName dot tokens front run back :=
  ⟨h.dotted_of_mem, fun ⟨_, _, hlongest⟩ => h.mem_of_longestName hlongest⟩

end Scanned

/-! ### The scan of the program -/

/-- Tokens in their order, each of which ends where it begins or behind. -/
structure Aligned (tokens : List Token) : Prop where
  apart : tokens.Pairwise fun t u => t.span.stop ≤ u.span.start
  forward : ∀ t ∈ tokens, t.span.start ≤ t.span.stop

/-- Some of aligned tokens are aligned. -/
theorem Aligned.sublist {tokens tokens' : List Token} (h : Aligned tokens)
    (hsub : tokens'.Sublist tokens) : Aligned tokens' :=
  ⟨h.apart.sublist hsub, fun t ht => h.forward t (hsub.subset ht)⟩

/-- Tokens that tile a text are aligned. -/
theorem Tiled.aligned {source : List Char} {tokens : List Token} (h : Tiled source tokens) :
    Aligned tokens :=
  ⟨h.apart, fun t ht => (h.within t ht).1⟩

/-- The first of the tokens ends before or where another one ends. -/
theorem Aligned.stop_le {first u : Token} {more : List Token} (h : Aligned (first :: more))
    (hu : u ∈ first :: more) : first.span.stop ≤ u.span.stop := by
  rcases List.mem_cons.mp hu with rfl | hmore
  · exact le_refl _
  · exact le_trans (List.rel_of_pairwise_cons h.apart hmore) (h.forward u hu)

/-- The span from the first of some tokens to the last. -/
def runSpan (run : List Token) : Span :=
  ⟨run.head?.elim 0 fun t => t.span.start, run.getLast?.elim 0 fun t => t.span.stop⟩

/-- The runs that a scan finds stand one behind the other. -/
theorem Scanned.pairwise_runSpan {dot : Bool} {tokens : List Token} {runs : List (List Token)}
    (h : Scanned dot tokens runs) (haligned : Aligned tokens) :
    (runs.map runSpan).Pairwise fun a b => a.stop ≤ b.start := by
  have hruns := (List.pairwise_flatten.mp (haligned.sublist h.sublist_flatten).apart).2
  refine List.pairwise_map.mpr (hruns.imp_of_mem fun {run run'} hrun hrun' hapart => ?_)
  obtain ⟨_, _, hlongest⟩ := h.dotted_of_mem hrun
  obtain ⟨_, _, hlongest'⟩ := h.dotted_of_mem hrun'
  obtain ⟨last, hlast, -⟩ := hlongest.dotted.getLast
  obtain ⟨first, more, rfl, -⟩ := hlongest'.dotted.exists_cons
  rw [runSpan, hlast]
  exact hapart last (List.mem_of_mem_getLast? hlast) first List.mem_cons_self

/-- A dot and a name behind a run lengthen its span. -/
theorem runSpan_append_pair {read : List Token} {dot t : Token} (hread : read ≠ [])
    (h : Aligned (read ++ [dot, t])) :
    runSpan (read ++ [dot, t]) = (runSpan read).cover t.span := by
  obtain ⟨first, more, rfl⟩ := List.exists_cons_of_ne_nil hread
  obtain ⟨last, hlast⟩ : ∃ last, (first :: more).getLast? = some last :=
    ⟨_, List.getLast?_eq_some_getLast hread⟩
  have hlastmem : last ∈ first :: more := List.mem_of_mem_getLast? hlast
  have hbehind : ∀ u ∈ first :: more, u.span.stop ≤ t.span.start := fun u hu =>
    (List.pairwise_append.mp h.apart).2.2 u hu t (by simp)
  have hfirst := hbehind first List.mem_cons_self
  have hforward := h.forward first (by simp)
  have hstop := hbehind last hlastmem
  have ht := h.forward t (by simp)
  have hstart : min first.span.start t.span.start = first.span.start := by omega
  have hmax : max last.span.stop t.span.stop = t.span.stop := by omega
  have hend : (first :: more ++ [dot, t]).getLast? = some t := by
    rw [List.getLast?_append]
    rfl
  rw [runSpan, runSpan, Span.cover, hend, hlast]
  simp [hstart, hmax]

/-- A name that may go on is read to its end. -/
theorem nameRuns_some : ∀ (read ts : List Token), DottedName read → Aligned (read ++ ts) →
    ∃ more back, ts = more ++ back ∧ DottedName (read ++ more) ∧ StopsName back ∧
      nameRuns (some (runSpan read)) false ts =
        runSpan (read ++ more) :: nameRuns none false back
  | read, [], hread, _ =>
    ⟨[], [], rfl, by simpa using hread, fun _ _ _ h => (List.cons_ne_nil _ _ h.symm).elim,
      by simp [nameRuns]⟩
  | read, [t], hread, _ => by
    -- a dot at the end has no name behind it
    refine ⟨[], [t], rfl, by simpa using hread, fun dot u rest h => ?_, ?_⟩
    · simp at h
    · by_cases hdot : t.kind = .dot
      · simp [nameRuns, hdot]
      · by_cases hname : t.kind = .name <;> simp [nameRuns, hdot, hname]
  | read, dot :: t :: rest, hread, haligned => by
    -- the name goes on by two tokens at a time
    by_cases hdot : dot.kind = .dot
    · by_cases hname : t.kind = .name
      · have hread' : DottedName (read ++ [dot, t]) := hread.append hdot (.single hname)
        have hassoc : (read ++ [dot, t]) ++ rest = read ++ dot :: t :: rest := by simp
        have hspan := runSpan_append_pair hread.ne_nil
          (haligned.sublist (hassoc ▸ List.sublist_append_left _ rest))
        obtain ⟨more, back, rfl, hdotted, hback, heq⟩ :=
          nameRuns_some (read ++ [dot, t]) rest hread' (hassoc ▸ haligned)
        refine ⟨dot :: t :: more, back, rfl, by simpa using hdotted, hback, ?_⟩
        rw [hspan] at heq
        simpa [nameRuns, hdot, hname] using heq
      · refine ⟨[], dot :: t :: rest, rfl, by simpa using hread, fun _ _ _ h _ => ?_, ?_⟩
        · obtain ⟨-, rfl, -⟩ : dot = _ ∧ t = _ ∧ rest = _ := by simpa using h
          exact hname
        · simp [nameRuns, hdot, hname]
    · refine ⟨[], dot :: t :: rest, rfl, by simpa using hread, fun _ _ _ h hdot' => ?_, ?_⟩
      · obtain ⟨rfl, -⟩ := List.cons.inj h
        exact absurd hdot' hdot
      · by_cases hname : dot.kind = .name <;> simp [nameRuns, hdot, hname]

/-- **The spans that are found are those of the longest dotted names**, in their order. -/
theorem nameRuns_eq (dot : Bool) (ts : List Token) (h : Aligned ts) :
    ∃ runs, Scanned dot ts runs ∧ nameRuns none dot ts = runs.map runSpan := by
  -- on the number of tokens: a name that is found is passed over as a whole
  induction hn : ts.length using Nat.strong_induction_on generalizing dot ts with
  | _ n ih =>
    subst hn
    obtain _ | ⟨t, ts⟩ := ts
    · exact ⟨[], .done dot, by simp [nameRuns]⟩
    · by_cases hfound : t.kind = .name ∧ dot = false
      · obtain ⟨hname, rfl⟩ := hfound
        obtain ⟨more, back, rfl, hdotted, hback, heq⟩ := nameRuns_some [t] ts (.single hname) h
        obtain ⟨runs, hscanned, hruns⟩ := ih back.length
          (by rw [List.length_cons, List.length_append]; omega) false back
          (h.sublist ((List.sublist_append_right more back).cons t)) rfl
        refine ⟨([t] ++ more) :: runs, .found hdotted hback hscanned, ?_⟩
        rw [List.map_cons, ← hruns, ← heq]
        simp [nameRuns, hname, runSpan]
      · obtain ⟨runs, hscanned, hruns⟩ := ih ts.length (by simp) (t.kind == .dot) ts
          (h.sublist (List.sublist_cons_self t ts)) rfl
        refine ⟨runs, .pass ?_ hscanned, ?_⟩
        · cases dot with
          | true => exact .inl rfl
          | false => exact .inr fun hname => hfound ⟨hname, rfl⟩
        · rw [← hruns, nameRuns]
          simp only [Bool.and_eq_true, beq_iff_eq, Bool.not_eq_true']
          rw [if_neg hfound]

end PackageDoc
