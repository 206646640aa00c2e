import PackageDoc.Proofs.Merge.Views
import PackageDoc.Proofs.Tokens.Runs
import PackageDoc.Proofs.Types.Results
import PackageDoc.Proofs.Types.Termination

namespace PackageDoc

/-!
# Links in texts

The dotted names in a text in the alternate syntax are linked to what they refer to, each where it
stands in the text, and as far as it goes.

* `Span.Encloses` — a span between characters of a text, with what stands there;
* `exists_encloses` — a run of tokens is such a span;
* `TypeEnv.LinksPlaced` — links that stand where the dotted names do, for all of them that refer to
  something;
* `TypeEnv.linksPlaced_of_returns` — the links of a text are so;
* `TypeRef.AlternateAll` — what holds of all texts in the alternate syntax inside a type;
* `TypeEnv.linksPlaced_of_evaluate` — the links in every type that an annotation is evaluated to are
  so.
-/

/-! ### Places in a text -/

/-- The span begins and ends between characters of the text, and these are between them. -/
def Span.Encloses (span : Span) (text : String) (inside : List Char) : Prop :=
  ∃ before behind, text.toList = before ++ (inside ++ behind) ∧
    span.start = Text.byteLength before ∧ span.stop = span.start + Text.byteLength inside

/-- The text of a span is what the span encloses. -/
theorem Span.Encloses.text_eq {span : Span} {text : String} {inside : List Char}
    (h : span.Encloses text inside) : span.text text.toList = String.ofList inside := by
  obtain ⟨before, behind, htext, hstart, hstop⟩ := h
  have hchars := Span.chars_append 0 before inside behind
  rw [Nat.zero_add, ← hstart, ← hstop] at hchars
  rw [Span.text, htext, hchars]

/-- Tokens in their order are a stretch of the text, from the first of them to the last. -/
theorem exists_encloses {text : String} {tokens run : List Token} (htiled : Tiled text.toList tokens)
    (hsub : run.Sublist tokens) (hrun : run ≠ []) : ∃ inside, (runSpan run).Encloses text inside := by
  obtain ⟨first, more, rfl⟩ := List.exists_cons_of_ne_nil hrun
  obtain ⟨last, hlast⟩ : ∃ last, (first :: more).getLast? = some last :=
    ⟨_, List.getLast?_eq_some_getLast hrun⟩
  have hlastmem := List.mem_of_mem_getLast? hlast
  have haligned := htiled.aligned.sublist hsub
  have hspan : runSpan (first :: more) = ⟨first.span.start, last.span.stop⟩ := by
    rw [runSpan, hlast]
    rfl
  -- the text before the first token, and the text up to the end of the last one
  obtain ⟨before, inside, behind, htext, hstart, -, -⟩ := htiled.cut first (hsub.subset (by simp))
  obtain ⟨before', inside', behind', htext', hstart', hstop', -⟩ :=
    htiled.cut last (hsub.subset hlastmem)
  rw [hstart', ← Text.byteLength_append] at hstop'
  rw [← List.append_assoc] at htext'
  have horder : Text.byteLength before ≤ Text.byteLength (before' ++ inside') := by
    rw [← hstart, ← hstop']
    exact le_trans (haligned.forward first (by simp)) (haligned.stop_le hlastmem)
  -- two cuts of one text are in the order of their lengths
  have hprefix : ∃ mid, before' ++ inside' = before ++ mid := by
    obtain ⟨mid, hmid, -⟩ | ⟨mid, hmid, -⟩ := List.append_eq_append_iff.mp (htext.symm.trans htext')
    · exact ⟨mid, hmid⟩
    · rw [hmid, Text.byteLength_append] at horder
      obtain rfl : mid = [] := by
        by_contra hne
        have hpos := Text.byteLength_pos hne
        omega
      exact ⟨[], by simpa using hmid.symm⟩
  obtain ⟨mid, hmid⟩ := hprefix
  rw [hmid] at htext' hstop'
  refine ⟨mid, before, behind', by rw [htext', List.append_assoc], by rw [hspan, hstart], ?_⟩
  rw [hspan, hstop', hstart, Text.byteLength_append]

/-- A dotted name has characters. -/
theorem LongestName.start_lt_stop {text : String} {dot : Bool} {front run back : List Token}
    (h : LongestName dot (tokenize text).1 front run back) :
    (runSpan run).start < (runSpan run).stop := by
  obtain ⟨first, more, rfl, hname⟩ := h.dotted.exists_cons
  obtain ⟨last, hlast, -⟩ := h.dotted.getLast
  have hsub : (first :: more).Sublist (tokenize text).1 := by
    rw [h.split]
    exact (List.sublist_append_left _ back).trans (List.sublist_append_right front _)
  obtain ⟨_, _, -, hlead, htiles⟩ := exists_tiles_tokenize text
  have haligned := (htiles.tiled hlead).aligned.sublist hsub
  have hsolid := tokenize_solid text first (hsub.subset (by simp)) (by rw [hname]; rfl)
  have hstop := haligned.stop_le (List.mem_of_mem_getLast? hlast)
  rw [runSpan, hlast]
  exact lt_of_lt_of_le hsolid hstop

/-! ### The links of a text -/

/-- Where a link stands. -/
def TextLink.span (l : TextLink) : Span :=
  ⟨l.start, l.stop⟩

/-- A name without its blanks. -/
def unspaced (cs : List Char) : String :=
  String.ofList (cs.filter fun c => !Text.isSpace c)

namespace TypeEnv

variable {env : TypeEnv} {scope : Option ClassScope} {text : String} {links : List TextLink}

/-- The links stand in a text where its longest dotted names do, from their beginnings to their ends,
    for all of them that refer to something. -/
structure LinksPlaced (env : TypeEnv) (scope : Option ClassScope) (text : String)
    (links : List TextLink) : Prop where
  /-- Every link has characters. -/
  forward : ∀ l ∈ links, l.start < l.stop
  /-- A link begins behind the one in front of it. -/
  apart : links.Pairwise fun l m => l.stop ≤ m.start
  /-- Every link spans a dotted name and leads to what it refers to. -/
  names : ∀ l ∈ links, ∃ front run back inside,
    LongestName false (tokenize text).1 front run back ∧ l.span = runSpan run ∧
      l.span.Encloses text inside ∧ Eval.Returns (env.target scope (unspaced inside)) l.target
  /-- No name belongs to two links. -/
  unshared : links.Pairwise fun l m => ∀ t ∈ (tokenize text).1, t.kind = .name →
    ¬((l.start ≤ t.span.start ∧ t.span.stop ≤ l.stop) ∧
      (m.start ≤ t.span.start ∧ t.span.stop ≤ m.stop))
  /-- Every dotted name that refers to something is linked. -/
  complete : ∀ front run back, LongestName false (tokenize text).1 front run back →
    ∃ inside, (runSpan run).Encloses text inside ∧
      ∀ target, Eval.Returns (env.target scope (unspaced inside)) target →
        ⟨(runSpan run).start, (runSpan run).stop, target⟩ ∈ links

/-- A name that refers to something is linked, and no other. -/
theorem linked_or_none {span : Span} {name : String}
    (h : Eval.Returns (tryCatch (do return [⟨span.start, span.stop, ← env.target scope name⟩])
      fun _ => pure []) links) :
    (∃ target, Eval.Returns (env.target scope name) target ∧
        links = [⟨span.start, span.stop, target⟩]) ∨
      (links = [] ∧ ∀ target, ¬Eval.Returns (env.target scope name) target) := by
  rcases Eval.returns_tryCatch_iff.mp h with hlinked | ⟨reason, hfailed, hnone⟩
  · obtain ⟨target, htarget, heq⟩ := Eval.returns_map_iff.mp hlinked
    exact .inl ⟨target, htarget, heq.symm⟩
  · refine .inr ⟨(Eval.returns_pure_iff.mp hnone).symm, fun target htarget => ?_⟩
    have hlinked := (Eval.returns_map_iff (f := fun t : Target => [TextLink.mk span.start span.stop t])
      (w := [⟨span.start, span.stop, target⟩])).mpr ⟨target, htarget, rfl⟩
    exact absurd (hfailed.symm.trans hlinked) (by simp)

/-- The links for some spans: those whose names refer to something, in their order. -/
theorem returns_linksAt {spans : List Span} (h : Eval.Returns (env.linksAt scope text spans) links) :
    (links.map TextLink.span).Sublist spans ∧
      (∀ l ∈ links, l.span ∈ spans ∧
        Eval.Returns (env.target scope (unspaced (l.span.text text.toList).toList)) l.target) ∧
      ∀ span ∈ spans, ∀ target,
        Eval.Returns (env.target scope (unspaced (span.text text.toList).toList)) target →
          ⟨span.start, span.stop, target⟩ ∈ links := by
  induction spans generalizing links with
  | nil =>
    rw [linksAt, Eval.returns_pure_iff] at h
    subst h
    simp
  | cons span spans ih =>
    rw [linksAt] at h
    obtain ⟨found, hfound, hrest⟩ := Eval.returns_bind_iff.mp h
    obtain ⟨more, hmore, rfl⟩ := Eval.returns_map_iff.mp hrest
    obtain ⟨hsub, hnames, hcomplete⟩ := ih hmore
    have hmore : ∀ l ∈ more, l.span ∈ span :: spans ∧
        Eval.Returns (env.target scope (unspaced (l.span.text text.toList).toList)) l.target :=
      fun l hl => ⟨List.mem_cons_of_mem _ (hnames l hl).1, (hnames l hl).2⟩
    obtain ⟨target, htarget, rfl⟩ | ⟨rfl, hnone⟩ := linked_or_none hfound
    · refine ⟨hsub.cons_cons span, List.forall_mem_cons.mpr ⟨⟨List.mem_cons_self, htarget⟩, hmore⟩,
        List.forall_mem_cons.mpr ⟨fun target' htarget' => ?_, fun span' hspan' target' htarget' =>
          List.mem_cons_of_mem _ (hcomplete span' hspan' target' htarget')⟩⟩
      have hsame := htarget.symm.trans htarget'
      obtain rfl : target = target' := Except.ok.inj (Option.some.inj hsame)
      exact List.mem_cons_self
    · exact ⟨hsub.cons span, hmore, List.forall_mem_cons.mpr
        ⟨fun target htarget => absurd htarget (hnone target), hcomplete⟩⟩

/-- **The links of a text stand where its dotted names do.** -/
theorem linksPlaced_of_returns (h : Eval.Returns (env.links scope text) links) :
    env.LinksPlaced scope text links := by
  obtain ⟨_, _, htext, hlead, htiles⟩ := exists_tiles_tokenize text
  have htiled : Tiled text.toList (tokenize text).1 := htext ▸ htiles.tiled hlead
  obtain ⟨runs, hscanned, hruns⟩ := nameRuns_eq false (tokenize text).1 htiled.aligned
  rw [TypeEnv.links, hruns] at h
  obtain ⟨hsub, hnames, hcomplete⟩ := returns_linksAt h
  -- the links are among the runs of names that are scanned, each of which is a longest dotted name
  have hencloses : ∀ run ∈ runs, ∃ inside, (runSpan run).Encloses text inside := fun run hrun =>
    have ⟨_, _, hlongest⟩ := hscanned.dotted_of_mem hrun
    exists_encloses htiled ((List.sublist_flatten_of_mem hrun).trans hscanned.sublist_flatten)
      hlongest.dotted.ne_nil
  have hapart : links.Pairwise fun l m => l.stop ≤ m.start :=
    List.pairwise_map.mp ((hscanned.pairwise_runSpan htiled.aligned).sublist hsub)
  have hplaced : ∀ l ∈ links, ∃ front run back inside,
      LongestName false (tokenize text).1 front run back ∧ l.span = runSpan run ∧
        l.span.Encloses text inside ∧ Eval.Returns (env.target scope (unspaced inside)) l.target := by
    intro l hl
    obtain ⟨hspan, htarget⟩ := hnames l hl
    obtain ⟨run, hrun, heq⟩ := List.mem_map.mp hspan
    obtain ⟨front, back, hlongest⟩ := hscanned.dotted_of_mem hrun
    obtain ⟨inside, hinside⟩ := hencloses run hrun
    rw [heq] at hinside
    rw [hinside.text_eq, String.toList_ofList] at htarget
    exact ⟨front, run, back, inside, hlongest, heq.symm, hinside, htarget⟩
  refine ⟨fun l hl => ?_, hapart, hplaced, hapart.imp fun hlm t ht hname hboth => ?_,
    fun front run back hlongest => ?_⟩
  · obtain ⟨front, run, back, _, hlongest, hspan, -, -⟩ := hplaced l hl
    have hforward := hlongest.start_lt_stop
    rw [← hspan] at hforward
    exact hforward
  · have hsolid := tokenize_solid text t ht (by rw [hname]; rfl)
    omega
  · have hrun := hscanned.mem_of_longestName hlongest
    obtain ⟨inside, hinside⟩ := hencloses run hrun
    refine ⟨inside, hinside, fun target htarget => ?_⟩
    refine hcomplete (runSpan run) (List.mem_map_of_mem hrun) target ?_
    rwa [hinside.text_eq, String.toList_ofList]

end TypeEnv

/-! ### The texts in a type -/

namespace TypeRef

/-- What holds of all texts in the alternate syntax that are parts of a type. -/
def AlternateAll (p : String → List TextLink → Prop) (t : TypeRef) : Prop :=
  ∀ text links, raw text .alternateSyntax links ∈ t.parts → p text links

variable {p : String → List TextLink → Prop}

/-- A member of a union has parts of the union alone. -/
theorem parts_of_mem_unionMembers {t member : TypeRef} (h : member ∈ t.unionMembers) :
    ∀ part ∈ member.parts, part ∈ t.parts := by
  cases t with
  | union members =>
    intro part hpart
    rw [parts]
    exact List.mem_cons_of_mem _ (mem_listParts_iff.mpr ⟨member, h, hpart⟩)
  | _ =>
    obtain rfl : member = _ := by simpa [unionMembers] using h
    exact fun part hpart => hpart

/-- What holds of the alternate parts of types holds of those of the list. -/
theorem AlternateAll.listParts {ts : List TypeRef} (h : ∀ t ∈ ts, AlternateAll p t) :
    ∀ text links, raw text .alternateSyntax links ∈ listParts ts → p text links := by
  intro text links hmem
  obtain ⟨t, ht, hpart⟩ := mem_listParts_iff.mp hmem
  exact h t ht text links hpart

/-- It holds of what is built of the types. -/
theorem closed_alternateAll (q : Target → Prop) : Closed q (AlternateAll p) where
  resolved _ text links h := by simp [parts] at h
  literal _ text links h := by simp [parts] at h
  ellipsis text links h := by simp [parts] at h
  generic hbase hargs text links h := by
    rw [parts, List.mem_cons, List.mem_append] at h
    obtain h | h | h := h
    · cases h
    · exact hbase text links h
    · exact AlternateAll.listParts hargs text links h
  params hitems text links h := by
    rw [parts, List.mem_cons] at h
    obtain h | h := h
    · cases h
    · exact AlternateAll.listParts hitems text links h
  unionOf {members} hmembers text links h := by
    rw [unionOf, parts, List.mem_cons] at h
    obtain h | h := h
    · cases h
    · obtain ⟨t, ht, hpart⟩ := mem_listParts_iff.mp h
      rcases mem_of_mem_foldl_insertNew ht with ht | ht
      · exact absurd ht List.not_mem_nil
      · obtain ⟨member, hmember, ht⟩ := List.mem_flatMap.mp ht
        exact hmembers member hmember text links (parts_of_mem_unionMembers ht _ hpart)

end TypeRef

/-- **The links in the types of annotations stand where the dotted names do**, in every text in the
    alternate syntax that is a part of the type. -/
theorem TypeEnv.linksPlaced_of_evaluate {env : TypeEnv} {scope : Option ClassScope} {raw : String}
    {type : TypeRef} (h : env.evaluate scope raw = some type) :
    ∀ text links, .raw text .alternateSyntax links ∈ type.parts →
      env.LinksPlaced scope text links := by
  have hlinks : ∀ text, Eval.Yields (fun links => TypeRef.AlternateAll (env.LinksPlaced scope)
      (.raw text .alternateSyntax links)) (env.links scope text) := by
    intro text outcome hrun
    cases outcome with
    | ok links =>
      intro text' links' hpart
      obtain ⟨rfl, rfl⟩ : text' = text ∧ links' = links := by simpa [TypeRef.parts] using hpart
      exact linksPlaced_of_returns hrun
    | error reason => exact yields_linksAt (yields_true_target env scope) text _ _ hrun
  obtain ⟨outcome, hrun, rfl⟩ := Option.map_eq_some_iff.mp h
  have hyields := yields_evalText_of_closed (TypeRef.closed_alternateAll fun _ => True) trivial
    (yields_true_target env scope) hlinks _ raw outcome hrun
  -- the invariant of the evaluation: no value and no failure holds a misplaced link
  cases outcome with
  | ok type => exact hyields
  | error reason =>
    -- a failure has another reason than the syntax
    intro text links hpart
    obtain ⟨-, rfl, -⟩ : text = trimmed raw ∧ reason = .alternateSyntax ∧ links = [] := by
      simpa [outcomeType, TypeRef.parts, eq_comm] using hpart
    exact absurd rfl hyields

namespace TypeEnv

/-- A package that defines a class. -/
def linkedInputs : List ModuleInput := [
  { name := "pkg", isPackage := true
    source := some (.parse "from typing import List\nclass C:\n    class D: ...\n" "pkg" true) }]

/-- A text in the alternate syntax in quotes, with blanks in a dotted name. -/
theorem linksPlaced_quoted :
    let links : List TextLink := [⟨0, 5, ⟨"pkg", "C.D", .package⟩⟩, ⟨8, 11, Target.ofBuiltin "int"⟩]
    ∃ env, (Analysis.linked "pkg" linkedInputs {}).typeEnv? "pkg" = some env ∧
      ∃ type, env.evaluate none "List['C . D | int']" = some type ∧
        .raw "C . D | int" .alternateSyntax links ∈ type.parts ∧
        env.LinksPlaced none "C . D | int" links := by
  intro links
  have hany : ((Analysis.linked "pkg" linkedInputs {}).typeEnv? "pkg").any (fun env =>
      decide (env.evaluate none "List['C . D | int']" = some (.generic
        (.resolved ⟨"typing", "List", .library⟩)
        [.raw "C . D | int" .alternateSyntax links]))) = true := by
    decide +kernel
  obtain ⟨env, henv, hany⟩ := (Option.any_eq_true _ _).mp hany
  have hevaluate := of_decide_eq_true hany
  have hpart : .raw "C . D | int" .alternateSyntax links ∈ TypeRef.parts (.generic
      (.resolved ⟨"typing", "List", .library⟩) [.raw "C . D | int" .alternateSyntax links]) := by
    simp [TypeRef.parts, TypeRef.listParts]
  exact ⟨env, henv, _, hevaluate, hpart, linksPlaced_of_evaluate hevaluate _ _ hpart⟩

end TypeEnv
end PackageDoc
