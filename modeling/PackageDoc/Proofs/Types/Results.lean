import PackageDoc.Analysis.TypeEval
import PackageDoc.Proofs.Paths.Rounds

namespace PackageDoc

/-!
# What evaluation results in

An annotation is evaluated to a type that is built from the targets of the names in it, or it is kept
as text as a whole.

* `TypeRef.parts` and `TypeRef.targets` — all that a type is made of;
* `TypeRef.BuiltFrom p` — a type in which nothing failed, with targets that satisfy `p` and unions in
  normal form;
* `TypeRef.nodup_foldl_insertNew`, `TypeRef.mem_of_mem_foldl_insertNew` — what is collected without
  duplicates;
* `TypeRef.Closed p q` — a property of types that is kept by all that expressions build;
* `Eval.Yields p x` — the value of an evaluation satisfies `p`, and its failures are failures;
* `Eval.Returns x v` — the evaluation comes to the value `v`;
* `Analysis.pathTarget_induction` — what holds of every outcome of one round holds of every path;
* `TypeEnv.evaluate_cases` — a type that is built from targets, or the whole text with a reason.
-/

namespace TypeRef

mutual

/-- A type and all types inside it. -/
def parts : TypeRef → List TypeRef
  | generic base args => generic base args :: (base.parts ++ listParts args)
  | union members => union members :: listParts members
  | params items => params items :: listParts items
  | t => [t]

/-- Some types and all types inside them. -/
def listParts : List TypeRef → List TypeRef
  | [] => []
  | t :: ts => t.parts ++ listParts ts

end

mutual

/-- The targets in a type, those of links in its texts included. -/
def targets : TypeRef → List Target
  | resolved target => [target]
  | generic base args => base.targets ++ listTargets args
  | union members => listTargets members
  | params items => listTargets items
  | raw _ _ links => links.map TextLink.target
  | literal _ => []
  | ellipsis => []

/-- The targets in some types. -/
def listTargets : List TypeRef → List Target
  | [] => []
  | t :: ts => t.targets ++ listTargets ts

end

/-- A type in which the only texts are those in the alternate syntax, all targets satisfy `p`, and
    unions have different members that are no unions. -/
inductive BuiltFrom (p : Target → Prop) : TypeRef → Prop where
  | resolved {target : Target} (h : p target) : BuiltFrom p (resolved target)
  | generic {base : TypeRef} {args : List TypeRef} (hbase : BuiltFrom p base)
      (hargs : ∀ t ∈ args, BuiltFrom p t) : BuiltFrom p (generic base args)
  | union {members : List TypeRef} (hnodup : members.Nodup) (hflat : ∀ ts, union ts ∉ members)
      (h : ∀ t ∈ members, BuiltFrom p t) : BuiltFrom p (union members)
  | literal (values : List String) : BuiltFrom p (literal values)
  | params {items : List TypeRef} (h : ∀ t ∈ items, BuiltFrom p t) : BuiltFrom p (params items)
  | ellipsis : BuiltFrom p ellipsis
  | alternate (text : String) {links : List TextLink} (h : ∀ l ∈ links, p l.target) :
      BuiltFrom p (raw text .alternateSyntax links)

variable {p : Target → Prop}

/-- The parts of several types are those of each. -/
theorem mem_listParts_iff {ts : List TypeRef} {part : TypeRef} :
    part ∈ listParts ts ↔ ∃ t ∈ ts, part ∈ t.parts := by
  induction ts with
  | nil => simp [listParts]
  | cons t ts ih => simp [listParts, ih]

/-- So are their targets. -/
theorem mem_listTargets_iff {ts : List TypeRef} {target : Target} :
    target ∈ listTargets ts ↔ ∃ t ∈ ts, target ∈ t.targets := by
  induction ts with
  | nil => simp [listTargets]
  | cons t ts ih => simp [listTargets, ih]

/-- Nothing failed in a type that is built from targets. -/
theorem BuiltFrom.not_isFailure {t : TypeRef} (h : t.BuiltFrom p) :
    ∀ part ∈ t.parts, part.isFailure = false := by
  -- the lists of types inside a type are handled by the type around them
  have hlist : ∀ ts : List TypeRef, (∀ t ∈ ts, ∀ part ∈ t.parts, part.isFailure = false) →
      ∀ part ∈ listParts ts, part.isFailure = false := by
    intro ts hts part hpart
    obtain ⟨t, ht, hpart⟩ := mem_listParts_iff.mp hpart
    exact hts t ht part hpart
  induction h with
  | resolved _ | literal _ | ellipsis | alternate _ _ => simp [parts, isFailure]
  | generic _ _ hbase hargs =>
    rw [parts, List.forall_mem_cons, List.forall_mem_append]
    exact ⟨rfl, hbase, hlist _ hargs⟩
  | union _ _ _ ih | params _ ih =>
    rw [parts, List.forall_mem_cons]
    exact ⟨rfl, hlist _ ih⟩

/-- What a type is built from holds of its targets. -/
theorem BuiltFrom.of_mem_targets {t : TypeRef} (h : t.BuiltFrom p) :
    ∀ target ∈ t.targets, p target := by
  have hlist : ∀ ts : List TypeRef, (∀ t ∈ ts, ∀ target ∈ t.targets, p target) →
      ∀ target ∈ listTargets ts, p target := by
    intro ts hts target htarget
    obtain ⟨t, ht, htarget⟩ := mem_listTargets_iff.mp htarget
    exact hts t ht target htarget
  induction h with
  | resolved h => simpa [targets] using h
  | literal _ | ellipsis => simp [targets]
  | alternate _ h => simpa [targets] using h
  | generic _ _ hbase hargs =>
    rw [targets, List.forall_mem_append]
    exact ⟨hbase, hlist _ hargs⟩
  | union _ _ _ ih | params _ ih =>
    rw [targets]
    exact hlist _ ih

/-- Types that are inserted were there or are among the new ones. -/
theorem mem_of_mem_foldl_insertNew {ts acc : List TypeRef} {t : TypeRef}
    (h : t ∈ ts.foldl insertNew acc) : t ∈ acc ∨ t ∈ ts := by
  induction ts generalizing acc with
  | nil => exact .inl h
  | cons t' ts ih =>
    rcases ih h with h | h
    · unfold insertNew at h
      split at h
      · exact .inl h
      · rcases List.mem_append.mp h with h | h
        · exact .inl h
        · exact .inr (by simp_all)
    · exact .inr (List.mem_cons_of_mem _ h)

/-- Inserting a type repeats none. -/
theorem nodup_insertNew {ts : List TypeRef} (h : ts.Nodup) (t : TypeRef) :
    (insertNew ts t).Nodup := by
  unfold insertNew
  split
  · exact h
  · rename_i hnew
    refine List.nodup_append.mpr ⟨h, List.nodup_singleton t, ?_⟩
    rintro u hu v hv rfl
    exact hnew (List.mem_singleton.mp hv ▸ hu)

/-- Nor does inserting several. -/
theorem nodup_foldl_insertNew {acc : List TypeRef} (h : acc.Nodup) (ts : List TypeRef) :
    (ts.foldl insertNew acc).Nodup := by
  induction ts generalizing acc with
  | nil => exact h
  | cons t ts ih => exact ih (nodup_insertNew h t)

/-- What a type that is built from targets contributes to a union is built from targets, and no
    union. -/
theorem BuiltFrom.of_mem_unionMembers {member t : TypeRef} (h : member.BuiltFrom p)
    (ht : t ∈ member.unionMembers) : t.BuiltFrom p ∧ ∀ ts, t ≠ .union ts := by
  have hbuilt := h
  cases hbuilt with
  | union _ hflat hts =>
    refine ⟨hts t ht, ?_⟩
    rintro ts rfl
    exact hflat ts ht
  | _ =>
    obtain rfl : t = _ := by simpa [unionMembers] using ht
    exact ⟨h, by simp⟩

/-- A union is built from what its members are built from. -/
theorem BuiltFrom.unionOf {members : List TypeRef} (h : ∀ t ∈ members, t.BuiltFrom p) :
    (unionOf members).BuiltFrom p := by
  have hmembers : ∀ t ∈ (members.flatMap unionMembers).foldl insertNew [],
      t.BuiltFrom p ∧ ∀ ts, t ≠ .union ts := by
    intro t ht
    rcases mem_of_mem_foldl_insertNew ht with ht | ht
    · exact absurd ht (by simp)
    · obtain ⟨member, hmember, ht⟩ := List.mem_flatMap.mp ht
      exact (h member hmember).of_mem_unionMembers ht
  refine .union (nodup_foldl_insertNew List.nodup_nil _) ?_ fun t ht => (hmembers t ht).1
  exact fun ts hts => (hmembers _ hts).2 ts rfl

/-- What holds of the targets that satisfy `p` and is kept by all that expressions build. -/
structure Closed (p : Target → Prop) (q : TypeRef → Prop) : Prop where
  resolved : ∀ {target}, p target → q (resolved target)
  generic : ∀ {base args}, q base → (∀ t ∈ args, q t) → q (generic base args)
  unionOf : ∀ {members}, (∀ t ∈ members, q t) → q (unionOf members)
  literal : ∀ values, q (literal values)
  params : ∀ {items}, (∀ t ∈ items, q t) → q (params items)
  ellipsis : q ellipsis

/-- What is built of types has the targets of those. -/
theorem closed_builtFrom (p : Target → Prop) : Closed p (BuiltFrom p) :=
  ⟨.resolved, .generic, .unionOf, .literal, .params, .ellipsis⟩

end TypeRef

/-! ### Values and failures of evaluations -/

/-- A value satisfies `p`; a failure is not one for the syntax of the text. -/
def Yielded {α : Type} (p : α → Prop) : Except RawReason α → Prop
  | .ok v => p v
  | .error reason => reason ≠ .alternateSyntax

/-- The outcome of the evaluation, if it has one, is a value that satisfies `p` or a failure. -/
def Eval.Yields {α : Type} (p : α → Prop) (x : Eval α) : Prop :=
  ∀ outcome, x.run = some outcome → Yielded p outcome

namespace Eval

variable {α β : Type} {p : α → Prop} {q : β → Prop}

/-- A value is yielded as it is. -/
theorem yields_pure {v : α} (h : p v) : Yields p (pure v) := by
  rintro outcome hrun
  obtain rfl : Except.ok v = outcome := by simpa using hrun
  exact h

/-- A failure without alternate syntax yields nothing. -/
theorem yields_throw {reason : RawReason} (h : reason ≠ .alternateSyntax) :
    Yields p (throw reason : Eval α) := by
  rintro outcome hrun
  obtain rfl : Except.error reason = outcome := by simpa using hrun
  exact h

theorem Yields.bind {x : Eval α} {f : α → Eval β} (hx : Yields p x)
    (hf : ∀ v, p v → Yields q (f v)) : Yields q (x >>= f) := by
  intro outcome hrun
  rw [ExceptT.run_bind] at hrun
  cases hxrun : x.run with
  | none => simp [hxrun] at hrun
  | some found =>
    cases found with
    | error reason =>
      obtain rfl : Except.error reason = outcome := by simpa [hxrun] using hrun
      exact hx _ hxrun
    | ok v =>
      rw [hxrun] at hrun
      exact hf v (hx _ hxrun) outcome hrun

theorem Yields.map {x : Eval α} {f : α → β} (hx : Yields p x) (hf : ∀ v, p v → q (f v)) :
    Yields q (do return f (← x)) :=
  hx.bind fun v hv => yields_pure (hf v hv)

/-- An evaluation with recovery yields what the recovery does too. -/
theorem Yields.tryCatch {x : Eval α} {handler : RawReason → Eval α} (hx : Yields p x)
    (hhandler : ∀ reason, Yields p (handler reason)) : Yields p (tryCatch x handler) := by
  intro outcome hrun
  rw [ExceptT.run_tryCatch] at hrun
  cases hxrun : x.run with
  | none => simp [hxrun] at hrun
  | some found =>
    cases found with
    | error reason => exact hhandler reason outcome (by simpa [hxrun] using hrun)
    | ok v =>
      obtain rfl : Except.ok v = outcome := by simpa [hxrun] using hrun
      exact hx _ hxrun

/-- The evaluation comes to the value `v`. -/
def Returns (x : Eval α) (v : α) : Prop :=
  x.run = some (.ok v)

/-- A value is returned as it is. -/
theorem returns_pure_iff {v w : α} : Returns (pure v) w ↔ v = w := by
  simp [Returns]

/-- Two evaluations in sequence return when both do. -/
theorem returns_bind_iff {x : Eval α} {f : α → Eval β} {w : β} :
    Returns (x >>= f) w ↔ ∃ v, Returns x v ∧ Returns (f v) w := by
  unfold Returns
  rw [ExceptT.run_bind]
  cases x.run with
  | none => simp
  | some outcome => cases outcome <;> simp

/-- What is returned is passed on through a function. -/
theorem returns_map_iff {x : Eval α} {f : α → β} {w : β} :
    Returns (do return f (← x)) w ↔ ∃ v, Returns x v ∧ f v = w := by
  simp only [returns_bind_iff, returns_pure_iff]

/-- An evaluation with recovery returns, or the recovery does. -/
theorem returns_tryCatch_iff {x : Eval α} {handler : RawReason → Eval α} {v : α} :
    Returns (tryCatch x handler) v ↔
      Returns x v ∨ ∃ reason, x.run = some (.error reason) ∧ Returns (handler reason) v := by
  unfold Returns
  rw [ExceptT.run_tryCatch]
  cases x.run with
  | none => simp
  | some outcome => cases outcome <;> simp

end Eval

/-! ### Paths -/

namespace Analysis

/-- What holds of the outcomes of rounds that put no other path in holds of the outcomes of all
    paths. -/
theorem pathTarget_induction (a : Analysis) {p : Except RawReason Target → Prop}
    (houtside : ∀ path, a.longestModule? [] path = none → p (libraryTarget path))
    (hmodule : ∀ module, a.isRegistered module = true → p (.ok ⟨module, "", .module⟩))
    (horigin : ∀ module head rest, (a.originOf module head).onward? rest = none →
      p ((a.originOf module head).target head rest))
    (path : List String) (outcome : Except RawReason Target)
    (h : a.pathTarget path = some outcome) : p outcome := by
  -- `pathTarget` is a least fixed point, so only its rounds that end with an outcome count
  refine pathTarget.partial_correctness a (fun _ outcome => p outcome) ?_ path outcome h
  intro onPath ih path outcome h
  unfold targetOnce at h
  split at h
  · rename_i hnone
    obtain rfl := Option.some.inj h
    exact houtside path hnone
  · rename_i module hfound
    obtain rfl := Option.some.inj h
    obtain ⟨names, -, -, rfl, hreg, -⟩ := (longestModule?_eq_some_iff _ _ _ _ _).mp hfound
    exact hmodule _ hreg
  · rename_i module head rest hfound
    unfold targetFrom at h
    split at h
    · exact ih _ outcome h
    · rename_i honward
      obtain rfl := Option.some.inj h
      exact horigin module head rest honward

end Analysis

/-- What a name comes from, if that is nothing to follow. -/
theorem Origin.yielded_target {p : Target → Prop} {o : Origin} {head : String}
    {rest : List String} (hdefinition : ∀ owner name, o = .definition owner name →
      p ⟨owner, dotted (name :: rest), .package⟩)
    (hlibrary : ∀ owner name, o = .library owner name → p ⟨owner, name, .library⟩)
    (hmodule : ∀ owner, o = .module owner → p ⟨owner, "", .module⟩) :
    Yielded p (o.target head rest) := by
  unfold Origin.target
  split
  · exact hdefinition _ _ rfl
  · exact hlibrary _ _ rfl
  · exact hmodule _ rfl
  · exact RawReason.noConfusion
  · exact RawReason.noConfusion

/-- A path outside the package names its last part in the module that the other parts name. -/
theorem Analysis.yielded_libraryTarget {p : Target → Prop} {path : List String}
    (hlast : ∀ last, path = [last] → p ⟨last, "", .library⟩)
    (hinit : ∀ init last, init ≠ [] → path = init ++ [last] → p ⟨dotted init, last, .library⟩) :
    Yielded p (Analysis.libraryTarget path) := by
  unfold Analysis.libraryTarget
  split
  · exact RawReason.noConfusion
  · rename_i last hgetLast
    obtain ⟨init, rfl⟩ := List.getLast?_eq_some_iff.mp hgetLast
    rw [List.dropLast_concat]
    split
    · exact hlast last (by simp)
    · rename_i hne
      exact hinit init last hne rfl

/-! ### Texts -/

namespace TypeEnv

variable {env : TypeEnv} {scope : Option ClassScope} {p : Target → Prop} {q : TypeRef → Prop}

/-- A subscription yields what is built of its base and its arguments. -/
theorem yields_subscripted (hq : TypeRef.Closed p q) {text : String} {base : TypeRef}
    {args : List Expr} {all : Unit → Eval (List TypeRef)} {first : Unit → Eval TypeRef}
    (hnone : p (Target.ofBuiltin "None")) (hbase : q base)
    (hall : Eval.Yields (fun ts => ∀ t ∈ ts, q t) (all ())) (hfirst : Eval.Yields q (first ())) :
    Eval.Yields q (subscripted text base args all first) := by
  unfold subscripted
  extract_lets is
  -- `Literal`, `Union`, `Optional`, `Annotated`, and any other generic type
  split
  · exact Eval.yields_pure (hq.literal _)
  split
  · exact hall.map fun ts hts => hq.unionOf hts
  split
  · refine hall.map fun ts hts => hq.unionOf fun t ht => ?_
    rcases List.mem_append.mp ht with ht | ht
    · exact hts t ht
    · obtain rfl : t = _ := by simpa using ht
      exact hq.resolved hnone
  split
  · exact hfirst.map fun t ht => hq.generic hbase (by simpa using ht)
  · exact hall.map fun ts hts => hq.generic hbase hts

/-- An expression denotes a type that is built from the targets of its names, if that holds of the
    strings in it. -/
theorem yields_evalExpr (hq : TypeRef.Closed p q) {text : String} {forward : String → Eval TypeRef}
    (hnone : p (Target.ofBuiltin "None")) (htarget : ∀ name, Eval.Yields p (env.target scope name))
    (hforward : ∀ value, Eval.Yields q (forward value)) (e : Expr) :
    Eval.Yields q (env.evalExpr scope text forward e) := by
  apply evalExpr_induction (P := fun e => Eval.Yields q (env.evalExpr scope text forward e))
    (Q := fun es => Eval.Yields (fun ts => ∀ t ∈ ts, q t) (env.evalAll scope text forward es))
    (R := fun es => Eval.Yields q (env.evalFirst scope text forward es))
  case name =>
    intro ident
    rw [evalExpr]
    exact (htarget _).map fun target h => hq.resolved h
  case dotted =>
    intro value field span name hname
    rw [evalExpr, hname]
    exact (htarget name).map fun target h => hq.resolved h
  case undotted =>
    intro value field span hname
    rw [evalExpr, hname]
    exact Eval.yields_throw (by simp)
  case none =>
    intro span
    rw [evalExpr]
    exact Eval.yields_pure (hq.resolved hnone)
  case ellipsis =>
    intro span
    rw [evalExpr]
    exact Eval.yields_pure hq.ellipsis
  case prefixed =>
    intro value isBytes isFormatted span hkind
    rw [evalExpr, if_pos hkind]
    exact Eval.yields_throw (by simp)
  case str =>
    intro value isBytes isFormatted span hkind
    rw [evalExpr, if_neg hkind]
    exact hforward value
  case list =>
    intro items span ih
    rw [evalExpr]
    exact ih.map fun ts hts => hq.params hts
  case emptyTuple =>
    intro span
    rw [evalExpr]
    exact Eval.yields_pure (hq.params (by simp))
  case subscriptTuple =>
    intro value items span span' ihvalue ihall ihfirst
    rw [evalExpr]
    exact ihvalue.bind fun base hbase => yields_subscripted hq hnone hbase ihall ihfirst
  case subscript =>
    intro value index span hindex ihvalue ihindex
    rw [evalExpr]
    · exact ihvalue.bind fun base hbase => yields_subscripted hq hnone hbase
        (ihindex.map fun t ht => by simpa using ht) ihindex
    · exact hindex
  case other =>
    intro e he
    rw [evalExpr_of_isNoType he]
    exact Eval.yields_throw (by simp)
  case allNil =>
    rw [evalAll]
    exact Eval.yields_pure (by simp)
  case allCons =>
    intro e es ih ihall
    rw [evalAll]
    refine ih.bind fun t ht => ihall.map fun ts hts => ?_
    exact List.forall_mem_cons.mpr ⟨ht, hts⟩
  case firstNil =>
    rw [evalFirst]
    exact Eval.yields_throw (by simp)
  case firstCons =>
    intro e es ih
    rw [evalFirst]
    exact ih

/-- The links of a text yield the targets of their names. -/
theorem yields_linksAt (htarget : ∀ name, Eval.Yields p (env.target scope name)) (text : String)
    (spans : List Span) :
    Eval.Yields (fun links => ∀ l ∈ links, p (TextLink.target l))
      (env.linksAt scope text spans) := by
  induction spans with
  | nil =>
    rw [linksAt]
    exact Eval.yields_pure (by simp)
  | cons span spans ih =>
    rw [linksAt]
    have hfound : ∀ name, Eval.Yields (fun links => ∀ l ∈ links, p (TextLink.target l))
        (tryCatch (do return [⟨span.start, span.stop, ← env.target scope name⟩])
          fun _ => pure []) := fun name =>
      Eval.Yields.tryCatch ((htarget name).map fun target h => by simpa using h)
        fun _ => Eval.yields_pure (by simp)
    refine (hfound _).bind fun found hfound => ih.map fun links hlinks l hl => ?_
    exact (List.mem_append.mp hl).elim (hfound l) (hlinks l)

/-- What holds of the types in the alternate syntax holds of all that texts denote, if it is kept by
    all that expressions build. -/
theorem yields_evalText_of_closed (hq : TypeRef.Closed p q) (hnone : p (Target.ofBuiltin "None"))
    (htarget : ∀ name, Eval.Yields p (env.target scope name))
    (hlinks : ∀ text, Eval.Yields (fun links => q (.raw text .alternateSyntax links))
      (env.links scope text)) (depth : Nat) (raw : String) :
    Eval.Yields q (env.evalText scope depth raw) := by
  induction depth generalizing raw with
  | zero => exact Eval.yields_throw (by simp)
  | succ depth ih =>
    have hforward : ∀ value, Eval.Yields q (forwardRef (env.evalText scope depth) value) := by
      intro value
      refine Eval.Yields.tryCatch (ih value) fun reason => ?_
      split <;> exact Eval.yields_throw (by simp)
    rw [evalText, evalTrimmed]
    split
    · exact (hlinks _).map fun links h => h
    · split
      · exact Eval.yields_throw (by simp)
      · exact yields_evalExpr hq hnone htarget hforward _

/-- A text denotes a type that is built from targets of names. -/
theorem yields_evalText (hnone : p (Target.ofBuiltin "None"))
    (htarget : ∀ name, Eval.Yields p (env.target scope name)) (depth : Nat) (raw : String) :
    Eval.Yields (TypeRef.BuiltFrom p) (env.evalText scope depth raw) := by
  refine yields_evalText_of_closed (TypeRef.closed_builtFrom p) hnone htarget (fun text => ?_) depth raw
  intro outcome hrun
  have hyields := yields_linksAt htarget text _ outcome hrun
  cases outcome with
  | ok links => exact .alternate text hyields
  | error reason => exact hyields

/-- What the target of a name is, by the place where the first part of the name is found. -/
theorem yields_target {name : String}
    (hclass : ∀ c ∈ scope, ∀ head rest, segments name = head :: rest →
      (MergedMember.find? c.members head).isSome →
        p ⟨env.module, c.qualname ++ "." ++ name, .package⟩)
    (hmember : ∀ head rest, segments name = head :: rest → (env.merged.member? head).isSome →
      p ⟨env.module, name, .package⟩)
    (hlink : ∀ head origin rest, Assoc.get? env.analysis.links (env.id, head) = some origin →
      origin.onward? rest = none → Yielded p (origin.target head rest))
    (hpath : ∀ path outcome, env.analysis.pathTarget path = some outcome → Yielded p outcome)
    (hbuiltin : ∀ head, isBuiltin head = true → p (Target.ofBuiltin head)) :
    Eval.Yields p (env.target scope name) := by
  unfold target
  split
  · exact Eval.yields_throw (by simp)
  rename_i head rest hsegments
  dsimp only
  split
  -- in the body of the class
  · rename_i c hc
    obtain ⟨rfl, hfound⟩ : scope = some c ∧ (MergedMember.find? c.members head).isSome := by
      simpa [Option.filter_eq_some_iff] using hc
    exact Eval.yields_pure (hclass c rfl head rest hsegments hfound)
  split
  -- among the definitions of the module
  · rename_i hfound
    exact Eval.yields_pure (hmember head rest hsegments hfound)
  split
  -- among its imports
  · rename_i origin horigin
    intro outcome hrun
    change Analysis.targetFrom _ origin head rest = some outcome at hrun
    unfold Analysis.targetFrom at hrun
    split at hrun
    · exact hpath _ outcome hrun
    · rename_i honward
      obtain rfl := Option.some.inj hrun
      exact hlink head origin rest horigin honward
  split
  -- as the path of a module, or as a builtin
  · exact fun outcome hrun => hpath _ outcome hrun
  split
  · rename_i hbuilt
    exact Eval.yields_pure (hbuiltin head (by simp_all))
  · exact Eval.yields_throw (by simp)

/-- A failure to find a target is not one for the syntax of a text. -/
theorem yields_true_target (env : TypeEnv) (scope : Option ClassScope) (name : String) :
    Eval.Yields (fun _ => True) (env.target scope name) := by
  refine yields_target (fun _ _ _ _ _ _ => trivial) (fun _ _ _ _ => trivial)
    (fun head origin rest _ _ => Origin.yielded_target (fun _ _ _ => trivial)
      (fun _ _ _ => trivial) fun _ _ => trivial) (fun path outcome hpath => ?_) fun _ _ => trivial
  exact env.analysis.pathTarget_induction (p := Yielded fun _ => True)
    (fun path _ => Analysis.yielded_libraryTarget (fun _ _ => trivial) fun _ _ _ _ => trivial)
    (fun _ _ => trivial)
    (fun module head rest _ => Origin.yielded_target (fun _ _ _ => trivial)
      (fun _ _ _ => trivial) fun _ _ => trivial) path outcome hpath

/-- What an annotation is evaluated to: a type that is built from the targets of names, or its whole
    text with the reason of the failure. -/
theorem evaluate_cases (hnone : p (Target.ofBuiltin "None"))
    (htarget : ∀ name, Eval.Yields p (env.target scope name)) {raw : String} {type : TypeRef}
    (h : env.evaluate scope raw = some type) :
    type.BuiltFrom p ∨
      ∃ reason, reason ≠ .alternateSyntax ∧ type = .raw (trimmed raw) reason [] := by
  obtain ⟨outcome, hrun, rfl⟩ := Option.map_eq_some_iff.mp h
  have hyields := yields_evalText hnone htarget _ raw outcome hrun
  cases outcome with
  | ok type => exact .inl hyields
  | error reason => exact .inr ⟨reason, hyields, rfl⟩

end TypeEnv
end PackageDoc
