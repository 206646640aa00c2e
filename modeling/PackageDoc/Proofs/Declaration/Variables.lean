import Mathlib.Data.List.DropRight
import PackageDoc.Proofs.Declaration.Fold

namespace PackageDoc

/-!
# What a variable keeps of its assignments

A name that is only assigned is bound to a variable with the line of its first assignment, the first
documentation and the last value that it was given.

* `Body.AssignedBy` — a name is bound by certain assignments and by nothing else;
* `VariableDecl.Keeps` — what a variable keeps of its assignments in every case;
* `VariableDecl.SumsUp` — it also keeps their last annotation, or their last type comment if none is
  annotated, and is for type checkers only if all of them are;
* `lastType_eq` — the last type that is written, annotation or comment;
* `Body.sumsUp_iff` — a variable sums up its assignments unless a type comment stands behind the last
  annotation, or a condition in an initializer makes the difference.
-/

/-- The assignment, if the event is one. -/
def BindingEvent.assignment? : BindingEvent → Option NameAssignment
  | assign a => some a
  | _ => none

/-- The variable, if the binding is one. -/
def Binding.variable? : Binding → Option VariableDecl
  | .variable v => some v
  | _ => none

/-- The assignments bind the name in the body, in this order, and nothing else does. -/
def Body.AssignedBy (body : Body) (name : String) (as : List NameAssignment) : Prop :=
  (body.events.filter fun e => e.name = name).map BindingEvent.assignment? = as.map some

instance (body : Body) (name : String) (as : List NameAssignment) :
    Decidable (body.AssignedBy name as) :=
  inferInstanceAs (Decidable (_ = _))

/-! ### What is written last -/

namespace NameAssignment

/-- The type that is written. -/
def type? (a : NameAssignment) : Option String :=
  a.annotation <|> a.typeComment

/-- The last type that is written. -/
def lastType? (as : List NameAssignment) : Option String :=
  (as.filterMap type?).getLast?

/-- The last annotation. -/
def lastAnnotation? (as : List NameAssignment) : Option String :=
  (as.filterMap annotation).getLast?

/-- The last type comment. -/
def lastTypeComment? (as : List NameAssignment) : Option String :=
  (as.filterMap typeComment).getLast?

/-- The assignments behind the last one that is annotated. -/
def unannotated (as : List NameAssignment) : List NameAssignment :=
  as.rtakeWhile fun a => a.annotation.isNone

/-- The last value that assignments give is that of the last one, if it gives any. -/
theorem getLast?_filterMap_concat {α : Type} (f : NameAssignment → Option α)
    (as : List NameAssignment) (a : NameAssignment) :
    ((as ++ [a]).filterMap f).getLast? = (f a <|> (as.filterMap f).getLast?) := by
  rw [List.filterMap_append, List.getLast?_append]
  cases h : f a <;> simp [h]

/-- A type comment counts before the annotations that stand in front of it. -/
theorem lastType_eq (as : List NameAssignment) :
    lastType? as = (lastTypeComment? (unannotated as) <|> lastAnnotation? as) := by
  -- from the last assignment backwards: an annotation ends what stands behind it
  induction as using List.reverseRecOn with
  | nil => rfl
  | append_singleton as a ih =>
    rw [lastType?, lastAnnotation?, getLast?_filterMap_concat, getLast?_filterMap_concat,
      unannotated, List.rtakeWhile_concat]
    cases hannotation : a.annotation with
    | some text => simp [type?, hannotation, lastTypeComment?]
    | none =>
      rw [if_pos (by simp), lastTypeComment?, getLast?_filterMap_concat]
      show (a.type? <|> lastType? as) = _
      rw [ih, type?, hannotation]
      simp [Option.or_assoc, lastTypeComment?, lastAnnotation?, unannotated]

/-- Without an annotation no assignment is left out. -/
theorem unannotated_eq_self {as : List NameAssignment} (h : lastAnnotation? as = none) :
    unannotated as = as := by
  refine List.rtakeWhile_eq_self_iff.mpr fun a ha => ?_
  have hnone : as.filterMap annotation = [] := List.getLast?_eq_none_iff.mp h
  rw [List.filterMap_eq_nil_iff.mp hnone a ha]
  rfl

/-- No type comment behind the last annotation says anything else than the annotation. -/
def CommentsAgree (as : List NameAssignment) : Prop :=
  ∀ text ∈ lastAnnotation? as, ∀ comment ∈ lastTypeComment? (unannotated as), comment = text

/-- The annotation that was written last counts, or the last type comment if none was, exactly when no
    later comment disagrees with it. -/
theorem lastType_eq_iff (as : List NameAssignment) :
    lastType? as = (lastAnnotation? as <|> lastTypeComment? as) ↔ CommentsAgree as := by
  rw [lastType_eq, CommentsAgree]
  cases hannotation : lastAnnotation? as with
  | none => simp [unannotated_eq_self hannotation]
  | some text =>
    cases hcomment : lastTypeComment? (unannotated as) with
    | none => simp
    | some comment => simp

end NameAssignment

/-! ### Variables -/

namespace VariableDecl

open NameAssignment

/-- What a variable keeps of its assignments. -/
structure Keeps (v : VariableDecl) (as : List NameAssignment) : Prop where
  line : as.head?.map NameAssignment.line = some v.line
  docstring : v.docstring = (as.filterMap NameAssignment.docstring).head?
  commentDoc : v.commentDoc = (as.filterMap NameAssignment.commentDoc).head?
  value : v.value = (as.filterMap NameAssignment.value).getLast?
  instanceVar : v.instanceVar = true ↔ ∃ a ∈ as, a.onInstance = true

/-- The variable keeps the last annotation, or the last type comment if there is no annotation, and is
    bound for type checkers only if all assignments are made for them. -/
structure SumsUp (v : VariableDecl) (as : List NameAssignment) : Prop extends Keeps v as where
  hint : v.hint = (lastAnnotation? as <|> lastTypeComment? as).map fun text => { raw := text }
  typeChecking : v.typeChecking = true ↔ ∀ a ∈ as, a.guarded = true

/-- The variable with some more assignments. -/
def assigned (v : VariableDecl) (as : List NameAssignment) : VariableDecl :=
  as.foldl (fun v a => v.merge a.decl) v

/-- The first value that assignments give is that of the first one that gives any. -/
theorem head?_filterMap_concat {α : Type} (f : NameAssignment → Option α)
    (as : List NameAssignment) (a : NameAssignment) :
    ((as ++ [a]).filterMap f).head? = ((as.filterMap f).head? <|> f a) := by
  rw [List.filterMap_append, List.head?_append]
  cases h : f a <;> simp [h]

/-- The first documentation and the last type and value count. -/
theorem assigned_eq (v : VariableDecl) (as : List NameAssignment) :
    v.assigned as =
      { v with
        docstring := v.docstring <|> (as.filterMap NameAssignment.docstring).head?
        commentDoc := v.commentDoc <|> (as.filterMap NameAssignment.commentDoc).head?
        hint := ((lastType? as).map fun text => { raw := text }) <|> v.hint
        value := (as.filterMap NameAssignment.value).getLast? <|> v.value
        instanceVar := v.instanceVar || as.any NameAssignment.onInstance
        typeChecking := v.typeChecking && as.all NameAssignment.guardedOutside } := by
  induction as using List.reverseRecOn with
  | nil => simp [assigned, lastType?]
  | append_singleton as a ih =>
    have hlast : v.assigned (as ++ [a]) = (v.assigned as).merge a.decl := by
      rw [assigned, List.foldl_append]
      rfl
    have hhint : lastType? (as ++ [a]) = (a.type? <|> lastType? as) :=
      getLast?_filterMap_concat type? as a
    rw [hlast, ih, head?_filterMap_concat, head?_filterMap_concat, getLast?_filterMap_concat, hhint,
      List.any_append, List.all_append]
    simp [merge, NameAssignment.decl, type?, Option.map_or, Option.or_assoc, Bool.or_assoc,
      Bool.and_assoc]

/-- The type of a variable is the last one that is written in its assignments. -/
theorem hint_assigned (a : NameAssignment) (as : List NameAssignment) :
    (a.decl.assigned as).hint = (lastType? (a :: as)).map fun text => { raw := text } := by
  have hfirst : lastType? (a :: as) = (lastType? as <|> a.type?) := by
    rw [lastType?, List.filterMap_cons]
    cases a.type? with
    | none => simp [lastType?]
    | some text => simp [lastType?, List.getLast?_cons]
  rw [assigned_eq, hfirst]
  simp [NameAssignment.decl, type?, Option.map_or]

/-- A variable is for type checking alone exactly when all its assignments are. -/
theorem typeChecking_assigned (a : NameAssignment) (as : List NameAssignment) :
    (a.decl.assigned as).typeChecking = true ↔ ∀ e ∈ a :: as, e.guardedOutside = true := by
  rw [assigned_eq, List.forall_mem_cons, ← List.all_eq_true, ← Bool.and_eq_true]
  rfl

/-- Merging the assignments of a variable keeps what it has to keep of them. -/
theorem keeps_assigned (a : NameAssignment) (as : List NameAssignment) :
    (a.decl.assigned as).Keeps (a :: as) := by
  have hfirst : ∀ f : NameAssignment → Option String,
      ((a :: as).filterMap f).head? = (f a <|> (as.filterMap f).head?) := by
    intro f
    rw [List.filterMap_cons]
    cases f a <;> simp
  have hlast : ((a :: as).filterMap NameAssignment.value).getLast? =
      ((as.filterMap NameAssignment.value).getLast? <|> a.value) := by
    rw [List.filterMap_cons]
    cases a.value with
    | none => simp
    | some text => simp [List.getLast?_cons]
  rw [assigned_eq]
  refine ⟨rfl, (hfirst NameAssignment.docstring).symm, (hfirst NameAssignment.commentDoc).symm,
    hlast.symm, ?_⟩
  rw [List.exists_mem_cons_iff, ← List.any_eq_true, ← Bool.or_eq_true]
  rfl

end VariableDecl

/-! ### Names that are only assigned -/

namespace Body

variable {body : Body} {name : String} {as : List NameAssignment}

/-- The events of a name that is only assigned to are its assignments. -/
theorem AssignedBy.events_eq (h : body.AssignedBy name as) :
    body.events.filter (fun e => e.name = name) = as.map BindingEvent.assign := by
  have hassign : ∀ (events : List BindingEvent) (as : List NameAssignment),
      events.map BindingEvent.assignment? = as.map some → events = as.map BindingEvent.assign := by
    intro events
    induction events with
    | nil => exact fun as h => by rw [List.map_eq_nil_iff.mp h.symm]; rfl
    | cons e events ih =>
      intro as h
      obtain _ | ⟨a, as⟩ := as
      · exact absurd h (List.cons_ne_nil _ _)
      · obtain ⟨he, hevents⟩ := List.cons.inj h
        cases e with
        | assign b =>
          rw [List.map_cons, ih as hevents, Option.some.inj he]
        | _ => exact absurd he (Option.some_ne_none a).symm
  exact hassign _ as h

/-- The name is bound to the variable that the assignments declare. -/
theorem AssignedBy.get?_eq {a : NameAssignment} (h : body.AssignedBy name (a :: as)) :
    body.scope.get? name = some (.variable (a.decl.assigned as)) := by
  have hfold : ∀ (as : List NameAssignment) (v : VariableDecl),
      (as.map BindingEvent.assign).foldl (fun b e => some (e.onto b)) (some (.variable v)) =
        some (.variable (v.assigned as)) := by
    intro as
    induction as with
    | nil => exact fun v => rfl
    | cons a as ih =>
      intro v
      have hmerge : BindingEvent.onto (.assign a) (some (.variable v)) =
          .variable (v.merge a.decl) := by
        show (if a.onInstance then _ else _) = _
        split <;> rfl
      rw [List.map_cons, List.foldl_cons, hmerge, ih]
      rfl
  -- the first assignment finds no binding, so it declares the variable
  have hfirst : BindingEvent.onto (.assign a) none = .variable a.decl := by
    show (if a.onInstance then _ else _) = _
    split <;> rfl
  rw [body.isFoldOf_events.binding name, h.events_eq, List.map_cons, List.foldl_cons, hfirst]
  exact hfold as a.decl

/-- An assignment in a branch for type checkers around its initializer is in such a branch. -/
theorem AssignedBy.guarded (h : body.AssignedBy name as) :
    ∀ a ∈ as, a.guardedOutside = true → a.guarded = true := by
  intro a ha houtside
  have hevent : BindingEvent.assign a ∈ body.events := by
    refine List.mem_of_mem_filter (p := fun e => e.name = name) ?_
    rw [h.events_eq]
    exact List.mem_map_of_mem ha
  rcases List.mem_append.mp hevent with hevent | hevent
  -- outside initializers an assignment is guarded where it stands
  · obtain ⟨v, -, hv⟩ := List.mem_flatMap.mp hevent
    obtain ⟨_, ⟨⟩⟩ | ⟨_, _, -, ⟨⟩⟩ | ⟨_, _, ⟨⟩⟩ | ⟨assigned, name, ⟨⟩⟩ := Visit.mem_bindings_cases hv
    exact houtside
  · obtain ⟨b, hb, heq⟩ := List.mem_map.mp hevent
    obtain rfl := BindingEvent.assign.inj heq
    obtain ⟨v, -, hv⟩ := List.mem_flatMap.mp hb
    obtain ⟨-, hguard, hguarded⟩ := Visit.of_mem_attributeAssignments hv
    exact hguarded (hguard ▸ houtside)

/-- **A variable sums up its assignments** unless a type comment behind the last annotation says
    something else, or all assignments are for type checkers and one of them is so by a condition in an
    initializer. -/
theorem sumsUp_iff (h : body.AssignedBy name as) (has : as ≠ []) :
    ∃ v, body.scope.get? name = some (.variable v) ∧ v.Keeps as ∧
      (v.SumsUp as ↔ NameAssignment.CommentsAgree as ∧
        ((∀ a ∈ as, a.guarded = true) → ∀ a ∈ as, a.guardedOutside = true)) := by
  obtain _ | ⟨first, rest⟩ := as
  · exact absurd rfl has
  have hkeeps := VariableDecl.keeps_assigned first rest
  have htype : (first.decl.assigned rest).hint =
      ((NameAssignment.lastAnnotation? (first :: rest) <|>
        NameAssignment.lastTypeComment? (first :: rest)).map fun text => { raw := text }) ↔
      NameAssignment.CommentsAgree (first :: rest) := by
    rw [VariableDecl.hint_assigned, ← NameAssignment.lastType_eq_iff]
    refine (Option.map_injective fun text text' heq => ?_).eq_iff
    exact congrArg TypeHint.raw heq
  refine ⟨_, h.get?_eq, hkeeps, fun hsums => ⟨htype.mp hsums.hint, fun hall => ?_⟩,
    fun ⟨hagree, hguards⟩ => ⟨hkeeps, htype.mpr hagree, ?_⟩⟩
  · exact (VariableDecl.typeChecking_assigned first rest).mp (hsums.typeChecking.mpr hall)
  · rw [VariableDecl.typeChecking_assigned]
    exact ⟨fun hall a ha => h.guarded a ha (hall a ha), hguards⟩

/-- The body of a source text. -/
def ofSource (source : String) : Body :=
  ofSuite (Suite.parse source) source "m" false

/-- A variable declared in a class and assigned in its initializer is summed up. -/
theorem sumsUp_iff_initialized :
    let declared : NameAssignment :=
      ⟨"x", 2, some "int", none, some "Doc.", none, none, false, false, false⟩
    let assigned : NameAssignment :=
      ⟨"x", 5, none, none, none, none, some "1", true, false, false⟩
    let classes := (ofSource
      "class C:\n    x: int\n    'Doc.'\n    def __init__(self):\n        self.x = 1\n").classBodies
    classes ≠ [] ∧ ∀ body ∈ classes, body.AssignedBy "x" [declared, assigned] ∧
      ∃ v, body.scope.get? "x" = some (.variable v) ∧ v.SumsUp [declared, assigned] := by
  intro declared assigned classes
  have hassigned : classes ≠ [] ∧ ∀ body ∈ classes, body.AssignedBy "x" [declared, assigned] := by
    decide +kernel
  refine ⟨hassigned.1, fun body hbody => ?_⟩
  obtain ⟨v, hv, -, hiff⟩ := body.sumsUp_iff (hassigned.2 body hbody) (List.cons_ne_nil _ _)
  refine ⟨hassigned.2 body hbody, v, hv, hiff.mpr ?_⟩
  unfold NameAssignment.CommentsAgree
  decide

/-- A type comment behind an annotation. -/
def retyped : Body :=
  ofSource "x: int = 1\nx = 2  # type: str\n"

/-- The bodies of the classes in a text, one of which has an attribute for type checkers only. -/
def guardedClasses : List Body :=
  (ofSource ("from typing import TYPE_CHECKING\nclass C:\n    def __init__(self):\n" ++
    "        if TYPE_CHECKING:\n            self.x = 1\n")).classBodies

/-- A type comment counts instead of the annotation in front of it, and a condition in an initializer
    does not count. -/
theorem not_sumsUp_retyped :
    (∃ as ≠ [], retyped.AssignedBy "x" as ∧
      ¬∃ v, retyped.scope.get? "x" = some (.variable v) ∧ v.SumsUp as) ∧
    ∃ body ∈ guardedClasses, ∃ as ≠ [], body.AssignedBy "x" as ∧
      ¬∃ v, body.scope.get? "x" = some (.variable v) ∧ v.SumsUp as := by
  constructor
  · refine ⟨[⟨"x", 1, some "int", none, none, none, some "1", false, false, false⟩,
      ⟨"x", 2, none, some "str", none, none, some "2", false, false, false⟩],
      List.cons_ne_nil _ _, by decide +kernel, ?_⟩
    rintro ⟨v, hv, hsums⟩
    have hfound : ((retyped.scope.get? "x").bind Binding.variable?).map VariableDecl.hint =
        some (some { raw := "str" }) := by
      decide +kernel
    rw [hv] at hfound
    exact absurd (hsums.hint.symm.trans (Option.some.inj hfound)) (by decide)
  · obtain ⟨hne, hall⟩ : guardedClasses ≠ [] ∧ ∀ body ∈ guardedClasses,
        body.AssignedBy "x" [⟨"x", 5, none, none, none, none, some "1", true, true, false⟩] ∧
          ((body.scope.get? "x").bind Binding.variable?).map VariableDecl.typeChecking =
            some false := by
      decide +kernel
    obtain ⟨body, hbody⟩ := List.exists_mem_of_ne_nil _ hne
    obtain ⟨hassigned, hfound⟩ := hall body hbody
    refine ⟨body, hbody, _, List.cons_ne_nil _ _, hassigned, ?_⟩
    rintro ⟨v, hv, hsums⟩
    rw [hv] at hfound
    have hguarded : v.typeChecking = true := hsums.typeChecking.mpr (by decide)
    exact absurd ((Option.some.inj hfound).symm.trans hguarded) (by decide)

end Body
end PackageDoc
