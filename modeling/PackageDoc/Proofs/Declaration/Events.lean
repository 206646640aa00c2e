import PackageDoc.Proofs.Declaration.Bindings
import PackageDoc.Proofs.Declaration.Visits

namespace PackageDoc

/-!
# The events of a body

Every statement that a walk comes to is a list of events, each of which binds one name.  A walk over a
body binds what these events bind, one after another, and collects what the initializers declare.

* `TargetsName` — which names the targets of an assignment hold, in order;
* `NameAssignment` — an assignment to one name, with what its statement says about it;
* `BindingEvent`, `BindingEvent.onto` — the events, and what they make of the binding of their name;
* `Visit.bindings`, `Visit.attributeAssignments` — the events of a statement, and those of an
  initializer;
* `Body`, `Body.scope`, `Body.events` — module and class bodies with their bindings and events;
* `initBody_eq_collected` — what a walk over an initializer declares;
* `Walks` — what a walk over some statements does to what was found before;
* `walks_declareBody` — a walk over a body does what its visits say.
-/

/-! ### The names in targets -/

/-- Some targets hold some names, from left to right: a display is read item by item in its place, and
    what is neither a name nor a display holds no name. -/
inductive TargetsName : List Expr → List String → Prop where
  | nil : TargetsName [] []
  | name {rest : List Expr} {names : List String} (ident : Ident) :
    TargetsName rest names → TargetsName (.name ident :: rest) (ident.name :: names)
  | tuple {items rest : List Expr} {names : List String} (span : Span) :
    TargetsName (items ++ rest) names → TargetsName (.tuple items span :: rest) names
  | list {items rest : List Expr} {names : List String} (span : Span) :
    TargetsName (items ++ rest) names → TargetsName (.list items span :: rest) names
  | other {e : Expr} {rest : List Expr} {names : List String} (hname : ∀ ident, e ≠ .name ident)
    (htuple : ∀ items span, e ≠ .tuple items span) (hlist : ∀ items span, e ≠ .list items span) :
    TargetsName rest names → TargetsName (e :: rest) names

namespace TargetsName

variable {es rest : List Expr} {names more : List String}

/-- The names of two lists of targets are those of both joined. -/
theorem append (h : TargetsName es names) (hrest : TargetsName rest more) :
    TargetsName (es ++ rest) (names ++ more) := by
  induction h with
  | nil => exact hrest
  | name ident _ ih => exact .name ident ih
  | tuple span _ ih =>
    rw [List.append_assoc] at ih
    exact .tuple span ih
  | list span _ ih =>
    rw [List.append_assoc] at ih
    exact .list span ih
  | other hname htuple hlist _ ih => exact .other hname htuple hlist ih

/-- So are the ones that are collected. -/
theorem targetNamesList_append (es rest : List Expr) :
    Expr.targetNamesList (es ++ rest) = Expr.targetNamesList es ++ Expr.targetNamesList rest := by
  induction es with
  | nil => rfl
  | cons e es ih =>
    rw [List.cons_append, Expr.targetNamesList, ih, Expr.targetNamesList, List.append_assoc]

/-- Collected are the names that the targets hold. -/
theorem targetNamesList_eq (h : TargetsName es names) : Expr.targetNamesList es = names := by
  induction h with
  | nil => rfl
  | name ident _ ih => rw [Expr.targetNamesList, ih, Expr.targetNames, List.singleton_append]
  | tuple span _ ih | list span _ ih =>
    rw [Expr.targetNamesList, Expr.targetNames, ← targetNamesList_append, ih]
  | @other e _ _ hname htuple hlist _ ih =>
    have hnone : e.targetNames = [] := by
      cases e with
      | name ident => exact absurd rfl (hname ident)
      | tuple items span => exact absurd rfl (htuple items span)
      | list items span => exact absurd rfl (hlist items span)
      | _ => rfl
    rw [Expr.targetNamesList, ih, hnone, List.nil_append]

mutual

/-- The names collected from a target are the ones it holds. -/
theorem of_targetNames : ∀ e : Expr, TargetsName [e] e.targetNames
  | .name ident => .name ident .nil
  | .tuple items span => by
    rw [Expr.targetNames]
    exact .tuple span (by simpa using of_targetNamesList items)
  | .list items span => by
    rw [Expr.targetNames]
    exact .list span (by simpa using of_targetNamesList items)
  | .attr .. | .subscript .. | .call .. | .str .. | .num .. | .bool .. | .none _ | .ellipsis _
  | .dict .. | .union .. | .unmodelled _ => .other nofun nofun nofun .nil

/-- So are those collected from several. -/
theorem of_targetNamesList : ∀ es : List Expr, TargetsName es (Expr.targetNamesList es)
  | [] => .nil
  | e :: es => by
    rw [Expr.targetNamesList]
    exact (of_targetNames e).append (of_targetNamesList es)

end

/-- **The names of an assignment are those that its targets hold**, at any depth. -/
theorem iff_targetNamesList : TargetsName es names ↔ Expr.targetNamesList es = names :=
  ⟨targetNamesList_eq, fun h => h ▸ of_targetNamesList es⟩

end TargetsName

/-! ### Events -/

/-- An assignment to a name or to an attribute of the instance. -/
structure NameAssignment where
  name : String
  line : Nat
  /-- The text of the annotation. -/
  annotation : Option String
  /-- The text of the type comment. -/
  typeComment : Option String
  docstring : Option String
  commentDoc : Option String
  /-- The text of the value. -/
  value : Option String
  /-- Made by an initializer? -/
  onInstance : Bool
  /-- In a branch for type checkers? -/
  guarded : Bool
  /-- In such a branch even without those of the initializer that it stands in? -/
  guardedOutside : Bool
  deriving Repr, DecidableEq

namespace NameAssignment

/-- What the assignment declares. -/
def decl (a : NameAssignment) : VariableDecl :=
  { name := a.name
    line := a.line
    hint := (a.annotation <|> a.typeComment).map fun text => { raw := text }
    docstring := a.docstring
    commentDoc := a.commentDoc
    value := a.value
    instanceVar := a.onInstance
    typeChecking := a.guardedOutside }

/-- What an assignment to a name makes of the binding of the name. -/
def ontoName (a : NameAssignment) : Option Binding → Binding
  | some (.function f) =>
    if f.hasOverloads then
      .function { f with assignedDocstring := f.assignedDocstring <|> a.docstring }
    else .variable a.decl
  | some (.variable v) => .variable (v.merge a.decl)
  | _ => .variable a.decl

end NameAssignment

/-- What an assignment to an attribute makes of the binding of the attribute in the class body. -/
def VariableDecl.ontoAttribute (v : VariableDecl) : Option Binding → Binding
  | some (.variable earlier) => .variable (earlier.merge v)
  | some b => b
  | none => .variable v

/-- Something in a body that binds a name. -/
inductive BindingEvent where
  | define (decl : FunctionDecl)
  | classDef (decl : ClassDecl) (scope : Scope)
  | assign (assignment : NameAssignment)
  | importAs (name : String) (decl : ExternalDecl)

namespace BindingEvent

/-- The name that is bound. -/
def name : BindingEvent → String
  | define decl => decl.name
  | classDef decl _ => decl.name
  | assign a => a.name
  | importAs name _ => name

/-- What an event makes of the binding of its name. -/
def onto : BindingEvent → Option Binding → Binding
  | define decl, some (.function f) => .function { f with decls := f.decls ++ [decl] }
  | define decl, _ => .function { decls := [decl] }
  | classDef decl scope, _ => .classDef decl scope
  | assign a, b => if a.onInstance then a.decl.ontoAttribute b else a.ontoName b
  | importAs _ decl, _ => .external decl

/-- Bind the name of an event. -/
def applyTo (scope : Scope) (e : BindingEvent) : Scope :=
  scope.change e.name e.onto

end BindingEvent

/-! ### The events of a body -/

/-- The body of a module or class, with what is known before it. -/
structure Body where
  ctx : BodyContext
  stmts : List (Placed Stmt)
  known : Vocabulary := {}

namespace Body

/-- What a walk over the body finds. -/
def found (body : Body) : BodyState :=
  declareBody body.ctx body.stmts body.known.start

/-- The bindings of the body, instance variables included. -/
def scope (body : Body) : Scope :=
  body.found.instanceVars.foldl BodyState.bindInstanceVar body.found.scope

/-- The statements that a walk over the body comes to. -/
def visits (body : Body) : List Visit :=
  visitBody body.ctx body.known body.stmts

end Body

namespace Visit

/-- The assignment of a name by a statement. -/
def assignment (v : Visit) (a : Assignment) (name : String) : NameAssignment :=
  { name := name
    line := v.ctx.lineOf v.place.span.start
    annotation := a.hint.map fun e => v.ctx.text e.span
    typeComment := a.typeComment
    docstring := v.docstring
    commentDoc := v.place.commentDoc?
    value := a.value.map fun e => v.ctx.text e.span
    onInstance := false
    guarded := v.ctx.typeChecking
    guardedOutside := v.ctx.typeChecking }

/-- The assignments to attributes of the variable `self` by a statement of an initializer, which stands
    in a branch for type checkers if `outside` says so. -/
def assignmentsTo (self : String) (outside : Bool) (v : Visit) : List NameAssignment :=
  match v.stmt with
  | .assign a =>
    (Expr.attributeTargetsList self a.targets).map fun name =>
      { v.assignment a name with onInstance := true, guardedOutside := outside }
  | _ => []

/-- The declaration of a class. -/
def classDecl (v : Visit) (h : ClassHeader) (body : List (Placed Stmt)) : ClassDecl :=
  ⟨h.name.name, v.ctx.lineOf h.name.span.start, h.decorators.map fun d => v.ctx.text d.span,
    h.bases.map v.ctx.hint, bodyDocstring? body⟩

/-- The body of a class. -/
def classBody (v : Visit) (body : List (Placed Stmt)) : Body :=
  ⟨{ v.ctx with inClass := true }, body, v.known⟩

/-- The statement that states the visibility rules of a module binds no name. -/
def statesRules (v : Visit) (a : Assignment) : Bool :=
  !v.ctx.inClass && match a.targets with
    | [.name ident] => ident.name == "__autodoc__"
    | _ => false

/-- The events of a statement. -/
def bindings (v : Visit) : List BindingEvent :=
  match v.stmt with
  | .functionDef h body =>
    if h.decorators.any (isPropertyAccessor h.name.name) then []
    else [.define (BodyState.functionDecl v.ctx v.known.start h (bodyDocstring? body))]
  | .classDef h body => [.classDef (v.classDecl h body) (v.classBody body).scope]
  | .assign a =>
    if v.statesRules a then []
    else (Expr.targetNamesList a.targets).map fun name => .assign (v.assignment a name)
  | .importFrom i =>
    match v.ctx.absoluteModule? i with
    | none => []
    | some module =>
      if module = "__future__" then []
      else (i.names.filter fun a => a.name ≠ "*").map fun a =>
        .importAs a.boundName
          ⟨module, a.name, v.ctx.lineOf v.place.span.start, v.ctx.typeChecking⟩
  | _ => []

/-- An assignment that states no rules assigns the names that its targets hold. -/
theorem bindings_of_assign {v : Visit} {a : Assignment} {names : List String}
    (hstmt : v.stmt = .assign a) (hrules : v.statesRules a = false)
    (hnames : TargetsName a.targets names) :
    v.bindings = names.map fun name => .assign (v.assignment a name) := by
  rw [bindings, hstmt, ← TargetsName.iff_targetNamesList.mp hnames]
  exact if_neg (Bool.eq_false_iff.mp hrules)

/-- Which statements have events, by the kinds of event. -/
theorem mem_bindings_cases {v : Visit} {e : BindingEvent} (h : e ∈ v.bindings) :
    (∃ decl, e = .define decl) ∨
      (∃ header stmts, v.stmt = .classDef header stmts ∧
        e = .classDef (v.classDecl header stmts) (v.classBody stmts).scope) ∨
      (∃ name decl, e = .importAs name decl) ∨
      ∃ assigned name, e = .assign (v.assignment assigned name) := by
  unfold bindings at h
  split at h
  · split at h
    · cases h
    · exact .inl ⟨_, List.mem_singleton.mp h⟩
  · rename_i header stmts hstmt
    exact .inr (.inl ⟨header, stmts, hstmt, List.mem_singleton.mp h⟩)
  · split at h
    · cases h
    · obtain ⟨name, -, rfl⟩ := List.mem_map.mp h
      exact .inr (.inr (.inr ⟨_, name, rfl⟩))
  · split at h
    · cases h
    · split at h
      · cases h
      · obtain ⟨name, -, rfl⟩ := List.mem_map.mp h
        exact .inr (.inr (.inl ⟨_, _, rfl⟩))
  · cases h

/-- The assignments that an initializer makes to attributes of its first parameter. -/
def attributeAssignments (v : Visit) : List NameAssignment :=
  match v.stmt with
  | .functionDef h body =>
    if h.decorators.any (isPropertyAccessor h.name.name) then []
    else match h.params with
      | self :: _ =>
        if v.ctx.inClass && h.name.name = "__init__" then
          (visitBody v.ctx v.known body).flatMap
            (assignmentsTo self.name.name v.ctx.typeChecking)
        else []
      | [] => []
  | _ => []

/-- The instance variables that an initializer declares. -/
def instanceVars (v : Visit) : List VariableDecl :=
  (v.attributeAssignments.map NameAssignment.decl).foldl BodyState.addInstanceVar []

end Visit

/-- The events of a body in order.  Those of the initializers of a class come behind all others. -/
def Body.events (body : Body) : List BindingEvent :=
  body.visits.flatMap Visit.bindings ++
    (body.visits.flatMap Visit.attributeAssignments).map .assign

/-! ### Initializers -/

section Initializer

variable {self : String} {outside : Bool}

/-- What an initializer declares is collected from the assignments that a walk over it comes to. -/
def collected (self : String) (outside : Bool) (visits : List Visit) (vars : List VariableDecl) :
    List VariableDecl :=
  ((visits.flatMap (Visit.assignmentsTo self outside)).map NameAssignment.decl).foldl
    BodyState.addInstanceVar vars

/-- Attributes are collected from visits one after the other. -/
theorem collected_append (first second : List Visit) (vars : List VariableDecl) :
    collected self outside (first ++ second) vars =
      collected self outside second (collected self outside first vars) := by
  simp only [collected, List.flatMap_append, List.map_append, List.foldl_append]

/-- One statement of an initializer that is no condition and no block. -/
theorem initStmt_of_isSimple {stmt : Stmt} (h : stmt.IsSimple) (ctx : BodyContext)
    (known : Vocabulary) (place : Placed Stmt) (docstring : Option String)
    (vars : List VariableDecl) :
    initStmt { ctx with typeChecking := outside } self place docstring stmt vars =
      collected self outside [⟨ctx, place, docstring, known, stmt⟩] vars := by
  cases stmt with
  | cond | block => exact h.elim
  | assign a =>
    have hdecl : ∀ name, ({ BodyState.variableOf { ctx with typeChecking := outside } a place
        docstring with name := name, instanceVar := true } : VariableDecl) =
        NameAssignment.decl { Visit.assignment ⟨ctx, place, docstring, known, .assign a⟩ a name with
          onInstance := true, guardedOutside := outside } := by
      intro name
      cases hhint : a.hint <;> cases htype : a.typeComment <;>
        simp [BodyState.variableOf, NameAssignment.decl, Visit.assignment, BodyContext.hint,
          BodyContext.text, BodyContext.lineOf, hhint, htype]
    rw [initStmt, collected, BodyState.assignInstance, List.flatMap_singleton,
      Visit.assignmentsTo, List.map_map, List.foldl_map]
    simp only [Function.comp_apply, ← hdecl]
  | _ => simp [initStmt, collected, Visit.assignmentsTo]

mutual

/-- A walk over an initializer declares what it comes to.  Whether that is for type checkers only does
    not depend on the conditions in the initializer. -/
theorem initBody_eq_collected (known : Vocabulary) : ∀ (ctx : BodyContext)
    (body : List (Placed Stmt)) (vars : List VariableDecl),
      initBody { ctx with typeChecking := outside } self body vars =
        collected self outside (visitBody ctx known body) vars
  | ctx, [], vars => by simp [initBody, visitBody, collected]
  | ctx, p :: rest, vars => by
    rw [initBody, visitBody, collected_append, initPlaced_eq_collected known,
      initBody_eq_collected]

/-- A statement of an initializer collects the attributes of its visits. -/
theorem initPlaced_eq_collected (known : Vocabulary) : ∀ (ctx : BodyContext) (p : Placed Stmt)
    (docstring : Option String) (vars : List VariableDecl),
      initPlaced { ctx with typeChecking := outside } self p docstring vars =
        collected self outside (visitPlaced ctx known docstring p) vars
  | ctx, ⟨stmt, _, _, _⟩, docstring, vars => by
    rw [initPlaced, visitPlaced, initStmt_eq_collected]

/-- So does one without its comments. -/
theorem initStmt_eq_collected (known : Vocabulary) : ∀ (ctx : BodyContext) (place : Placed Stmt)
    (docstring : Option String) (stmt : Stmt) (vars : List VariableDecl),
      initStmt { ctx with typeChecking := outside } self place docstring stmt vars =
        collected self outside (visitStmt ctx known place docstring stmt) vars
  | ctx, _, _, .cond test body orelse, vars => by
    have hbody := initBody_eq_collected known
      { ctx with typeChecking := ctx.typeChecking || known.start.isTyping test "TYPE_CHECKING" }
      body vars
    rw [initStmt, visitStmt, collected_append, ← hbody, ← initBody_eq_collected]
  | ctx, _, _, .block bodies, vars => by
    rw [initStmt, visitStmt, initBodies_eq_collected]
  | ctx, place, docstring, .functionDef .., vars | ctx, place, docstring, .classDef .., vars
  | ctx, place, docstring, .assign .., vars | ctx, place, docstring, .importNames .., vars
  | ctx, place, docstring, .importFrom .., vars | ctx, place, docstring, .expr .., vars
  | ctx, place, docstring, .other, vars => by
    rw [visitStmt_of_isSimple (by trivial), initStmt_of_isSimple (by trivial)]

/-- So do the bodies inside a statement. -/
theorem initBodies_eq_collected (known : Vocabulary) : ∀ (ctx : BodyContext)
    (bodies : List (List (Placed Stmt))) (vars : List VariableDecl),
      initBodies { ctx with typeChecking := outside } self bodies vars =
        collected self outside (visitBodies ctx known bodies) vars
  | ctx, [], vars => by simp [initBodies, visitBodies, collected]
  | ctx, body :: bodies, vars => by
    rw [initBodies, visitBodies, collected_append, initBody_eq_collected known,
      initBodies_eq_collected]

end

/-- So does the whole initializer. -/
theorem Visit.initBody_eq (v : Visit) (self : String) (body : List (Placed Stmt)) :
    initBody v.ctx self body [] = collected self v.ctx.typeChecking (visitBody v.ctx v.known body) [] :=
  initBody_eq_collected v.known v.ctx body []

end Initializer

/-! ### What a walk does -/

/-- A walk over some statements leads from one state to another: it learns, it binds names and it
    collects instance variables. -/
structure Walks (visits : List Visit) (s s' : BodyState) : Prop where
  vocabulary : s'.vocabulary = s.vocabulary.after visits
  scope : s'.scope = (visits.flatMap Visit.bindings).foldl BindingEvent.applyTo s.scope
  instanceVars : s'.instanceVars = s.instanceVars ++ visits.flatMap Visit.instanceVars

namespace Walks

variable {s s' s'' : BodyState} {first second : List Visit}

theorem refl (s : BodyState) : Walks [] s s :=
  ⟨rfl, rfl, by simp⟩

theorem trans (h : Walks first s s') (h' : Walks second s' s'') :
    Walks (first ++ second) s s'' where
  vocabulary := by rw [h'.vocabulary, h.vocabulary, Vocabulary.after_append]
  scope := by rw [h'.scope, h.scope, List.flatMap_append, List.foldl_append]
  instanceVars := by
    rw [h'.instanceVars, h.instanceVars, List.flatMap_append, List.append_assoc]

/-- One visit. -/
theorem single {v : Visit} (hvocabulary : s'.vocabulary = s.vocabulary.learn v.ctx v.stmt)
    (hscope : s'.scope = v.bindings.foldl BindingEvent.applyTo s.scope)
    (hinstance : s'.instanceVars = s.instanceVars ++ v.instanceVars) : Walks [v] s s' :=
  ⟨hvocabulary, by simpa using hscope, by simpa using hinstance⟩

end Walks

namespace BodyState

/-! #### Imports -/

/-- `import` statements teach names of modules and bind nothing. -/
theorem foldl_importModule (names : List Alias) (s : BodyState) :
    (names.foldl importModule s).vocabulary =
        { s.vocabulary with modules := s.vocabulary.modules ++
          (names.filter fun a => Target.isTypingModule a.name).map Alias.boundName } ∧
      (names.foldl importModule s).scope = s.scope ∧
      (names.foldl importModule s).instanceVars = s.instanceVars := by
  induction names generalizing s with
  | nil => simp [vocabulary]
  | cons a names ih =>
    obtain ⟨hvocabulary, hscope, hinstance⟩ := ih (s.importModule a)
    have hone : (s.importModule a).vocabulary =
        { s.vocabulary with modules := s.vocabulary.modules ++
          if Target.isTypingModule a.name then [a.boundName] else [] } ∧
        (s.importModule a).scope = s.scope ∧
        (s.importModule a).instanceVars = s.instanceVars := by
      unfold importModule
      cases a.asName <;> by_cases htyping : Target.isTypingModule a.name = true <;>
        simp [vocabulary, htyping]
    rw [List.foldl_cons, hvocabulary, hscope, hinstance, hone.1, hone.2.1, hone.2.2]
    by_cases htyping : Target.isTypingModule a.name = true <;> simp [htyping]

/-- The names of a `from` import are bound in order, each to its own import, apart from the star. -/
theorem foldl_importName (ctx : BodyContext) (module : String) (line : Nat) (names : List Alias)
    (s : BodyState) :
    (names.foldl (importName ctx module line) s).vocabulary = s.vocabulary ∧
      (names.foldl (importName ctx module line) s).scope =
        ((names.filter fun a => a.name ≠ "*").map fun a => BindingEvent.importAs a.boundName
          ⟨module, a.name, line, ctx.typeChecking⟩).foldl BindingEvent.applyTo s.scope ∧
      (names.foldl (importName ctx module line) s).instanceVars = s.instanceVars := by
  induction names generalizing s with
  | nil => simp
  | cons a names ih =>
    obtain ⟨hvocabulary, hscope, hinstance⟩ := ih (importName ctx module line s a)
    rw [List.foldl_cons, hvocabulary, hscope, hinstance]
    unfold importName
    by_cases hstar : a.name = "*"
    · cases hclass : ctx.inClass <;> simp [hstar, vocabulary]
    · simp [hstar, vocabulary, bind, BindingEvent.applyTo, BindingEvent.name, BindingEvent.onto,
        Roster.change]

/-- An `import` is walked as one visit. -/
theorem walks_importNames {v : Visit} {names : List Alias} (hstmt : v.stmt = .importNames names)
    (s : BodyState) :
    Walks [v] s (if v.ctx.inClass then s else names.foldl importModule s) := by
  have hevents : v.bindings = [] ∧ v.instanceVars = [] := by
    simp [Visit.bindings, Visit.instanceVars, Visit.attributeAssignments, hstmt]
  obtain ⟨hvocabulary, hscope, hinstance⟩ := foldl_importModule names s
  refine .single ?_ ?_ ?_
  · rw [hstmt, Vocabulary.learn]
    split
    · rfl
    · exact hvocabulary
  · rw [hevents.1]
    split
    · rfl
    · exact hscope
  · rw [hevents.2, List.append_nil]
    split
    · rfl
    · exact hinstance

/-- So is a `from` import. -/
theorem walks_importFrom {v : Visit} {i : ImportFrom} (hstmt : v.stmt = .importFrom i)
    (s : BodyState) : Walks [v] s (s.importFrom v.ctx i (v.ctx.lineOf v.place.span.start)) := by
  have hvars : v.instanceVars = [] := by
    simp [Visit.instanceVars, Visit.attributeAssignments, hstmt]
  unfold importFrom
  cases hmodule : v.ctx.absoluteModule? i with
  | none =>
    exact .single (by simp [Vocabulary.learn, hstmt, hmodule, vocabulary, report])
      (by simp [Visit.bindings, hstmt, hmodule, report]) (by simp [hvars, report])
  | some module =>
    dsimp only
    by_cases hfuture : module = "__future__"
    · subst hfuture
      exact .single (by simp [Vocabulary.learn, hstmt, hmodule, Target.isTypingModule])
        (by simp [Visit.bindings, hstmt, hmodule]) (by simp [hvars])
    · rw [if_neg hfuture]
      -- the names are bound after the vocabulary among them was learned
      obtain ⟨hvocabulary, hscope, hinstance⟩ := foldl_importName v.ctx module
        (v.ctx.lineOf v.place.span.start) i.names
        (if !v.ctx.inClass && Target.isTypingModule module then
          { s with typingNames := addTypingNames s.typingNames i.names } else s)
      refine .single (hvocabulary.trans ?_) (hscope.trans ?_) (hinstance.trans ?_)
      · rw [hstmt, Vocabulary.learn, hmodule]
        dsimp only
        split <;> rfl
      · simp only [Visit.bindings, hstmt, hmodule, if_neg hfuture]
        split <;> rfl
      · rw [hvars, List.append_nil]
        split <;> rfl

/-! #### Assignments -/

/-- An assignment to `__autodoc__` binds nothing more. -/
theorem assignAutodoc_eq (value : Option Expr) (line : Nat) (s : BodyState) :
    (s.assignAutodoc value line).vocabulary = s.vocabulary ∧
      (s.assignAutodoc value line).scope = s.scope ∧
      (s.assignAutodoc value line).instanceVars = s.instanceVars := by
  have hreports : ∀ (entries : List (Option Expr × Expr)) (s : BodyState),
      let s' := entries.foldl
        (fun s e => if (autodocRule? e).isNone then s.report .autodocEntry line else s) s
      s'.vocabulary = s.vocabulary ∧ s'.scope = s.scope ∧ s'.instanceVars = s.instanceVars := by
    intro entries
    induction entries with
    | nil => exact fun s => ⟨rfl, rfl, rfl⟩
    | cons e entries ih =>
      intro s
      obtain ⟨hvocabulary, hscope, hinstance⟩ := ih
        (if (autodocRule? e).isNone then s.report .autodocEntry line else s)
      refine ⟨hvocabulary.trans ?_, hscope.trans ?_, hinstance.trans ?_⟩ <;> split <;> rfl
  unfold assignAutodoc
  split
  · exact hreports _ s
  · exact ⟨rfl, rfl, rfl⟩

/-- Writing in the place of a binding binds the name anew. -/
theorem rebind_eq_bind (s : BodyState) {name : String} {b : Binding}
    (h : s.scope.get? name = some b) (b' : Binding) : s.rebind name b' = s.bind name b' := by
  rw [rebind, bind, Roster.set_eq_bind (by rw [h]; rfl)]

/-- Assigning to a variable binds it to what the assignment makes of it. -/
theorem assignVariable_decl (s : BodyState) (a : NameAssignment) :
    s.assignVariable a.decl = s.bind a.name (a.ontoName (s.scope.get? a.name)) := by
  have hname : a.decl.name = a.name := rfl
  unfold assignVariable
  rw [hname]
  cases hget : s.scope.get? a.name with
  | none => rfl
  | some b =>
    cases b with
    | function f =>
      dsimp only [NameAssignment.ontoName]
      split
      · exact s.rebind_eq_bind hget _
      · rfl
    | «variable» earlier => exact s.rebind_eq_bind hget _
    | _ => rfl

/-- Names that are assigned are bound one after another. -/
theorem foldl_assignVariable (as : List NameAssignment) (has : ∀ a ∈ as, a.onInstance = false)
    (s : BodyState) :
    (as.foldl (fun s a => s.assignVariable a.decl) s) =
      { s with scope := (as.map BindingEvent.assign).foldl BindingEvent.applyTo s.scope } := by
  induction as generalizing s with
  | nil => rfl
  | cons a as ih =>
    obtain ⟨ha, has⟩ := List.forall_mem_cons.mp has
    rw [List.foldl_cons, ih has, assignVariable_decl]
    simp [bind, BindingEvent.applyTo, BindingEvent.name, BindingEvent.onto, Roster.change, ha]

/-- The declaration of an assignment to a name is that of the statement, under the name. -/
theorem decl_assignment (v : Visit) (a : Assignment) (name : String) :
    (v.assignment a name).decl = { variableOf v.ctx a v.place v.docstring with name := name } := by
  cases hhint : a.hint <;> cases htype : a.typeComment <;>
    simp [variableOf, NameAssignment.decl, Visit.assignment, BodyContext.hint, hhint, htype]

/-- An assignment is walked as one visit. -/
theorem walks_assign {v : Visit} {a : Assignment} (hstmt : v.stmt = .assign a) (s : BodyState) :
    Walks [v] s (s.assign v.ctx a v.place v.docstring) := by
  have hvars : v.instanceVars = [] := by
    simp [Visit.instanceVars, Visit.attributeAssignments, hstmt]
  have hlearn : s.vocabulary.learn v.ctx v.stmt = s.vocabulary := by rw [hstmt]; rfl
  -- an assignment that states rules binds no name
  by_cases hrules : v.statesRules a = true
  · have hassign : s.assign v.ctx a v.place v.docstring =
        s.assignAutodoc a.value (v.ctx.lineOf v.place.span.start) := by
      rw [assign]
      exact if_pos ((Bool.and_comm _ _).trans hrules)
    obtain ⟨hvocabulary, hscope, hinstance⟩ :=
      assignAutodoc_eq a.value (v.ctx.lineOf v.place.span.start) s
    have hbindings : v.bindings = [] := by
      rw [Visit.bindings, hstmt]
      exact if_pos hrules
    rw [hassign]
    exact .single (hvocabulary.trans hlearn.symm) (by rw [hscope, hbindings]; rfl)
      (by rw [hinstance, hvars, List.append_nil])
  · have hassign : s.assign v.ctx a v.place v.docstring =
        ((Expr.targetNamesList a.targets).map (v.assignment a)).foldl
          (fun s a => s.assignVariable a.decl) s := by
      rw [assign, List.foldl_map]
      simp only [decl_assignment]
      exact if_neg fun h => hrules ((Bool.and_comm _ _).trans h)
    rw [hassign, foldl_assignVariable _ (by simp [Visit.assignment])]
    refine .single hlearn.symm ?_ (by rw [hvars, List.append_nil])
    rw [Visit.bindings_of_assign hstmt (Bool.eq_false_iff.mpr hrules)
      (TargetsName.iff_targetNamesList.mpr rfl), List.map_map]
    rfl

/-! #### Definitions -/

/-- Binding a function is changing its name by a definition. -/
theorem bindFunction_eq (s : BodyState) (decl : FunctionDecl) :
    s.bindFunction decl =
      s.bind decl.name (BindingEvent.onto (.define decl) (s.scope.get? decl.name)) := by
  unfold bindFunction
  cases hget : s.scope.get? decl.name with
  | none => rfl
  | some b =>
    cases b with
    | function f => exact s.rebind_eq_bind hget _
    | _ => rfl

/-- A function is walked as one visit, with the attributes that its initializer adds. -/
theorem walks_declareFunction {v : Visit} {h : FunctionHeader} {body : List (Placed Stmt)}
    (hstmt : v.stmt = .functionDef h body) {s : BodyState} (hknown : s.vocabulary = v.known) :
    Walks [v] s (declareFunction v.ctx h body s) := by
  have hlearn : s.vocabulary.learn v.ctx v.stmt = s.vocabulary := by rw [hstmt]; rfl
  have hbindings : v.bindings = if h.decorators.any (isPropertyAccessor h.name.name) then []
      else [.define (functionDecl v.ctx s h (bodyDocstring? body))] := by
    rw [Visit.bindings, hstmt, ← hknown]
    rfl
  by_cases haccessor : h.decorators.any (isPropertyAccessor h.name.name) = true
  · rw [declareFunction, if_pos haccessor]
    refine .single hlearn.symm (by rw [hbindings, if_pos haccessor]; rfl) ?_
    simp [Visit.instanceVars, Visit.attributeAssignments, hstmt, haccessor]
  -- an initializer adds its instance variables before it is bound itself
  have hcollected : (match h.params with
      | self :: _ =>
        if v.ctx.inClass && h.name.name = "__init__" then
          { s with instanceVars := s.instanceVars ++ initBody v.ctx self.name.name body [] }
        else s
      | [] => s) = { s with instanceVars := s.instanceVars ++ v.instanceVars } := by
    rw [Visit.instanceVars, Visit.attributeAssignments, hstmt]
    simp only [if_neg haccessor]
    cases h.params with
    | nil => simp
    | cons self params =>
      dsimp only
      by_cases hinit : (v.ctx.inClass && h.name.name = "__init__") = true
      · rw [if_pos hinit, if_pos hinit, v.initBody_eq, collected]
      · rw [if_neg hinit, if_neg hinit]
        simp
  have hdeclare : declareFunction v.ctx h body s =
      bindFunction { s with instanceVars := s.instanceVars ++ v.instanceVars }
        (functionDecl v.ctx s h (bodyDocstring? body)) := by
    rw [declareFunction, if_neg haccessor]
    exact congrArg (bindFunction · _) hcollected
  rw [hdeclare, bindFunction_eq]
  exact .single hlearn.symm (by rw [hbindings, if_neg haccessor]; rfl) rfl

/-- What the walk over the body of a class finds does not depend on what was bound around it. -/
theorem walks_bindClass {v : Visit} {h : ClassHeader} {body : List (Placed Stmt)}
    (hstmt : v.stmt = .classDef h body) {s inner : BodyState}
    (hinner : Walks (v.classBody body).visits { s with scope := .empty, instanceVars := [] } inner)
    (hfound : Walks (v.classBody body).visits v.known.start (v.classBody body).found) :
    Walks [v] s (bindClass v.ctx h (bodyDocstring? body) s inner) := by
  have hscope : inner.instanceVars.foldl bindInstanceVar inner.scope =
      (v.classBody body).scope := by
    rw [Body.scope, hfound.scope, hfound.instanceVars, hinner.scope, hinner.instanceVars]
    rfl
  refine .single ?_ ?_ ?_
  · rw [hstmt]
    exact hinner.vocabulary.trans (Vocabulary.after_visitBody rfl _ _ _)
  · rw [show v.bindings = [.classDef (v.classDecl h body) (v.classBody body).scope] by
      rw [Visit.bindings, hstmt], ← hscope]
    rfl
  · rw [show v.instanceVars = [] by simp [Visit.instanceVars, Visit.attributeAssignments, hstmt],
      List.append_nil]
    rfl

end BodyState

mutual

/-- A walk over a body does what its visits say. -/
theorem walks_declareBody : ∀ (ctx : BodyContext) (body : List (Placed Stmt)) (s : BodyState),
    Walks (visitBody ctx s.vocabulary body) s (declareBody ctx body s)
  | _, [], s => by
    rw [visitBody, declareBody]
    exact .refl s
  | ctx, p :: rest, s => by
    have hfirst := walks_declarePlaced ctx p (rest.head?.bind Placed.text?) s
    rw [visitBody, declareBody]
    refine hfirst.trans ?_
    rw [← hfirst.vocabulary]
    exact walks_declareBody ctx rest _

/-- A statement is walked as its visits. -/
theorem walks_declarePlaced : ∀ (ctx : BodyContext) (p : Placed Stmt) (docstring : Option String)
    (s : BodyState), Walks (visitPlaced ctx s.vocabulary docstring p) s
      (declarePlaced ctx p docstring s)
  | ctx, ⟨stmt, _, _, _⟩, docstring, s => by
    rw [visitPlaced, declarePlaced]
    exact walks_declareStmt ctx _ docstring stmt s

/-- So is one without its comments. -/
theorem walks_declareStmt : ∀ (ctx : BodyContext) (place : Placed Stmt)
    (docstring : Option String) (stmt : Stmt) (s : BodyState),
      Walks (visitStmt ctx s.vocabulary place docstring stmt) s
        (declareStmt ctx place docstring stmt s)
  | ctx, place, docstring, .functionDef h body, s => by
    rw [visitStmt_of_isSimple (by trivial), declareStmt]
    exact BodyState.walks_declareFunction rfl rfl
  | ctx, place, docstring, .classDef h body, s => by
    rw [visitStmt_of_isSimple (by trivial), declareStmt]
    exact BodyState.walks_bindClass rfl
      (walks_declareBody { ctx with inClass := true } body
        { s with scope := .empty, instanceVars := [] })
      (walks_declareBody { ctx with inClass := true } body s.vocabulary.start)
  | ctx, place, docstring, .assign a, s => by
    rw [visitStmt_of_isSimple (by trivial), declareStmt]
    exact BodyState.walks_assign rfl s
  | ctx, place, docstring, .importNames names, s => by
    rw [visitStmt_of_isSimple (by trivial), declareStmt]
    exact BodyState.walks_importNames rfl s
  | ctx, place, docstring, .importFrom i, s => by
    rw [visitStmt_of_isSimple (by trivial), declareStmt]
    exact BodyState.walks_importFrom rfl s
  | ctx, place, docstring, .cond test body orelse, s => by
    have hbody := walks_declareBody { ctx with
      typeChecking := ctx.typeChecking || s.vocabulary.start.isTyping test "TYPE_CHECKING" } body s
    rw [visitStmt, declareStmt]
    -- the second branch is read with the vocabulary behind the first
    refine hbody.trans ?_
    rw [← hbody.vocabulary]
    exact walks_declareBody ctx orelse _
  | ctx, place, docstring, .block bodies, s => by
    rw [visitStmt, declareStmt]
    exact walks_declareBodies ctx bodies s
  | ctx, place, docstring, .expr _, s | ctx, place, docstring, .other, s => by
    rw [visitStmt_of_isSimple (by trivial), declareStmt]
    exact .single rfl rfl (List.append_nil _).symm

/-- So are the bodies inside a statement. -/
theorem walks_declareBodies : ∀ (ctx : BodyContext) (bodies : List (List (Placed Stmt)))
    (s : BodyState), Walks (visitBodies ctx s.vocabulary bodies) s (declareBodies ctx bodies s)
  | _, [], s => by
    rw [visitBodies, declareBodies]
    exact .refl s
  | ctx, body :: bodies, s => by
    have hfirst := walks_declareBody ctx body s
    rw [visitBodies, declareBodies]
    refine hfirst.trans ?_
    rw [← hfirst.vocabulary]
    exact walks_declareBodies ctx bodies _

end

end PackageDoc
