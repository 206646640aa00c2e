import PackageDoc.Declaration.Table

namespace PackageDoc

/-!
# The statements that a walk comes to

A walk over a body enters the bodies of conditions and blocks, and comes to the other statements one by
one, in the order of the source.  At each of them it knows the names that the annotation vocabulary was
imported under before, and whether it stands in a branch for type checkers.

* `Vocabulary` — the names that the annotation vocabulary is known by, and what imports add to them;
* `Visit`, `visitBody` — the statements that a walk over a body comes to, with what is known there;
* `encloses_of_mem_visitBody` — a walk stays in the module or class body that it is in;
* `Vocabulary.after_visitBody` — imports in class bodies add nothing to what is known.
-/

/-! ### The annotation vocabulary -/

/-- The names that the annotation vocabulary is known by. -/
structure Vocabulary where
  /-- Names of its modules. -/
  modules : List String := []
  /-- Its own names, by the names they are bound to. -/
  names : List (String × String) := []

namespace Vocabulary

/-- The state in which a walk over a body begins. -/
def start (known : Vocabulary) : BodyState :=
  { typingModules := known.modules, typingNames := known.names }

/-- What is known after a statement.  Imports in class bodies do not count. -/
def learn (known : Vocabulary) (ctx : BodyContext) : Stmt → Vocabulary
  | .importNames names =>
    if ctx.inClass then known
    else
      let typing := names.filter fun a => Target.isTypingModule a.name
      { known with modules := known.modules ++ typing.map Alias.boundName }
  | .importFrom i =>
    match ctx.absoluteModule? i with
    | some module =>
      if !ctx.inClass && Target.isTypingModule module then
        { known with names := BodyState.addTypingNames known.names i.names }
      else known
    | none => known
  | _ => known

end Vocabulary

/-- What is known in a state of the walk. -/
def BodyState.vocabulary (s : BodyState) : Vocabulary :=
  ⟨s.typingModules, s.typingNames⟩

/-! ### Visits -/

/-- A statement that a walk comes to. -/
structure Visit where
  ctx : BodyContext
  /-- Its place and its comments. -/
  place : Placed Stmt
  /-- The string below it. -/
  docstring : Option String
  /-- What is known before it. -/
  known : Vocabulary
  stmt : Stmt

/-- What is known after some visits. -/
def Vocabulary.after (known : Vocabulary) (visits : List Visit) : Vocabulary :=
  visits.foldl (fun known v => known.learn v.ctx v.stmt) known

/-- What is known after two lists of visits is known after one and then the other. -/
theorem Vocabulary.after_append (known : Vocabulary) (first second : List Visit) :
    known.after (first ++ second) = (known.after first).after second :=
  List.foldl_append

mutual

/-- The statements that a walk over a body comes to. -/
def visitBody (ctx : BodyContext) (known : Vocabulary) : List (Placed Stmt) → List Visit
  | [] => []
  | p :: rest =>
    let first := visitPlaced ctx known (rest.head?.bind Placed.text?) p
    first ++ visitBody ctx (known.after first) rest

/-- The statements that a walk over a statement comes to; `docstring` is the string below it. -/
def visitPlaced (ctx : BodyContext) (known : Vocabulary) (docstring : Option String) :
    Placed Stmt → List Visit
  | ⟨stmt, span, leading, trailing⟩ =>
    visitStmt ctx known ⟨.other, span, leading, trailing⟩ docstring stmt

/-- The statements that a walk over a statement at `place` comes to. -/
def visitStmt (ctx : BodyContext) (known : Vocabulary) (place : Placed Stmt)
    (docstring : Option String) : Stmt → List Visit
  | .cond test body orelse =>
    let guarded := ctx.typeChecking || known.start.isTyping test "TYPE_CHECKING"
    let first := visitBody { ctx with typeChecking := guarded } known body
    first ++ visitBody ctx (known.after first) orelse
  | .block bodies => visitBodies ctx known bodies
  | stmt => [⟨ctx, place, docstring, known, stmt⟩]

/-- The statements that a walk over several bodies comes to. -/
def visitBodies (ctx : BodyContext) (known : Vocabulary) : List (List (Placed Stmt)) → List Visit
  | [] => []
  | body :: bodies =>
    let first := visitBody ctx known body
    first ++ visitBodies ctx (known.after first) bodies

end

/-- The statement is no condition and no block: a walk does not go into it. -/
def Stmt.IsSimple : Stmt → Prop
  | .cond .. | .block .. => False
  | _ => True

/-- A simple statement is one visit. -/
theorem visitStmt_of_isSimple {stmt : Stmt} (h : stmt.IsSimple) (ctx : BodyContext)
    (known : Vocabulary) (place : Placed Stmt) (docstring : Option String) :
    visitStmt ctx known place docstring stmt = [⟨ctx, place, docstring, known, stmt⟩] := by
  cases stmt with
  | cond | block => exact h.elim
  | _ => rw [visitStmt] <;> simp

/-- The inner place is in the same module or class body, and for type checkers only if the outer one
    is. -/
structure BodyContext.Encloses (outer inner : BodyContext) : Prop where
  inClass : inner.inClass = outer.inClass
  typeChecking : outer.typeChecking = true → inner.typeChecking = true

/-- A body that a guarded one encloses is enclosed by the unguarded one. -/
theorem BodyContext.Encloses.of_guarded {ctx inner : BodyContext} {guarded : Bool}
    (h : Encloses { ctx with typeChecking := ctx.typeChecking || guarded } inner) :
    ctx.Encloses inner :=
  ⟨h.inClass, fun hctx => h.typeChecking (by simp [hctx])⟩

mutual

/-- A walk stays in the module or class body that it is in, and in the branch. -/
theorem encloses_of_mem_visitBody {v : Visit} : ∀ {ctx : BodyContext} {known : Vocabulary}
    {body : List (Placed Stmt)}, v ∈ visitBody ctx known body → ctx.Encloses v.ctx
  | _, _, [], h => absurd h (by simp [visitBody])
  | _, _, _ :: _, h => by
    rw [visitBody, List.mem_append] at h
    exact h.elim encloses_of_mem_visitPlaced encloses_of_mem_visitBody

/-- Every visit of a statement is made inside its body. -/
theorem encloses_of_mem_visitPlaced {v : Visit} : ∀ {ctx : BodyContext} {known : Vocabulary}
    {docstring : Option String} {p : Placed Stmt}, v ∈ visitPlaced ctx known docstring p →
      ctx.Encloses v.ctx
  | _, _, _, ⟨_, _, _, _⟩, h => by
    rw [visitPlaced] at h
    exact encloses_of_mem_visitStmt h

/-- So is every visit of one without its comments. -/
theorem encloses_of_mem_visitStmt {v : Visit} : ∀ {ctx : BodyContext} {known : Vocabulary}
    {place : Placed Stmt} {docstring : Option String} {stmt : Stmt},
      v ∈ visitStmt ctx known place docstring stmt → ctx.Encloses v.ctx
  | _, _, _, _, .cond .., h => by
    rw [visitStmt, List.mem_append] at h
    rcases h with h | h
    · exact (encloses_of_mem_visitBody h).of_guarded
    · exact encloses_of_mem_visitBody h
  | _, _, _, _, .block .., h => by
    rw [visitStmt] at h
    exact encloses_of_mem_visitBodies h
  | _, _, _, _, .functionDef .., h | _, _, _, _, .classDef .., h | _, _, _, _, .assign .., h
  | _, _, _, _, .importNames .., h | _, _, _, _, .importFrom .., h | _, _, _, _, .expr .., h
  | _, _, _, _, .other, h => by
    rw [visitStmt_of_isSimple (by trivial), List.mem_singleton] at h
    rw [h]
    exact ⟨rfl, id⟩

/-- So is every visit of the bodies inside a statement. -/
theorem encloses_of_mem_visitBodies {v : Visit} : ∀ {ctx : BodyContext} {known : Vocabulary}
    {bodies : List (List (Placed Stmt))}, v ∈ visitBodies ctx known bodies → ctx.Encloses v.ctx
  | _, _, [], h => absurd h (by simp [visitBodies])
  | _, _, _ :: _, h => by
    rw [visitBodies, List.mem_append] at h
    exact h.elim encloses_of_mem_visitBody encloses_of_mem_visitBodies

end

/-- Nothing is learned in a class body. -/
theorem Vocabulary.after_visitBody {ctx : BodyContext} (hclass : ctx.inClass = true)
    (known seen : Vocabulary) (body : List (Placed Stmt)) :
    known.after (visitBody ctx seen body) = known := by
  have hlearn : ∀ visits : List Visit, (∀ v ∈ visits, v.ctx.inClass = true) →
      known.after visits = known := by
    intro visits
    induction visits with
    | nil => exact fun _ => rfl
    | cons v visits ih =>
      intro h
      obtain ⟨hv, hvisits⟩ := List.forall_mem_cons.mp h
      have hsame : known.learn v.ctx v.stmt = known := by
        unfold learn
        split
        · rw [if_pos hv]
        · split
          · rw [if_neg (by simp [hv])]
          · rfl
        · rfl
      rw [after, List.foldl_cons, hsame]
      exact ih hvisits
  exact hlearn _ fun v hv => (encloses_of_mem_visitBody hv).inClass.trans hclass

end PackageDoc
