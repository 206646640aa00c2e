import PackageDoc.Declaration.Table
import PackageDoc.Proofs.Declaration.Bindings

namespace PackageDoc

/-!
# Declarations as they are read

None of the annotations that are read from a source is evaluated yet, in no body.

* `Scope.Fresh` — the annotations of a body wait for their types, at every depth;
* `Scope.fresh_iff` — the same entry by entry;
* `fresh_declareBody` — walking over a body keeps a fresh scope fresh;
* `ModuleTable.IsRead` — a table was read from a source text or from the bytes of a file;
* `ModuleTable.IsRead.fresh` — such a table is fresh.
-/

/-- The annotation is not evaluated yet. -/
def TypeHint.Fresh (h : TypeHint) : Prop :=
  h.resolved = none

/-- No annotation of the function is evaluated yet. -/
def FunctionDecl.Fresh (f : FunctionDecl) : Prop :=
  (∀ p ∈ f.params, ∀ h ∈ p.hint, h.Fresh) ∧ ∀ h ∈ f.returns, h.Fresh

/-- The annotation of the variable is not evaluated yet. -/
def VariableDecl.Fresh (v : VariableDecl) : Prop :=
  ∀ h ∈ v.hint, h.Fresh

mutual

/-- No annotation of the binding is evaluated yet. -/
def Binding.Fresh : Binding → Prop
  | .function f => ∀ d ∈ f.decls, d.Fresh
  | .classDef decl ⟨_, entries, _, _, _⟩ => (∀ h ∈ decl.bases, h.Fresh) ∧ entries.Fresh
  | .variable v => v.Fresh
  | .external _ => True

/-- No annotation of the entries is evaluated yet. -/
def Entries.Fresh {names : List String} : Entries Binding names → Prop
  | .nil => True
  | .cons _ b rest => b.Fresh ∧ rest.Fresh

end

/-- No annotation of the body is evaluated yet, nor of the bodies in it. -/
def Scope.Fresh (scope : Scope) : Prop :=
  scope.entries.Fresh

/-- Entries are fresh exactly when every one of them is. -/
theorem Entries.fresh_iff {names : List String} (es : Entries Binding names) :
    es.Fresh ↔ ∀ e ∈ es.toList, e.2.Fresh := by
  induction es with
  | nil => simp [Entries.Fresh]
  | cons name b rest ih => rw [Entries.Fresh, ih, toList_cons, List.forall_mem_cons]

namespace Scope

/-- A scope is fresh exactly when every binding listed in it is. -/
theorem fresh_iff (scope : Scope) : scope.Fresh ↔ ∀ e ∈ scope.toList, e.2.Fresh :=
  scope.entries.fresh_iff

theorem fresh_empty : Scope.Fresh .empty := by
  rw [fresh_iff, Roster.toList_empty]
  exact List.forall_mem_nil _

/-- A binding that is found in a fresh scope is fresh. -/
theorem Fresh.of_get? {scope : Scope} {name : String} {b : Binding} (h : scope.Fresh)
    (hget : scope.get? name = some b) : b.Fresh :=
  (fresh_iff scope).mp h (name, b) ((scope.get?_eq_some_iff_mem name b).mp hget)

theorem Fresh.bind {scope : Scope} (h : scope.Fresh) (name : String) {b : Binding}
    (hb : b.Fresh) : Scope.Fresh (scope.bind name b) := by
  rw [fresh_iff] at h ⊢
  intro e he
  rw [Roster.toList_bind] at he
  rcases Assoc.mem_of_mem_bind he with he | rfl
  · exact h e he
  · exact hb

/-- What is written in the place of a binding is found there instead. -/
theorem Fresh.set {scope : Scope} (h : scope.Fresh) {name : String} {b b' : Binding}
    (hget : scope.get? name = some b) (hb' : b'.Fresh) : Scope.Fresh (scope.set name b') := by
  rw [Roster.set_eq_bind (by rw [hget]; rfl)]
  exact h.bind name hb'

end Scope

/-! ### Single declarations -/

/-- Two fresh declarations of a variable make a fresh one. -/
theorem VariableDecl.Fresh.merge {v later : VariableDecl} (h : v.Fresh) (hlater : later.Fresh) :
    (v.merge later).Fresh := by
  intro hint hhint
  cases hl : later.hint with
  | none => exact h hint (by simpa [VariableDecl.merge, hl] using hhint)
  | some type => exact hlater hint (by simpa [VariableDecl.merge, hl] using hhint)

/-- Giving parameters the types of a comment keeps them fresh. -/
theorem fresh_typeParams {params : List ParamDecl} (types : List (List Char))
    (h : ∀ p ∈ params, ∀ hint ∈ p.hint, hint.Fresh) :
    ∀ p ∈ typeParams params types, ∀ hint ∈ p.hint, hint.Fresh := by
  induction params generalizing types with
  | nil => simp [typeParams]
  | cons p ps ih =>
    obtain ⟨hp, hps⟩ := List.forall_mem_cons.mp h
    cases types with
    | nil => simpa [typeParams] using h
    | cons type types =>
      rw [typeParams, List.forall_mem_cons]
      refine ⟨fun hint hhint => ?_, ih types hps⟩
      cases hown : p.hint with
      | none =>
        obtain rfl : _ = hint := by simpa [hown] using hhint
        rfl
      | some own => exact hp hint (by simpa [hown] using hhint)

/-- The types of a signature comment are not evaluated either. -/
theorem FunctionDecl.Fresh.withSignatureComment {f : FunctionDecl} (h : f.Fresh)
    (comment : String) (inClass : Bool) : (f.withSignatureComment comment inClass).Fresh := by
  unfold FunctionDecl.withSignatureComment
  split
  · exact h
  split
  · exact h
  split
  · exact h
  rename_i text _
  -- the result is annotated whether or not the parameters are
  have hreturns : ∀ hint ∈ (f.returns <|> if (Text.trim text).isEmpty then none
      else some ({ raw := String.ofList (Text.trim text) } : TypeHint)), hint.Fresh := by
    intro hint hhint
    cases hown : f.returns with
    | some own => exact h.2 hint (by simpa [hown] using hhint)
    | none =>
      rw [hown] at hhint
      simp only [Option.orElse_eq_orElse, Option.orElse_eq_or, Option.none_or] at hhint
      split at hhint
      · exact absurd hhint (by simp)
      · obtain rfl : _ = hint := by simpa using hhint
        rfl
  dsimp only
  split
  · exact ⟨h.1, hreturns⟩
  · refine ⟨fun p hp => ?_, hreturns⟩
    rcases List.mem_append.mp hp with hp | hp
    · exact h.1 p (List.mem_of_mem_take hp)
    · exact fresh_typeParams _ (fun p hp => h.1 p (List.mem_of_mem_drop hp)) p hp

/-! ### The walk over a body -/

/-- What the walk has found so far is fresh. -/
structure BodyState.Fresh (s : BodyState) : Prop where
  scope : s.scope.Fresh
  instanceVars : ∀ v ∈ s.instanceVars, v.Fresh

namespace BodyState

variable {s : BodyState} {ctx : BodyContext}

/-- Binding a name keeps the state of a body fresh. -/
theorem Fresh.bind (h : s.Fresh) (name : String) {b : Binding} (hb : b.Fresh) :
    (s.bind name b).Fresh :=
  ⟨h.scope.bind name hb, h.instanceVars⟩

/-- So does binding it anew. -/
theorem Fresh.rebind (h : s.Fresh) {name : String} {b b' : Binding}
    (hget : s.scope.get? name = some b) (hb' : b'.Fresh) : (s.rebind name b').Fresh :=
  ⟨h.scope.set hget hb', h.instanceVars⟩

/-- So does importing a module. -/
theorem Fresh.importModule (h : s.Fresh) (a : Alias) : (s.importModule a).Fresh := by
  unfold BodyState.importModule
  constructor
  · split <;> split <;> exact h.scope
  · split <;> split <;> exact h.instanceVars

/-- So does importing a name from one. -/
theorem Fresh.importName (h : s.Fresh) (module : String) (line : Nat) (a : Alias) :
    (BodyState.importName ctx module line s a).Fresh := by
  unfold BodyState.importName
  split
  · split
    · exact h
    · exact ⟨h.scope, h.instanceVars⟩
  · exact h.bind _ trivial

/-- A loop over fresh states ends in one. -/
theorem Fresh.foldl {α : Type} {f : BodyState → α → BodyState}
    (hf : ∀ s x, s.Fresh → (f s x).Fresh) (xs : List α) (h : s.Fresh) : (xs.foldl f s).Fresh := by
  induction xs generalizing s with
  | nil => exact h
  | cons x xs ih => exact ih (hf s x h)

/-- A `from` import keeps the state of a body fresh. -/
theorem Fresh.importFrom (h : s.Fresh) (i : ImportFrom) (line : Nat) :
    (s.importFrom ctx i line).Fresh := by
  unfold BodyState.importFrom
  split
  · exact ⟨h.scope, h.instanceVars⟩
  · split
    · exact h
    · refine Fresh.foldl (fun s a hs => hs.importName _ _ a) _ ?_
      split
      · exact ⟨h.scope, h.instanceVars⟩
      · exact h

/-- So does an assignment to `__autodoc__`. -/
theorem Fresh.assignAutodoc (h : s.Fresh) (value : Option Expr) (line : Nat) :
    (s.assignAutodoc value line).Fresh := by
  unfold BodyState.assignAutodoc
  split
  · rename_i entries span
    have hreported := Fresh.foldl (s := s)
      (f := fun s e => if (autodocRule? e).isNone then s.report .autodocEntry line else s)
      (fun s e hs => by
        split
        · exact ⟨hs.scope, hs.instanceVars⟩
        · exact hs) entries h
    exact ⟨hreported.scope, hreported.instanceVars⟩
  · exact ⟨h.scope, h.instanceVars⟩

/-- So does one to a variable. -/
theorem Fresh.assignVariable (h : s.Fresh) {v : VariableDecl} (hv : v.Fresh) :
    (s.assignVariable v).Fresh := by
  unfold BodyState.assignVariable
  split
  · rename_i f hget
    have hf : (Binding.function f).Fresh := h.scope.of_get? hget
    split
    · exact h.rebind hget hf
    · exact h.bind _ hv
  · rename_i earlier hget
    have hearlier : (Binding.variable earlier).Fresh := h.scope.of_get? hget
    exact h.rebind hget (VariableDecl.Fresh.merge hearlier hv)
  · exact h.bind _ hv

/-- The declaration that a statement makes of a variable is fresh. -/
theorem fresh_variableOf (ctx : BodyContext) (a : Assignment) (stmt : Placed Stmt)
    (docstring : Option String) : (variableOf ctx a stmt docstring).Fresh := by
  intro hint hhint
  have hmem : hint ∈ (a.hint.map ctx.hint <|>
      a.typeComment.map fun type => ({ raw := type } : TypeHint)) := hhint
  cases ha : a.hint with
  | some e =>
    obtain rfl : ctx.hint e = hint := by simpa [ha] using hmem
    rfl
  | none =>
    obtain ⟨type, -, rfl⟩ : ∃ type, a.typeComment = some type ∧ { raw := type } = hint := by
      simpa [ha] using hmem
    rfl

/-- An assignment keeps the state of a body fresh. -/
theorem Fresh.assign (h : s.Fresh) (a : Assignment) (stmt : Placed Stmt)
    (docstring : Option String) : (s.assign ctx a stmt docstring).Fresh := by
  have hassigned : ∀ names : List String, (names.foldl (fun s name =>
      s.assignVariable { variableOf ctx a stmt docstring with name := name }) s).Fresh := by
    refine fun names => Fresh.foldl (fun s name hs => ?_) names h
    have hv : VariableDecl.Fresh { variableOf ctx a stmt docstring with name := name } :=
      fresh_variableOf ctx a stmt docstring
    exact hs.assignVariable hv
  unfold BodyState.assign
  dsimp only
  split
  · split
    · exact h.assignAutodoc _ _
    · exact hassigned _
  · split
    · exact h.assignAutodoc _ _
    · exact hassigned _

/-- Adding an attribute keeps the attributes fresh. -/
theorem fresh_addInstanceVar {vars : List VariableDecl} {v : VariableDecl}
    (h : ∀ w ∈ vars, w.Fresh) (hv : v.Fresh) : ∀ w ∈ addInstanceVar vars v, w.Fresh := by
  unfold addInstanceVar
  split
  · intro w hw
    obtain ⟨w', hw', rfl⟩ := List.mem_map.mp hw
    split
    · exact (h w' hw').merge hv
    · exact h w' hw'
  · intro w hw
    rcases List.mem_append.mp hw with hw | hw
    · exact h w hw
    · obtain rfl : w = v := by simpa using hw
      exact hv

/-- So does an assignment to an attribute. -/
theorem fresh_assignInstance (self : String) (a : Assignment) (stmt : Placed Stmt)
    (docstring : Option String) {vars : List VariableDecl} (h : ∀ w ∈ vars, w.Fresh) :
    ∀ w ∈ assignInstance ctx self a stmt docstring vars, w.Fresh := by
  unfold assignInstance
  induction Expr.attributeTargetsList self a.targets generalizing vars with
  | nil => exact h
  | cons name names ih =>
    exact ih (fresh_addInstanceVar h (fresh_variableOf ctx a stmt docstring))

/-- The declaration that a header makes of a function is fresh. -/
theorem fresh_functionDecl (ctx : BodyContext) (s : BodyState) (header : FunctionHeader)
    (docstring : Option String) : (functionDecl ctx s header docstring).Fresh := by
  have hannotations : (functionDecl ctx s { header with typeComment := none } docstring).Fresh := by
    constructor
    · intro p hp hint hhint
      obtain ⟨p', -, rfl⟩ := List.mem_map.mp hp
      obtain ⟨e, -, rfl⟩ := Option.map_eq_some_iff.mp hhint
      rfl
    · intro hint hhint
      obtain ⟨e, -, rfl⟩ := Option.map_eq_some_iff.mp hhint
      rfl
  cases hcomment : header.typeComment with
  | none => simpa [functionDecl, hcomment] using hannotations
  | some comment =>
    simpa [functionDecl, hcomment] using hannotations.withSignatureComment comment ctx.inClass

/-- Binding a function keeps the state of a body fresh. -/
theorem Fresh.bindFunction (h : s.Fresh) {decl : FunctionDecl} (hdecl : decl.Fresh) :
    (s.bindFunction decl).Fresh := by
  unfold BodyState.bindFunction
  split
  · rename_i f hget
    have hf : (Binding.function f).Fresh := h.scope.of_get? hget
    refine h.rebind hget ?_
    rw [Binding.Fresh] at hf ⊢
    simpa [or_imp, forall_and] using ⟨hf, hdecl⟩
  · refine h.bind _ ?_
    rw [Binding.Fresh]
    simpa using hdecl

/-- Binding an attribute keeps a scope fresh. -/
theorem fresh_bindInstanceVar {scope : Scope} {v : VariableDecl} (h : scope.Fresh)
    (hv : v.Fresh) : (bindInstanceVar scope v).Fresh := by
  unfold bindInstanceVar
  split
  · unfold Scope.mergeVariable
    split
    · rename_i earlier hget
      have hearlier : (Binding.variable earlier).Fresh := h.of_get? hget
      exact h.set hget (VariableDecl.Fresh.merge hearlier hv)
    · exact h
  · exact h.bind _ hv

/-- So does binding several. -/
theorem fresh_foldl_bindInstanceVar {scope : Scope} {vars : List VariableDecl} (h : scope.Fresh)
    (hvars : ∀ v ∈ vars, v.Fresh) : (vars.foldl bindInstanceVar scope).Fresh := by
  induction vars generalizing scope with
  | nil => exact h
  | cons v vars ih =>
    obtain ⟨hv, hvars⟩ := List.forall_mem_cons.mp hvars
    exact ih (fresh_bindInstanceVar h hv) hvars

/-- The instance variables are bound in the body of the class, which is bound around it. -/
theorem Fresh.bindClass {inner : BodyState} (h : s.Fresh) (hinner : inner.Fresh)
    (header : ClassHeader) (docstring : Option String) :
    (bindClass ctx header docstring s inner).Fresh := by
  refine ⟨h.scope.bind _ ?_, h.instanceVars⟩
  rw [Binding.Fresh]
  refine ⟨fun hint hhint => ?_, fresh_foldl_bindInstanceVar hinner.scope hinner.instanceVars⟩
  obtain ⟨e, -, rfl⟩ := List.mem_map.mp hhint
  rfl

end BodyState

mutual

/-- An initializer adds fresh attributes. -/
theorem fresh_initBody (ctx : BodyContext) (self : String) : ∀ (body : List (Placed Stmt))
    (vars : List VariableDecl), (∀ v ∈ vars, v.Fresh) → ∀ v ∈ initBody ctx self body vars, v.Fresh
  | [], vars, h => by simpa [initBody] using h
  | p :: rest, vars, h => by
    rw [initBody]
    exact fresh_initBody ctx self rest _ (fresh_initPlaced ctx self p _ vars h)

/-- So does each of its statements. -/
theorem fresh_initPlaced (ctx : BodyContext) (self : String) : ∀ (p : Placed Stmt)
    (docstring : Option String) (vars : List VariableDecl), (∀ v ∈ vars, v.Fresh) →
      ∀ v ∈ initPlaced ctx self p docstring vars, v.Fresh
  | ⟨stmt, _, _, _⟩, docstring, vars, h => by
    rw [initPlaced]
    exact fresh_initStmt ctx self _ docstring stmt vars h

/-- So does one without its comments. -/
theorem fresh_initStmt (ctx : BodyContext) (self : String) (place : Placed Stmt)
    (docstring : Option String) : ∀ (stmt : Stmt) (vars : List VariableDecl),
      (∀ v ∈ vars, v.Fresh) → ∀ v ∈ initStmt ctx self place docstring stmt vars, v.Fresh
  | .assign a, vars, h => by
    rw [initStmt]
    exact BodyState.fresh_assignInstance self a place docstring h
  | .cond _ body orelse, vars, h => by
    rw [initStmt]
    exact fresh_initBody ctx self orelse _ (fresh_initBody ctx self body vars h)
  | .block bodies, vars, h => by
    rw [initStmt]
    exact fresh_initBodies ctx self bodies vars h
  | .functionDef _ _, vars, h | .classDef _ _, vars, h | .importNames _, vars, h
  | .importFrom _, vars, h | .expr _, vars, h | .other, vars, h => by simpa [initStmt] using h

/-- So do the bodies inside a statement. -/
theorem fresh_initBodies (ctx : BodyContext) (self : String) :
    ∀ (bodies : List (List (Placed Stmt))) (vars : List VariableDecl), (∀ v ∈ vars, v.Fresh) →
      ∀ v ∈ initBodies ctx self bodies vars, v.Fresh
  | [], vars, h => by simpa [initBodies] using h
  | body :: bodies, vars, h => by
    rw [initBodies]
    exact fresh_initBodies ctx self bodies _ (fresh_initBody ctx self body vars h)

end

/-- Declaring a function keeps the state of a body fresh. -/
theorem fresh_declareFunction (ctx : BodyContext) (header : FunctionHeader)
    (body : List (Placed Stmt)) {s : BodyState} (h : s.Fresh) :
    (declareFunction ctx header body s).Fresh := by
  unfold declareFunction
  split
  · exact h
  · refine BodyState.Fresh.bindFunction ?_ (BodyState.fresh_functionDecl ctx s header _)
    split
    · split
      · refine ⟨h.scope, fun v hv => ?_⟩
        rcases List.mem_append.mp hv with hv | hv
        · exact h.instanceVars v hv
        · exact fresh_initBody ctx _ body [] (by simp) v hv
      · exact h
    · exact h

mutual

/-- Walking over a body keeps what was found fresh. -/
theorem fresh_declareBody : ∀ (ctx : BodyContext) (body : List (Placed Stmt)) (s : BodyState),
    s.Fresh → (declareBody ctx body s).Fresh
  | _, [], s, h => by simpa [declareBody] using h
  | ctx, p :: rest, s, h => by
    rw [declareBody]
    exact fresh_declareBody ctx rest _ (fresh_declarePlaced ctx p _ s h)

/-- So does declaring what a statement declares. -/
theorem fresh_declarePlaced : ∀ (ctx : BodyContext) (p : Placed Stmt) (docstring : Option String)
    (s : BodyState), s.Fresh → (declarePlaced ctx p docstring s).Fresh
  | ctx, ⟨stmt, _, _, _⟩, docstring, s, h => by
    rw [declarePlaced]
    exact fresh_declareStmt ctx _ docstring stmt s h

/-- So does one without its comments. -/
theorem fresh_declareStmt : ∀ (ctx : BodyContext) (place : Placed Stmt)
    (docstring : Option String) (stmt : Stmt) (s : BodyState), s.Fresh →
      (declareStmt ctx place docstring stmt s).Fresh
  | ctx, place, docstring, .functionDef header body, s, h => by
    rw [declareStmt]
    exact fresh_declareFunction ctx header body h
  | ctx, place, docstring, .classDef header body, s, h => by
    rw [declareStmt]
    -- the body of the class begins with a scope of its own
    have hempty : BodyState.Fresh { s with scope := .empty, instanceVars := [] } :=
      ⟨Scope.fresh_empty, by simp⟩
    exact h.bindClass (fresh_declareBody _ body _ hempty) header _
  | ctx, place, docstring, .assign a, s, h => by
    rw [declareStmt]
    exact h.assign a place docstring
  | ctx, place, docstring, .importNames names, s, h => by
    rw [declareStmt]
    split
    · exact h
    · exact BodyState.Fresh.foldl (fun s a hs => hs.importModule a) names h
  | ctx, place, docstring, .importFrom i, s, h => by
    rw [declareStmt]
    exact h.importFrom i _
  | ctx, place, docstring, .cond test body orelse, s, h => by
    rw [declareStmt]
    exact fresh_declareBody ctx orelse _ (fresh_declareBody _ body s h)
  | ctx, place, docstring, .block bodies, s, h => by
    rw [declareStmt]
    exact fresh_declareBodies ctx bodies s h
  | ctx, place, docstring, .expr _, s, h | ctx, place, docstring, .other, s, h => by
    simpa [declareStmt] using h

/-- So do the bodies inside a statement. -/
theorem fresh_declareBodies : ∀ (ctx : BodyContext) (bodies : List (List (Placed Stmt)))
    (s : BodyState), s.Fresh → (declareBodies ctx bodies s).Fresh
  | _, [], s, h => by simpa [declareBodies] using h
  | ctx, body :: bodies, s, h => by
    rw [declareBodies]
    exact fresh_declareBodies ctx bodies _ (fresh_declareBody ctx body s h)

end

namespace ModuleTable

/-- The scope that is read from a source is fresh. -/
theorem fresh_parse (source name : String) (isPackage : Bool) :
    (ModuleTable.parse source name isPackage).scope.Fresh :=
  (fresh_declareBody _ _ _ ⟨Scope.fresh_empty, by simp⟩).scope

/-- The table was read from a source text or from the bytes of a file. -/
inductive IsRead : ModuleTable → Prop where
  | text (source name : String) (isPackage : Bool) : IsRead (.parse source name isPackage)
  | bytes (bytes : List UInt8) (name : String) (isPackage : Bool) :
    IsRead (.parseBytes bytes name isPackage)

/-- What is read from a source is fresh. -/
theorem IsRead.fresh {table : ModuleTable} (h : table.IsRead) : table.scope.Fresh := by
  cases h with
  | text source name isPackage => exact fresh_parse source name isPackage
  | bytes bytes name isPackage =>
    unfold parseBytes
    split
    · exact fresh_parse _ name isPackage
    · exact Scope.fresh_empty

end ModuleTable
end PackageDoc
