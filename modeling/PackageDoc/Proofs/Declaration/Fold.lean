import PackageDoc.Proofs.Declaration.Events

namespace PackageDoc

/-!
# A body binds names by a fold over its events

What a body binds is what its events do one after another: the names stand in the order of their first
events, and what a name is bound to depends on the events of that name alone.

* `BodyState.foldl_changeAttribute_collected` — instance variables are merged one by one, though the
  walk collects those of an initializer first;
* `Body.scope_eq_foldl` — the bindings of a body are those of its events, in order;
* `Scope.IsFoldOf` — listed, looked up and bound as a list of events says;
* `Body.isFoldOf_events` — every module or class body is so;
* `ModuleTable.isFoldOf_bindings` — and so are the names of a source file.
-/

/-! ### Instance variables -/

/-- Three declarations of a variable are merged alike from either side. -/
theorem VariableDecl.merge_assoc (u v w : VariableDecl) :
    (u.merge v).merge w = u.merge (v.merge w) := by
  simp [VariableDecl.merge, Option.or_assoc, Bool.or_assoc, Bool.and_assoc]

/-- Two declarations of an attribute are put onto a binding as one, merged. -/
theorem VariableDecl.ontoAttribute_merge (v later : VariableDecl) (b : Option Binding) :
    later.ontoAttribute (some (v.ontoAttribute b)) = (v.merge later).ontoAttribute b := by
  cases b with
  | none => rfl
  | some b =>
    obtain _ | _ | earlier | _ := b
    case «variable» => exact congrArg Binding.variable (VariableDecl.merge_assoc earlier v later)
    all_goals rfl

namespace BodyState

variable {scope : Scope}

/-- Add an instance variable to a class body. -/
def changeAttribute (scope : Scope) (v : VariableDecl) : Scope :=
  scope.change v.name v.ontoAttribute

/-- What a body binds already is merged with or left alone, and what it does not bind is added. -/
theorem bindInstanceVar_eq (scope : Scope) (v : VariableDecl) :
    bindInstanceVar scope v = changeAttribute scope v := by
  have hcontains : scope.contains v.name = (scope.get? v.name).isSome := by
    rw [Bool.eq_iff_iff, Roster.contains_iff, Roster.isSome_get?_iff]
  unfold bindInstanceVar Scope.mergeVariable changeAttribute
  rw [hcontains]
  cases hget : scope.get? v.name with
  | none => rw [if_neg (by simp), Roster.change, hget, VariableDecl.ontoAttribute]
  | some b =>
    rw [Option.isSome_some, if_pos rfl]
    obtain _ | _ | earlier | _ := b
    case «variable» =>
      rw [Roster.change, hget]
      exact Roster.set_eq_bind (by rw [hget]; rfl) _
    all_goals exact (Roster.change_eq_self hget rfl).symm

/-- A variable that is bound can be added to before or after variables with other names. -/
theorem foldl_changeAttribute_comm {v : VariableDecl} (hbound : v.name ∈ scope.names)
    {vars : List VariableDecl} (hvars : ∀ w ∈ vars, w.name ≠ v.name) :
    vars.foldl changeAttribute (changeAttribute scope v) =
      changeAttribute (vars.foldl changeAttribute scope) v := by
  induction vars generalizing scope with
  | nil => rfl
  | cons w vars ih =>
    obtain ⟨hw, hvars⟩ := List.forall_mem_cons.mp hvars
    have hswap : changeAttribute (changeAttribute scope v) w =
        changeAttribute (changeAttribute scope w) v :=
      Roster.change_comm hbound hw.symm _ _
    have hstill : v.name ∈ (changeAttribute scope w).names := by
      rw [changeAttribute, Roster.change, Roster.names_bind]
      split
      · exact hbound
      · exact List.mem_append_left _ hbound
    rw [List.foldl_cons, List.foldl_cons, hswap, ih hstill hvars]

/-- An attribute is merged with the one of its name, wherever that stands. -/
theorem addInstanceVar_cons (w : VariableDecl) (vars : List VariableDecl) (v : VariableDecl)
    (hdistinct : w.name ∉ vars.map VariableDecl.name) :
    addInstanceVar (w :: vars) v =
      if w.name = v.name then w.merge v :: vars else w :: addInstanceVar vars v := by
  unfold addInstanceVar
  by_cases hname : w.name = v.name
  · have hsame : vars.map (fun u => if u.name == v.name then u.merge v else u) = vars := by
      refine (List.map_congr_left fun u hu => if_neg ?_).trans (List.map_id vars)
      intro heq
      exact hdistinct (List.mem_map.mpr ⟨u, hu, (beq_iff_eq.mp heq).trans hname.symm⟩)
    simp only [List.any_cons, List.map_cons, hsame, hname, beq_self_eq_true, Bool.true_or, if_true]
  · simp only [List.any_cons, List.map_cons, beq_false_of_ne hname, Bool.false_or, if_neg hname,
      Bool.false_eq_true, if_false, List.cons_append]
    split <;> rfl

/-- An attribute with a new name is listed last. -/
theorem map_name_addInstanceVar (vars : List VariableDecl) (v : VariableDecl) :
    (addInstanceVar vars v).map VariableDecl.name =
      if v.name ∈ vars.map VariableDecl.name then vars.map VariableDecl.name
      else vars.map VariableDecl.name ++ [v.name] := by
  have hany : (vars.any fun w => w.name == v.name) = true ↔
      v.name ∈ vars.map VariableDecl.name := by
    rw [List.any_eq_true, List.mem_map]
    exact exists_congr fun w => and_congr_right fun _ => beq_iff_eq
  unfold addInstanceVar
  by_cases hmem : v.name ∈ vars.map VariableDecl.name
  · rw [if_pos (hany.mpr hmem), if_pos hmem, List.map_map]
    refine List.map_congr_left fun w _ => ?_
    show (if w.name == v.name then w.merge v else w).name = w.name
    split <;> rfl
  · rw [if_neg (mt hany.mp hmem), if_neg hmem, List.map_append]
    rfl

/-- Adding to the variables of an initializer is adding to the class body behind them. -/
theorem foldl_changeAttribute_addInstanceVar {vars : List VariableDecl}
    (hvars : (vars.map VariableDecl.name).Nodup) (v : VariableDecl) :
    (addInstanceVar vars v).foldl changeAttribute scope =
      changeAttribute (vars.foldl changeAttribute scope) v := by
  induction vars generalizing scope with
  | nil => rfl
  | cons w vars ih =>
    obtain ⟨hw, hvars⟩ := List.nodup_cons.mp hvars
    rw [addInstanceVar_cons w vars v hw, List.foldl_cons]
    split
    · -- merged in the list; behind it no variable has the name
      rename_i hname
      have hmerged : changeAttribute scope (w.merge v) =
          changeAttribute (changeAttribute scope w) v := by
        rw [changeAttribute, changeAttribute, changeAttribute, ← hname, Roster.change_change]
        simp only [VariableDecl.ontoAttribute_merge]
        rfl
      have hbound : v.name ∈ (changeAttribute scope w).names := by
        rw [← Roster.isSome_get?_iff, changeAttribute, Roster.get?_change, if_pos hname]
        rfl
      rw [List.foldl_cons, hmerged]
      refine foldl_changeAttribute_comm hbound fun u hu heq => hw ?_
      exact List.mem_map.mpr ⟨u, hu, heq.trans hname.symm⟩
    · exact ih hvars

/-- No attribute is listed twice. -/
theorem nodup_map_name_addInstanceVar {vars : List VariableDecl}
    (h : (vars.map VariableDecl.name).Nodup) (v : VariableDecl) :
    ((addInstanceVar vars v).map VariableDecl.name).Nodup := by
  rw [map_name_addInstanceVar]
  split
  · exact h
  · rename_i hnew
    rw [← List.concat_eq_append]
    exact h.concat hnew

/-- What an initializer collects is added to the class body as if it were assigned there one by
    one. -/
theorem foldl_changeAttribute_collected {vars : List VariableDecl}
    (hvars : (vars.map VariableDecl.name).Nodup) (decls : List VariableDecl) :
    (decls.foldl addInstanceVar vars).foldl changeAttribute scope =
      decls.foldl changeAttribute (vars.foldl changeAttribute scope) := by
  induction decls generalizing vars with
  | nil => rfl
  | cons v decls ih =>
    rw [List.foldl_cons, List.foldl_cons, ih (nodup_map_name_addInstanceVar hvars v),
      foldl_changeAttribute_addInstanceVar hvars]

end BodyState

/-! ### Bodies -/

/-- What an initializer assigns it assigns to the instance, somewhere in its body. -/
theorem Visit.of_mem_attributeAssignments {v : Visit} {a : NameAssignment}
    (h : a ∈ v.attributeAssignments) :
    a.onInstance = true ∧ a.guardedOutside = v.ctx.typeChecking ∧
      (v.ctx.typeChecking = true → a.guarded = true) := by
  have hassignments : ∀ (self : String) (w : Visit), v.ctx.Encloses w.ctx →
      ∀ a ∈ w.assignmentsTo self v.ctx.typeChecking,
        a.onInstance = true ∧ a.guardedOutside = v.ctx.typeChecking ∧
          (v.ctx.typeChecking = true → a.guarded = true) := by
    intro self w hw a ha
    unfold assignmentsTo at ha
    split at ha
    · obtain ⟨name, -, rfl⟩ := List.mem_map.mp ha
      exact ⟨rfl, rfl, hw.typeChecking⟩
    · exact absurd ha List.not_mem_nil
  -- only an initializer that is no accessor and has a first parameter makes any
  unfold attributeAssignments at h
  split at h
  · split at h
    · exact absurd h List.not_mem_nil
    · split at h
      · split at h
        · obtain ⟨w, hw, ha⟩ := List.mem_flatMap.mp h
          exact hassignments _ w (encloses_of_mem_visitBody hw) a ha
        · exact absurd h List.not_mem_nil
      · exact absurd h List.not_mem_nil
  · exact absurd h List.not_mem_nil

/-- An assignment to an attribute changes the attribute in the scope. -/
theorem applyTo_assign {a : NameAssignment} (h : a.onInstance = true) (scope : Scope) :
    BindingEvent.applyTo scope (.assign a) = BodyState.changeAttribute scope a.decl := by
  have honto : BindingEvent.onto (.assign a) = a.decl.ontoAttribute :=
    funext fun _ => if_pos h
  rw [BindingEvent.applyTo, honto]
  rfl

/-- The instance variables of the initializers of a class are added as they are assigned. -/
theorem foldl_changeAttribute_instanceVars (scope : Scope) (visits : List Visit) :
    (visits.flatMap Visit.instanceVars).foldl BodyState.changeAttribute scope =
      ((visits.flatMap Visit.attributeAssignments).map BindingEvent.assign).foldl
        BindingEvent.applyTo scope := by
  induction visits generalizing scope with
  | nil => rfl
  | cons v visits ih =>
    have hassigned : ∀ as : List NameAssignment, (∀ a ∈ as, a.onInstance = true) →
        ∀ scope : Scope, (as.map NameAssignment.decl).foldl BodyState.changeAttribute scope =
          (as.map BindingEvent.assign).foldl BindingEvent.applyTo scope := by
      intro as
      induction as with
      | nil => exact fun _ _ => rfl
      | cons a as ih =>
        intro has scope
        obtain ⟨ha, has⟩ := List.forall_mem_cons.mp has
        rw [List.map_cons, List.foldl_cons, ← applyTo_assign ha]
        exact ih has _
    have hnone : (([] : List VariableDecl).map VariableDecl.name).Nodup := List.nodup_nil
    -- the variables of one function are collected first, which makes no difference
    have hfirst : v.instanceVars.foldl BodyState.changeAttribute scope =
        (v.attributeAssignments.map BindingEvent.assign).foldl BindingEvent.applyTo scope := by
      rw [Visit.instanceVars, BodyState.foldl_changeAttribute_collected hnone]
      exact hassigned _ (fun a ha => (Visit.of_mem_attributeAssignments ha).1) scope
    rw [List.flatMap_cons, List.foldl_append, hfirst, ih, List.flatMap_cons, List.map_append, List.foldl_append]

/-- **The bindings of a body are those of its events, in order.** -/
theorem Body.scope_eq_foldl (body : Body) :
    body.scope = body.events.foldl BindingEvent.applyTo .empty := by
  have hfound : Walks body.visits body.known.start body.found :=
    walks_declareBody body.ctx body.stmts body.known.start
  have hscope : body.found.scope =
      (body.visits.flatMap Visit.bindings).foldl BindingEvent.applyTo .empty := hfound.scope
  have hbind : BodyState.bindInstanceVar = BodyState.changeAttribute :=
    funext₂ BodyState.bindInstanceVar_eq
  rw [scope, hbind, hfound.instanceVars]
  show (body.visits.flatMap Visit.instanceVars).foldl _ _ = _
  rw [foldl_changeAttribute_instanceVars, hscope, events, List.foldl_append]

/-! ### Functions and classes -/

/-- The bodies of the classes that a body defines. -/
def Body.classBodies (body : Body) : List Body :=
  body.visits.filterMap fun v => match v.stmt with
    | .classDef _ stmts => some (v.classBody stmts)
    | _ => none

/-- The binding holds a declaration if it is a function, and the bindings of one of the bodies if it
    is a class. -/
def Binding.IsGrounded (bodies : List Body) : Binding → Prop
  | .function f => f.decls ≠ []
  | .classDef _ scope => ∃ inner ∈ bodies, inner.scope = scope
  | _ => True

/-- An event makes a grounded binding of a grounded one. -/
theorem BindingEvent.isGrounded_onto {bodies : List Body} {e : BindingEvent} {b : Option Binding}
    (he : ∀ decl scope, e = .classDef decl scope → ∃ inner ∈ bodies, inner.scope = scope)
    (hb : ∀ b' ∈ b, b'.IsGrounded bodies) : (e.onto b).IsGrounded bodies := by
  cases e with
  -- a declaration is added to those of the function, if the name is bound to one
  | define decl =>
    obtain _ | b := b
    · exact List.cons_ne_nil _ _
    · cases b with
      | function f => exact List.append_ne_nil_of_right_ne_nil _ (List.cons_ne_nil _ _)
      | _ => exact List.cons_ne_nil _ _
  | classDef decl scope => exact he decl scope rfl
  | importAs name decl => trivial
  | assign a =>
    have hsome : ∀ b', b = some b' → b'.IsGrounded bodies := fun b' h => hb b' h
    show (if a.onInstance then a.decl.ontoAttribute b else a.ontoName b).IsGrounded bodies
    split
    -- of an attribute: only a variable is changed by it
    · obtain _ | b := b
      · trivial
      · cases b with
        | «variable» earlier => trivial
        | _ => exact hsome _ rfl
    -- of a name: a function with overloads keeps its declarations
    · obtain _ | b := b
      · trivial
      · cases b with
        | function f =>
          show (if f.hasOverloads then _ else _ : Binding).IsGrounded bodies
          split
          · have hdecls : f.decls ≠ [] := hsome _ rfl
            exact hdecls
          · trivial
        | _ => trivial

/-- The scope of a class that is defined in a body comes from a body inside it. -/
theorem Body.exists_classBody {body : Body} {decl : ClassDecl} {scope : Scope}
    (h : .classDef decl scope ∈ body.events) : ∃ inner ∈ body.classBodies, inner.scope = scope := by
  rcases List.mem_append.mp h with h | h
  · obtain ⟨v, hv, hevent⟩ := List.mem_flatMap.mp h
    obtain ⟨_, ⟨⟩⟩ | ⟨header, stmts, hstmt, heq⟩ | ⟨_, _, ⟨⟩⟩ | ⟨_, _, ⟨⟩⟩ :=
      Visit.mem_bindings_cases hevent
    obtain ⟨-, rfl⟩ := BindingEvent.classDef.inj heq
    exact ⟨v.classBody stmts, List.mem_filterMap.mpr ⟨v, hv, by rw [hstmt]⟩, rfl⟩
  · simp at h

/-- Every function of a body holds a declaration, and every class the bindings of a class body. -/
theorem Body.isGrounded_of_get? {body : Body} {name : String} {b : Binding}
    (h : body.scope.get? name = some b) : b.IsGrounded body.classBodies := by
  have hfold : ∀ (events : List BindingEvent), (∀ e ∈ events, e ∈ body.events) →
      ∀ b : Option Binding, (∀ b' ∈ b, b'.IsGrounded body.classBodies) →
        ∀ b' ∈ events.foldl (fun b e => some (e.onto b)) b, b'.IsGrounded body.classBodies := by
    intro events
    induction events with
    | nil => exact fun _ b hb => hb
    | cons e events ih =>
      intro hevents b hb
      obtain ⟨he, hevents⟩ := List.forall_mem_cons.mp hevents
      refine ih hevents _ fun b' hb' => ?_
      obtain rfl := Option.mem_some_iff.mp hb'
      refine BindingEvent.isGrounded_onto (fun decl scope heq => ?_) hb
      have hevent : .classDef decl scope ∈ body.events := heq ▸ he
      exact Body.exists_classBody hevent
  rw [body.scope_eq_foldl] at h
  have hget := Roster.get?_foldl_change BindingEvent.name BindingEvent.onto body.events .empty name
  exact hfold _ (fun e he => List.mem_of_mem_filter he) none (by simp) b (hget ▸ h)

/-- So it is at every path through class bodies. -/
theorem Body.decls_ne_nil_of_lookup {body : Body} {path : List String} {f : FunctionBinding}
    (h : body.scope.lookup path = some (.function f)) : f.decls ≠ [] := by
  match path with
  | [] => exact absurd h (by simp [Scope.lookup])
  | [name] => exact body.isGrounded_of_get? (b := .function f) h
  | name :: next :: path =>
    obtain ⟨b, hget, hlookup⟩ := Option.bind_eq_some_iff.mp h
    cases b with
    | classDef decl scope =>
      obtain ⟨inner, -, rfl⟩ := body.isGrounded_of_get? hget
      exact inner.decls_ne_nil_of_lookup hlookup
    | _ => exact absurd hlookup (by simp [Binding.scope, Scope.lookup_empty])

/-! ### What a fold of events is -/

/-- The scope lists, finds and binds names as a list of events says. -/
structure Scope.IsFoldOf (scope : Scope) (events : List BindingEvent) : Prop where
  /-- Names are listed in the order of their first events. -/
  names : Assoc.keys scope.toList = (events.map BindingEvent.name).eraseDups
  distinct : (Assoc.keys scope.toList).Nodup
  /-- The index has the place of every name, and no other. -/
  index : ∀ name place, Assoc.get? scope.index name = some place ↔
    (Assoc.keys scope.toList)[place]? = some name
  contains : ∀ name, scope.contains name = true ↔ name ∈ Assoc.keys scope.toList
  /-- What is found through the index is what is listed. -/
  lookup : ∀ name b, scope.get? name = some b ↔ (name, b) ∈ scope.toList
  /-- The binding of a name depends on the events of the name alone. -/
  binding : ∀ name, scope.get? name =
    (events.filter fun e => e.name = name).foldl (fun b e => some (e.onto b)) none
  /-- A function holds a declaration, at every path through class bodies. -/
  declared : ∀ path f, scope.lookup path = some (.function f) → f.decls ≠ []

/-- **A body binds names by a fold over its events.** -/
theorem Body.isFoldOf_events (body : Body) : body.scope.IsFoldOf body.events where
  names := by
    rw [Roster.keys_toList, body.scope_eq_foldl]
    refine (Roster.names_foldl_change BindingEvent.name BindingEvent.onto body.events .empty).trans ?_
    simp [Roster.empty]
  distinct := body.scope.nodup_keys
  index name place := by
    rw [Roster.keys_toList]
    exact body.scope.place_eq_some_iff name place
  contains name := by
    rw [Roster.keys_toList]
    exact body.scope.contains_iff name
  lookup name b := body.scope.get?_eq_some_iff_mem name b
  binding name := by
    rw [body.scope_eq_foldl]
    exact Roster.get?_foldl_change BindingEvent.name BindingEvent.onto body.events .empty name
  declared _ _ := body.decls_ne_nil_of_lookup

namespace Body

/-- The body of a source file. -/
def ofSuite (suite : Suite) (source name : String) (isPackage : Bool) : Body :=
  ⟨{ source := source.toList, package := packageOf name isPackage }, suite.body, {}⟩

/-- No initializer of a module declares instance variables. -/
theorem attributeAssignments_eq_nil {body : Body} (h : body.ctx.inClass = false) :
    body.visits.flatMap Visit.attributeAssignments = [] := by
  refine List.flatMap_eq_nil_iff.mpr fun v hv => ?_
  have hclass : v.ctx.inClass = false := (encloses_of_mem_visitBody hv).inClass.trans h
  unfold Visit.attributeAssignments
  split
  · split
    · rfl
    · split
      · rw [if_neg (by simp [hclass])]
      · rfl
  · rfl

/-- The scope of a module is that of its body. -/
theorem scope_ofSuite (suite : Suite) (source name : String) (isPackage : Bool) :
    (ModuleTable.ofSuite suite source name isPackage).scope =
      (Body.ofSuite suite source name isPackage).scope := by
  set body := Body.ofSuite suite source name isPackage with hbody
  have hwalk : (ModuleTable.ofSuite suite source name isPackage).scope =
      (body.visits.flatMap Visit.bindings).foldl BindingEvent.applyTo .empty :=
    (walks_declareBody body.ctx body.stmts _).scope
  rw [hwalk, body.scope_eq_foldl, events, attributeAssignments_eq_nil rfl, List.map_nil,
    List.append_nil]

end Body

/-- **A source file binds names by a fold over its statements**, in the order in which a walk comes to
    them. -/
theorem ModuleTable.isFoldOf_bindings (suite : Suite) (source name : String) (isPackage : Bool) :
    (ModuleTable.ofSuite suite source name isPackage).scope.IsFoldOf
      ((Body.ofSuite suite source name isPackage).visits.flatMap Visit.bindings) := by
  have hfold := (Body.ofSuite suite source name isPackage).isFoldOf_events
  rw [Body.events, Body.attributeAssignments_eq_nil rfl, List.map_nil, List.append_nil] at hfold
  rw [Body.scope_ofSuite]
  exact hfold

end PackageDoc
