import PackageDoc.Analysis.Types
import PackageDoc.Proofs.Merge.Nodes

namespace PackageDoc

/-!
# Types recorded where annotations stand

The annotations of a module are evaluated in the order of its definitions, and each type is recorded
by the path of its definition and its place there.  Where names are distinct at every depth that
comes to the same as giving each annotation its type where it stands.

* `MergedModule.typed` — a view in which every annotation has the type that it is evaluated to;
* `MemberShape.foldl_recordAt` — recording types at all places of a definition types all of it;
* `MergedMember.foldl_recordTo` and `MergedMember.foldl_recordIn` — the same for the definitions
  below it, by their paths;
* `MergedModule.foldl_recordTo` — recording all evaluated annotations of a module types its view.
-/

/-! ### Views with types -/

/-- Change all annotations of a function. -/
def FunctionDecl.mapHints (f : TypeHint → TypeHint) (decl : FunctionDecl) : FunctionDecl :=
  { decl with
    params := decl.params.map fun p => { p with hint := p.hint.map f }
    returns := decl.returns.map f }

/-- Change all annotations of a definition. -/
def MemberShape.mapHints (f : TypeHint → TypeHint) : MemberShape → MemberShape
  | .classDef bases decorators => .classDef (bases.map f) decorators
  | .function group => .function
    ⟨group.overloads.map (FunctionDecl.mapHints f), group.implementation.map (.mapHints f)⟩
  | .variable hint value instanceVar typeChecking =>
    .variable (hint.map f) value instanceVar typeChecking

/-- The annotation with the type that its text is evaluated to in a class. -/
def TypeEnv.typed (env : TypeEnv) (scope : Option ClassScope) (h : TypeHint) : TypeHint :=
  ⟨h.raw, env.evaluate scope h.raw⟩

mutual

/-- A definition, to which `path` leads in the class `scope`, with the types of all annotations in
    it and below it. -/
def MergedMember.typed (env : TypeEnv) (path : List String) (scope : Option ClassScope) :
    MergedMember → MergedMember
  | ⟨name, line, docstring, shape, members⟩ =>
    ⟨name, line, docstring, shape.mapHints (env.typed scope),
      MergedMember.typedList env path (some ⟨dotted path, members⟩) members⟩

/-- The definitions in the body that `path` leads to, with the types of all annotations. -/
def MergedMember.typedList (env : TypeEnv) (path : List String) (scope : Option ClassScope) :
    List MergedMember → List MergedMember
  | [] => []
  | m :: ms => m.typed env (path ++ [m.name]) scope :: MergedMember.typedList env path scope ms

end

/-- A module with the types of all annotations; all else is as it was. -/
def MergedModule.typed (env : TypeEnv) (m : MergedModule) : MergedModule :=
  { m with
    items := m.items.map (MergedItem.mapMember fun d => d.typed env [d.name] none) }

/-! ### Places of a definition -/

/-- The annotation with a type, unless it has one. -/
def TypeHint.record (type : Option TypeRef) (h : TypeHint) : TypeHint :=
  { h with resolved := h.resolved <|> type }

/-- Nothing is recorded where no type was found. -/
theorem TypeHint.record_none : TypeHint.record none = id := by
  funext h
  simp [TypeHint.record]

/-- Record a type at a place of a function. -/
def FunctionDecl.recordAt (decl : FunctionDecl) (place : HintPlace) (type : Option TypeRef) :
    FunctionDecl :=
  match place with
  | .param _ index =>
    { decl with
      params := decl.params.modify index fun p => { p with hint := p.hint.map (.record type) } }
  | .returns _ => { decl with returns := decl.returns.map (.record type) }
  | _ => decl

/-- Record a type at a place of a definition; without a type nothing changes. -/
def MemberShape.recordAt (shape : MemberShape) (place : HintPlace) : Option TypeRef → MemberShape
  | some type => shape.resolve type place
  | none => shape

/-- The annotations of the declaration at the place `d` of a function. -/
def FunctionDecl.hintsAt (decl : FunctionDecl) (d : Nat) : List (HintPlace × TypeHint) :=
  (decl.params.zipIdx.filterMap fun (p, i) => p.hint.map fun hint => (.param d i, hint)) ++
    (decl.returns.map fun hint => (.returns d, hint)).toList

/-- The annotations of a function are those of its declarations, each at its place. -/
theorem MemberShape.hints_function (group : FunctionGroup) :
    (MemberShape.function group).hints =
      group.decls.zipIdx.flatMap fun x => x.1.hintsAt x.2 := rfl

/-- Nothing is recorded in a function where no type was found. -/
theorem FunctionDecl.recordAt_none (decl : FunctionDecl) (place : HintPlace) :
    decl.recordAt place none = decl := by
  cases place with
  | param _ index =>
    have hid : (fun p : ParamDecl => { p with hint := p.hint.map (.record none) }) = id := by
      funext p
      simp [TypeHint.record_none]
    simp [FunctionDecl.recordAt, hid]
  | _ => simp [FunctionDecl.recordAt, TypeHint.record_none]

/-- The element behind some others is changed alone. -/
theorem modify_concat {α : Type} (f : α → α) (before after : List α) (x : α) :
    (before ++ x :: after).modify before.length f = before ++ f x :: after := by
  simp [List.modify_eq_take_drop]

/-- Changing every element of a list at its place, one after the other. -/
theorem foldl_zipIdx_modify {α : Type} (f : α → α → α) (before l : List α) :
    (l.zipIdx before.length).foldl (fun acc x => acc.modify x.2 (f x.1)) (before ++ l) =
      before ++ l.map fun x => f x x := by
  induction l generalizing before with
  | nil => simp
  | cons x l ih =>
    have hrest := ih (before ++ [f x x])
    rw [List.length_append, List.length_singleton, List.append_assoc, List.singleton_append,
      List.append_assoc, List.singleton_append] at hrest
    rw [List.zipIdx_cons, List.foldl_cons, modify_concat, hrest, List.map_cons]

/-- Folding over those values that are there. -/
theorem foldl_filterMap_map {α β γ δ : Type} (o : α → Option β) (k : α → β → γ) (f : δ → γ → δ)
    (init : δ) (l : List α) :
    (l.filterMap fun x => (o x).map (k x)).foldl f init =
      l.foldl (fun acc x => (o x).elim acc fun v => f acc (k x v)) init := by
  induction l generalizing init with
  | nil => rfl
  | cons x l ih =>
    rw [List.filterMap_cons, List.foldl_cons]
    cases o x with
    | none => exact ih init
    | some v => exact ih (f init (k x v))

/-- A fold whose steps are those of another fold, on the elements of a list. -/
theorem foldl_hom_of_mem {α β γ : Type} {f : β → α → β} {g : γ → α → γ} (h : β → γ) {l : List α}
    (hstep : ∀ x ∈ l, ∀ b, g (h b) x = h (f b x)) (b : β) :
    l.foldl g (h b) = h (l.foldl f b) := by
  induction l generalizing b with
  | nil => rfl
  | cons x l ih =>
    obtain ⟨hx, hl⟩ := List.forall_mem_cons.mp hstep
    rw [List.foldl_cons, List.foldl_cons, hx, ih hl]

section Places

variable (g : TypeHint → Option TypeRef)

/-- Recording the types of a function records them in each annotation. -/
theorem FunctionDecl.foldl_recordAt (decl : FunctionDecl) (d : Nat) :
    (decl.hintsAt d).foldl (fun decl x => decl.recordAt x.1 (g x.2)) decl =
      decl.mapHints fun h => h.record (g h) := by
  have hrecord : ∀ (ps : List ParamDecl) (x : ParamDecl × Nat),
      x.1.hint.elim { decl with params := ps } (fun hint =>
        FunctionDecl.recordAt { decl with params := ps } (.param d x.2) (g hint)) =
      { decl with params := ps.modify x.2 fun q =>
          { q with hint := q.hint.map (.record (x.1.hint.bind g)) } } := by
    rintro ps ⟨p, i⟩
    cases p.hint with
    | none => exact (FunctionDecl.recordAt_none { decl with params := ps } (.param d i)).symm
    | some hint => rfl
  -- the parameters first, each at its place
  have hparams : (decl.params.zipIdx.filterMap fun x : ParamDecl × Nat =>
      x.1.hint.map fun hint => (HintPlace.param d x.2, hint)).foldl
        (fun decl x => decl.recordAt x.1 (g x.2)) decl =
      { decl with params :=
          decl.params.map fun p => { p with hint := p.hint.map fun h => h.record (g h) } } := by
    have hall := foldl_zipIdx_modify (fun p q : ParamDecl =>
      { q with hint := q.hint.map (.record (p.hint.bind g)) }) [] decl.params
    rw [List.length_nil, List.nil_append, List.nil_append] at hall
    rw [foldl_filterMap_map]
    refine (List.foldl_hom (fun ps => ({ decl with params := ps } : FunctionDecl)) hrecord).trans ?_
    rw [hall]
    refine congrArg (fun ps => ({ decl with params := ps } : FunctionDecl))
      (List.map_congr_left fun p _ => ?_)
    obtain ⟨name, kind, hint, default⟩ := p
    cases hint <;> rfl
  rw [FunctionDecl.hintsAt, List.foldl_append]
  refine (congrArg (fun decl' => List.foldl _ decl' _) hparams).trans ?_
  cases hreturns : decl.returns with
  | none => simp [FunctionDecl.mapHints, hreturns]
  | some hint => simp [FunctionDecl.mapHints, FunctionDecl.recordAt, hreturns]

/-- Recording the types of one declaration of a function changes that declaration, wherever it
    stands. -/
theorem foldl_recordAt_put {decl : FunctionDecl} {d : Nat} {put : FunctionDecl → FunctionGroup}
    (hput : ∀ decl' f, (put decl').modify d f = put (f decl')) :
    (decl.hintsAt d).foldl (fun shape x => MemberShape.recordAt shape x.1 (g x.2))
        (.function (put decl)) =
      .function (put (decl.mapHints fun h => h.record (g h))) := by
  have hrecord : ∀ x ∈ decl.hintsAt d, ∀ decl', (MemberShape.function (put decl')).recordAt x.1
      (g x.2) = .function (put (decl'.recordAt x.1 (g x.2))) := by
    intro x hx decl'
    -- the annotations of a declaration are those of its parameters and of its result
    have hplace : (∃ i, x.1 = .param d i) ∨ x.1 = .returns d := by
      rcases List.mem_append.mp hx with hx | hx
      · obtain ⟨y, -, hy⟩ := List.mem_filterMap.mp hx
        obtain ⟨hint, -, rfl⟩ := Option.map_eq_some_iff.mp hy
        exact .inl ⟨_, rfl⟩
      · obtain ⟨hint, -, rfl⟩ := Option.map_eq_some_iff.mp (Option.mem_toList.mp hx)
        exact .inr rfl
    cases g x.2 with
    | none => rw [FunctionDecl.recordAt_none, MemberShape.recordAt]
    | some type =>
      rcases hplace with ⟨i, hi⟩ | hi
      · rw [hi]
        exact congrArg MemberShape.function (hput decl' _)
      · rw [hi]
        exact congrArg MemberShape.function (hput decl' _)
  rw [← FunctionDecl.foldl_recordAt g decl d]
  exact foldl_hom_of_mem (fun decl' => MemberShape.function (put decl')) hrecord decl

/-- Recording the types of the overloads one after the other records them in each. -/
theorem foldl_recordAt_overloads (before overloads : List FunctionDecl)
    (implementation : Option FunctionDecl) :
    (overloads.zipIdx before.length).foldl (fun shape x =>
        (x.1.hintsAt x.2).foldl (fun shape x => MemberShape.recordAt shape x.1 (g x.2)) shape)
        (.function ⟨before ++ overloads, implementation⟩) =
      .function
        ⟨before ++ overloads.map (FunctionDecl.mapHints fun h => h.record (g h)), implementation⟩ := by
  induction overloads generalizing before with
  | nil => simp
  | cons decl overloads ih =>
    -- the overloads in front are typed already, and the one that is next has their number
    have hput : ∀ decl' f, FunctionGroup.modify ⟨before ++ decl' :: overloads, implementation⟩
        before.length f = ⟨before ++ f decl' :: overloads, implementation⟩ := by
      intro decl' f
      have hlt : before.length < (before ++ decl' :: overloads).length := by simp
      rw [FunctionGroup.modify, if_pos hlt, modify_concat]
    have hrest := ih (before ++ [decl.mapHints fun h => h.record (g h)])
    rw [List.length_append, List.length_singleton, List.append_assoc, List.singleton_append,
      List.append_assoc, List.singleton_append] at hrest
    rw [List.zipIdx_cons, List.foldl_cons, foldl_recordAt_put g hput, hrest, List.map_cons]

/-- Recording types at all places of a definition types all its annotations. -/
theorem MemberShape.foldl_recordAt (shape : MemberShape) :
    shape.hints.foldl (fun shape x => MemberShape.recordAt shape x.1 (g x.2)) shape =
      shape.mapHints fun h => h.record (g h) := by
  match shape with
  | .classDef bases decorators =>
    have hrecord : ∀ (bs : List TypeHint) (x : TypeHint × Nat),
        (MemberShape.classDef bs decorators).recordAt (.base x.2) (g x.1) =
          .classDef (bs.modify x.2 (.record (g x.1))) decorators := by
      intro bs x
      cases g x.1 with
      | none => rw [TypeHint.record_none, List.modify_id, MemberShape.recordAt]
      | some type => rfl
    have hall := foldl_zipIdx_modify (fun h => TypeHint.record (g h)) [] bases
    rw [List.length_nil, List.nil_append, List.nil_append] at hall
    rw [MemberShape.hints, List.foldl_map]
    refine (List.foldl_hom (fun bs => MemberShape.classDef bs decorators) hrecord).trans ?_
    rw [hall, MemberShape.mapHints]
  | .function group =>
    obtain ⟨overloads, implementation⟩ := group
    have hall := foldl_recordAt_overloads g [] overloads implementation
    rw [List.length_nil, List.nil_append, List.nil_append] at hall
    rw [MemberShape.hints_function, List.foldl_flatMap, FunctionGroup.decls, List.zipIdx_append,
      List.foldl_append, hall, MemberShape.mapHints, Nat.zero_add]
    cases implementation with
    | none => rfl
    | some decl =>
      -- the implementation is numbered behind the overloads
      have hput : ∀ decl' f, FunctionGroup.modify
          ⟨overloads.map (FunctionDecl.mapHints fun h => h.record (g h)), some decl'⟩
          overloads.length f =
          ⟨overloads.map (FunctionDecl.mapHints fun h => h.record (g h)), some (f decl')⟩ := by
        intro decl' f
        rw [FunctionGroup.modify, if_neg (by simp), Option.map_some]
      exact foldl_recordAt_put g hput
  | .variable hint value instanceVar typeChecking =>
    cases hint with
    | none => rfl
    | some hint =>
      cases hg : g hint <;> simp [MemberShape.hints, MemberShape.recordAt, MemberShape.resolve,
        MemberShape.mapHints, TypeHint.record, TypeHint.resolve, hg]

end Places

/-- Every element of a list has a number. -/
theorem exists_mem_zipIdx {α : Type} {l : List α} {x : α} (h : x ∈ l) : ∃ i, (x, i) ∈ l.zipIdx := by
  obtain ⟨i, hi⟩ := List.mem_iff_getElem?.mp h
  exact ⟨i, List.mem_zipIdx_iff_getElem?.mpr hi⟩

/-- Changes of the annotations of a definition are the same if they are the same for each. -/
theorem MemberShape.mapHints_congr {f f' : TypeHint → TypeHint} {shape : MemberShape}
    (h : ∀ x ∈ shape.hints, f x.2 = f' x.2) : shape.mapHints f = shape.mapHints f' := by
  match shape with
  | .classDef bases decorators =>
    have hbases : bases.map f = bases.map f' := by
      refine List.map_congr_left fun hint hhint => ?_
      obtain ⟨i, hi⟩ := exists_mem_zipIdx hhint
      exact h (.base i, hint) (List.mem_map_of_mem hi)
    rw [MemberShape.mapHints, MemberShape.mapHints, hbases]
  | .function group =>
    have hdecl : ∀ decl ∈ group.decls, decl.mapHints f = decl.mapHints f' := by
      intro decl hdecl
      obtain ⟨d, hd⟩ := exists_mem_zipIdx hdecl
      have hhints : ∀ x ∈ decl.hintsAt d, f x.2 = f' x.2 := fun x hx =>
        h x (by rw [MemberShape.hints_function]; exact List.mem_flatMap.mpr ⟨_, hd, hx⟩)
      have hparam : ∀ p ∈ decl.params, p.hint.map f = p.hint.map f' := by
        intro p hp
        refine Option.map_congr fun hint hhint => ?_
        obtain ⟨i, hi⟩ := exists_mem_zipIdx hp
        refine hhints (.param d i, hint) (List.mem_append_left _ ?_)
        exact List.mem_filterMap.mpr ⟨_, hi, Option.map_eq_some_iff.mpr ⟨hint, hhint, rfl⟩⟩
      have hreturns : decl.returns.map f = decl.returns.map f' := by
        refine Option.map_congr fun hint hhint => ?_
        exact hhints (.returns d, hint) (List.mem_append_right _ (by simp [hhint]))
      rw [FunctionDecl.mapHints, FunctionDecl.mapHints, hreturns,
        List.map_congr_left fun p hp => by rw [hparam p hp]]
    have hoverloads := List.map_congr_left fun decl hd =>
      hdecl decl (List.mem_append_left _ hd)
    have himplementation : group.implementation.map (FunctionDecl.mapHints f) =
        group.implementation.map (.mapHints f') :=
      Option.map_congr fun decl hd =>
        hdecl decl (List.mem_append_right _ (Option.mem_toList.mpr hd))
    rw [MemberShape.mapHints, MemberShape.mapHints, hoverloads, himplementation]
  | .variable hint value instanceVar typeChecking =>
    have hhint : hint.map f = hint.map f' := Option.map_congr fun t ht =>
      h (.type, t) (Option.mem_toList.mpr (Option.map_eq_some_iff.mpr ⟨t, ht, rfl⟩))
    rw [MemberShape.mapHints, MemberShape.mapHints, hhint]

/-- Recording the types of the annotations of a definition that has no types. -/
theorem MemberShape.foldl_recordAt_of_fresh (env : TypeEnv) (scope : Option ClassScope)
    {shape : MemberShape} (h : shape.Fresh) :
    shape.hints.foldl
        (fun shape x => MemberShape.recordAt shape x.1 (env.evaluate scope x.2.raw)) shape =
      shape.mapHints (env.typed scope) := by
  rw [MemberShape.foldl_recordAt fun hint => env.evaluate scope hint.raw]
  refine MemberShape.mapHints_congr fun x hx => ?_
  have hnone : x.2.resolved = none := h x hx
  simp [TypeHint.record, TypeEnv.typed, hnone]

/-! ### Paths of definitions -/

/-- Record a type at a place of the definition that a path leads to from `m`; without a type nothing
    changes. -/
def MergedMember.recordTo (m : MergedMember) (path : List String) (place : HintPlace) :
    Option TypeRef → MergedMember
  | some type => m.resolveAt place type path
  | none => m

/-- Record a type at a place of the definition that a path leads to in a body. -/
def MergedMember.recordIn (ms : List MergedMember) (path : List String) (place : HintPlace)
    (type : Option TypeRef) : List MergedMember :=
  match path with
  | [] => ms
  | name :: path => modifyFirst (fun c => c.name == name) (recordTo · path place type) ms

/-- Record a type at a place of the definition that a path leads to in a module. -/
def MergedModule.recordTo (m : MergedModule) (path : List String) (place : HintPlace) :
    Option TypeRef → MergedModule
  | some type => m.resolveAt place type path
  | none => m

/-- The first element to be changed is behind those that are not. -/
theorem modifyFirst_concat {α : Type} {p : α → Bool} (f : α → α) {before : List α} {x : α}
    (hbefore : ∀ y ∈ before, p y = false) (hx : p x = true) (after : List α) :
    modifyFirst p f (before ++ x :: after) = before ++ f x :: after := by
  induction before with
  | nil => simp [modifyFirst, hx]
  | cons y before ih =>
    obtain ⟨hy, hbefore⟩ := List.forall_mem_cons.mp hbefore
    simp [modifyFirst, hy, ih hbefore]

/-- Changing nothing is no change. -/
theorem modifyFirst_id {α : Type} (p : α → Bool) (l : List α) : modifyFirst p id l = l := by
  induction l with
  | nil => rfl
  | cons x l ih =>
    rw [modifyFirst, ih]
    split <;> rfl

namespace MergedMember

/-- The annotations of a member are its own and then those of its members. -/
theorem evaluations_mk (env : TypeEnv) (path : List String) (scope : Option ClassScope)
    (name : String) (line : Option Nat) (docstring : Option String) (shape : MemberShape)
    (members : List MergedMember) :
    evaluations env path scope ⟨name, line, docstring, shape, members⟩ =
      (shape.hints.map fun x => (⟨path, line.filter fun line => 0 < line, x.1, x.2.raw,
        env.evaluate scope x.2.raw⟩ : Evaluation)) ++
      evaluationsList env path (some ⟨dotted path, members⟩) members := by
  rw [evaluations]
  rfl

/-- A member with its types has its name. -/
theorem name_typed (env : TypeEnv) (path : List String) (scope : Option ClassScope)
    (m : MergedMember) : (m.typed env path scope).name = m.name := by
  obtain ⟨name, line, docstring, shape, members⟩ := m
  simp [typed]

/-- A type is recorded below the member that the path names first. -/
theorem recordTo_cons (m : MergedMember) (name : String) (path : List String) (place : HintPlace)
    (type : Option TypeRef) :
    m.recordTo (name :: path) place type =
      { m with members := recordIn m.members (name :: path) place type } := by
  cases type with
  | none =>
    have hid : (fun c : MergedMember => c.recordTo path place none) = id := rfl
    obtain ⟨_, _, _, _, _⟩ := m
    rw [recordTo, recordIn, hid, modifyFirst_id]
  | some type => rfl

/-- A path that begins with the name of a definition leads to it where no earlier one has that
    name. -/
theorem recordIn_concat {before : List MergedMember} {m : MergedMember}
    (hbefore : ∀ m' ∈ before, m'.name ≠ m.name) (after : List MergedMember) (path : List String)
    (place : HintPlace) (type : Option TypeRef) :
    recordIn (before ++ m :: after) (m.name :: path) place type =
      before ++ m.recordTo path place type :: after :=
  modifyFirst_concat _ (fun m' hm' => by simpa using hbefore m' hm') (by simp) after

mutual

/-- Annotations are evaluated at the definition or below it. -/
theorem prefix_of_mem_evaluations (env : TypeEnv) : ∀ (m : MergedMember) (path : List String)
    (scope : Option ClassScope), ∀ e ∈ m.evaluations env path scope, ∃ names, e.path = path ++ names
  | ⟨name, line, docstring, shape, members⟩, path, scope, e, he => by
    rw [evaluations_mk] at he
    rcases List.mem_append.mp he with he | he
    · obtain ⟨x, -, rfl⟩ := List.mem_map.mp he
      exact ⟨[], (List.append_nil _).symm⟩
    · obtain ⟨name, names, hpath⟩ := prefix_of_mem_evaluationsList env members path _ e he
      exact ⟨name :: names, hpath⟩

/-- Annotations in a body are evaluated below it. -/
theorem prefix_of_mem_evaluationsList (env : TypeEnv) : ∀ (ms : List MergedMember)
    (path : List String) (scope : Option ClassScope), ∀ e ∈ evaluationsList env path scope ms,
      ∃ name names, e.path = path ++ name :: names
  | [], path, scope, e, he => absurd he (by simp [evaluationsList])
  | m :: ms, path, scope, e, he => by
    rw [evaluationsList] at he
    rcases List.mem_append.mp he with he | he
    · obtain ⟨names, hpath⟩ := prefix_of_mem_evaluations env m _ scope e he
      exact ⟨m.name, names, by rw [hpath, List.append_assoc, List.singleton_append]⟩
    · exact prefix_of_mem_evaluationsList env ms path scope e he

end

/-- Recording a type changes no name. -/
theorem name_recordTo (m : MergedMember) (path : List String) (place : HintPlace)
    (type : Option TypeRef) : (m.recordTo path place type).name = m.name := by
  cases type with
  | none => rfl
  | some type => cases path <;> rfl

/-- Recording what is evaluated in one definition of a body changes that definition. -/
theorem foldl_recordIn_of_prefix {path : List String} {name : String} {before : List MergedMember}
    (hbefore : ∀ m' ∈ before, m'.name ≠ name) (after : List MergedMember) {es : List Evaluation}
    (hes : ∀ e ∈ es, ∃ names, e.path = (path ++ [name]) ++ names) {m : MergedMember}
    (hname : m.name = name) :
    es.foldl (fun ms e => recordIn ms (e.path.drop path.length) e.place e.type)
        (before ++ m :: after) =
      before ++ es.foldl (fun m e =>
        m.recordTo (e.path.drop (path ++ [name]).length) e.place e.type) m :: after := by
  induction es generalizing m with
  | nil => rfl
  | cons e es ih =>
    obtain ⟨⟨names, hpath⟩, hes⟩ := List.forall_mem_cons.mp hes
    have hinner : e.path.drop (path ++ [name]).length = names := by rw [hpath, List.drop_left]
    have houter : e.path.drop path.length = m.name :: names := by
      rw [hpath, List.append_assoc, List.drop_left, hname, List.singleton_append]
    rw [List.foldl_cons, List.foldl_cons, hinner, houter,
      recordIn_concat (by rwa [hname]) after names e.place e.type,
      ih hes ((name_recordTo _ _ _ _).trans hname)]

/-- Recording all that is evaluated in a definition and below it types the definition, if it types
    the body of the definition. -/
theorem foldl_recordTo_of_body (env : TypeEnv) {name : String} {line : Option Nat}
    {docstring : Option String} {shape : MemberShape} {members : List MergedMember}
    (path : List String) (scope : Option ClassScope) (hshape : shape.Fresh)
    (hbody : (evaluationsList env path (some ⟨dotted path, members⟩) members).foldl
        (fun ms e => recordIn ms (e.path.drop path.length) e.place e.type) members =
      typedList env path (some ⟨dotted path, members⟩) members) :
    (evaluations env path scope ⟨name, line, docstring, shape, members⟩).foldl
        (fun m e => m.recordTo (e.path.drop path.length) e.place e.type)
        ⟨name, line, docstring, shape, members⟩ =
      typed env path scope ⟨name, line, docstring, shape, members⟩ := by
  -- first its own annotations
  have hown : ∀ (shape : MemberShape) (x : HintPlace × TypeHint),
      recordTo ⟨name, line, docstring, shape, members⟩ (path.drop path.length) x.1
        (env.evaluate scope x.2.raw) =
      ⟨name, line, docstring, shape.recordAt x.1 (env.evaluate scope x.2.raw), members⟩ := by
    intro shape x
    rw [List.drop_length]
    cases env.evaluate scope x.2.raw <;> rfl
  -- then those below it
  have hbelow : ∀ e ∈ evaluationsList env path (some ⟨dotted path, members⟩) members,
      ∀ ms, recordTo ⟨name, line, docstring, shape.mapHints (env.typed scope), ms⟩
          (e.path.drop path.length) e.place e.type =
        ⟨name, line, docstring, shape.mapHints (env.typed scope),
          recordIn ms (e.path.drop path.length) e.place e.type⟩ := by
    intro e he ms
    obtain ⟨name', names, hpath⟩ := prefix_of_mem_evaluationsList env _ _ _ e he
    rw [hpath, List.drop_left, recordTo_cons]
  have hfirst : shape.hints.foldl (fun m x =>
      m.recordTo (path.drop path.length) x.1 (env.evaluate scope x.2.raw))
        ⟨name, line, docstring, shape, members⟩ =
      (⟨name, line, docstring, shape.mapHints (env.typed scope), members⟩ : MergedMember) := by
    rw [← MemberShape.foldl_recordAt_of_fresh env scope hshape]
    exact List.foldl_hom (fun shape => (⟨name, line, docstring, shape, members⟩ : MergedMember)) hown
  have hsecond : (evaluationsList env path (some ⟨dotted path, members⟩) members).foldl
        (fun m e => m.recordTo (e.path.drop path.length) e.place e.type)
        ⟨name, line, docstring, shape.mapHints (env.typed scope), members⟩ =
      typed env path scope ⟨name, line, docstring, shape, members⟩ := by
    rw [typed, ← hbody]
    exact foldl_hom_of_mem (fun ms =>
      (⟨name, line, docstring, shape.mapHints (env.typed scope), ms⟩ : MergedMember)) hbelow members
  rw [evaluations_mk, List.foldl_append, List.foldl_map, hfirst, hsecond]

mutual

/-- Recording all that is evaluated in a definition and below it types the definition. -/
theorem foldl_recordTo (env : TypeEnv) : ∀ (m : MergedMember) (path : List String)
    (scope : Option ClassScope), m.Fresh →
      (m.evaluations env path scope).foldl
          (fun m e => m.recordTo (e.path.drop path.length) e.place e.type) m =
        m.typed env path scope
  | ⟨name, line, docstring, shape, members⟩, path, scope, h => by
    rw [MergedMember.Fresh] at h
    have hbody := foldl_recordIn env members path (some ⟨dotted path, members⟩) [] h.2 (by simp)
    rw [List.nil_append, List.nil_append] at hbody
    exact foldl_recordTo_of_body env path scope h.1 hbody

/-- Recording all that is evaluated in a body types the definitions in it. -/
theorem foldl_recordIn (env : TypeEnv) : ∀ (ms : List MergedMember) (path : List String)
    (scope : Option ClassScope) (before : List MergedMember), FreshAll ms →
      (∀ m' ∈ before, ∀ m ∈ ms, m'.name ≠ m.name) →
      (evaluationsList env path scope ms).foldl
          (fun ms e => recordIn ms (e.path.drop path.length) e.place e.type) (before ++ ms) =
        before ++ typedList env path scope ms
  | [], path, scope, before, _, _ => by simp [evaluationsList, typedList]
  | m :: ms, path, scope, before, h, hbefore => by
    rw [FreshAll] at h
    -- what is evaluated in `m` changes `m`, and nothing behind it, for its name is its own
    have hm := foldl_recordTo env m (path ++ [m.name]) scope h.2.1
    have hrest := foldl_recordIn env ms path scope
      (before ++ [m.typed env (path ++ [m.name]) scope]) h.2.2 (by
        intro m' hm' n hn
        rcases List.mem_append.mp hm' with hm' | hm'
        · exact hbefore m' hm' n (List.mem_cons_of_mem _ hn)
        · obtain rfl := List.mem_singleton.mp hm'
          rw [name_typed]
          exact (h.1 n hn).symm)
    rw [List.append_assoc, List.singleton_append, List.append_assoc, List.singleton_append] at hrest
    rw [evaluationsList, List.foldl_append,
      foldl_recordIn_of_prefix (fun m' hm' => hbefore m' hm' m (by simp)) ms
        (prefix_of_mem_evaluations env m _ scope) rfl, hm, hrest, typedList]

end

end MergedMember

/-! ### Modules -/

/-- Recording what is evaluated in one definition of a module changes that definition. -/
theorem MergedModule.foldl_recordTo_of_prefix (m : MergedModule) {name : String}
    {before : List MergedItem}
    (hbefore : ∀ item ∈ before, ∀ d, item.member? = some d → d.name ≠ name)
    (after : List MergedItem) {es : List Evaluation}
    (hes : ∀ e ∈ es, ∃ names, e.path = [name] ++ names) {d : MergedMember} (hname : d.name = name) :
    es.foldl (fun (m : MergedModule) e => m.recordTo e.path e.place e.type)
        { m with items := before ++ MergedItem.member d :: after } =
      { m with items := before ++
          .member (es.foldl (fun d e => d.recordTo (e.path.drop 1) e.place e.type) d) :: after } := by
  induction es generalizing d with
  | nil => rfl
  | cons e es ih =>
    obtain ⟨⟨names, hpath⟩, hes⟩ := List.forall_mem_cons.mp hes
    have hrest := ih hes ((MergedMember.name_recordTo d names e.place e.type).trans hname)
    rw [List.singleton_append] at hpath
    rw [List.foldl_cons, List.foldl_cons, hpath, List.drop_one, List.tail_cons, ← hrest]
    cases e.type with
    | none => rfl
    | some type =>
      -- the items in front have other names, so the definition is the first of its name
      have hother : ∀ item ∈ before, (item.member?.any fun d => d.name == name) = false := by
        intro item hitem
        cases hd : item.member? with
        | none => rfl
        | some d' => simpa using hbefore item hitem d' hd
      rw [MergedModule.recordTo, MergedModule.resolveAt, modifyFirst_concat _ hother
        (by simp [MergedItem.member?, hname])]
      rfl

/-- Recording all that is evaluated in some items of a module types them. -/
theorem MergedModule.foldl_recordTo_items (env : TypeEnv) (m : MergedModule)
    (before items : List MergedItem)
    (hfresh : MergedMember.FreshAll (items.filterMap MergedItem.member?))
    (hbefore : ∀ item ∈ before, ∀ d', item.member? = some d' →
      ∀ d ∈ items.filterMap MergedItem.member?, d'.name ≠ d.name) :
    (MergedMember.evaluationsList env [] none (items.filterMap MergedItem.member?)).foldl
        (fun (m : MergedModule) e => m.recordTo e.path e.place e.type)
        { m with items := before ++ items } =
      { m with items :=
          before ++ items.map (MergedItem.mapMember fun d => d.typed env [d.name] none) } := by
  induction items generalizing before with
  | nil => simp [MergedMember.evaluationsList]
  | cons item items ih =>
    cases item with
    -- nothing is evaluated in what is imported
    | external name decl =>
      have hrest := ih (before ++ [.external name decl]) hfresh (by
        intro item hitem d' hd' d hd
        rcases List.mem_append.mp hitem with hitem | hitem
        · exact hbefore item hitem d' hd' d hd
        · obtain rfl := List.mem_singleton.mp hitem
          exact absurd hd' (by simp [MergedItem.member?]))
      rw [List.append_assoc, List.singleton_append, List.append_assoc,
        List.singleton_append] at hrest
      exact hrest
    | member d =>
      have hmembers : (MergedItem.member d :: items).filterMap MergedItem.member? =
          d :: items.filterMap MergedItem.member? := rfl
      rw [hmembers] at hfresh hbefore ⊢
      rw [MergedMember.FreshAll] at hfresh
      -- what is evaluated in `d` comes first and is recorded there, and the rest behind it
      have hd := MergedMember.foldl_recordTo env d [d.name] none hfresh.2.1
      have hrest := ih (before ++ [.member (d.typed env [d.name] none)]) hfresh.2.2 (by
        intro item hitem d' hd' n hn
        rcases List.mem_append.mp hitem with hitem | hitem
        · exact hbefore item hitem d' hd' n (List.mem_cons_of_mem _ hn)
        · obtain rfl := List.mem_singleton.mp hitem
          obtain rfl : _ = d' := by simpa [MergedItem.member?] using hd'
          rw [MergedMember.name_typed]
          exact (hfresh.1 n hn).symm)
      simp only [List.append_assoc, List.singleton_append] at hrest
      rw [MergedMember.evaluationsList, List.foldl_append, List.nil_append,
        foldl_recordTo_of_prefix m (fun item hitem d' hd' => hbefore item hitem d' hd' d (by simp))
          items (MergedMember.prefix_of_mem_evaluations env d [d.name] none) rfl]
      rw [List.length_singleton] at hd
      rw [hd, hrest, List.map_cons, MergedItem.mapMember]

/-- **Recording all evaluated annotations** of a module types its view, where names are distinct at
    every depth and nothing is typed yet. -/
theorem MergedModule.foldl_recordTo (env : TypeEnv) {m : MergedModule} (h : m.Fresh) :
    (MergedMember.evaluationsList env [] none m.members).foldl
        (fun (m : MergedModule) e => m.recordTo e.path e.place e.type) m =
      m.typed env :=
  m.foldl_recordTo_items env [] m.items h (by simp)

end PackageDoc
