import PackageDoc.Proofs.Order.Steps

namespace PackageDoc

/-!
# What rules are about

A rule is accepted if its key leads to a definition, or names an import that can carry it.  Which of
several modules states it makes no difference for the members of what is imported.

* `Analysis.HasDefinition` and `Analysis.Carries` — what an accepted rule is about;
* `Analysis.ruleTarget_cases` — the ways in which a rule is accepted;
* `Analysis.unruled` — an analysis of some modules whose rules are yet to be applied;
* `Analysis.LinksFollowed` — the link of every imported name is the end of its chain;
* `Analysis.linksFollowed_resolveImports` — so it is when imports are followed;
* `Analysis.ruleTarget_reexported` — a rule for a member of an import is a rule for the member where it
  is defined.
-/

/-- A rule with the effect may be about an import of this origin: it leads to a definition or a module,
    or out of the package if the rule gives it documentation. -/
def Origin.Takes (effect : RuleEffect) : Origin → Prop
  | .definition _ _ | .module _ => True
  | .library _ _ => ∃ text, effect = .documented text
  | .unresolved _ _ _ => False

namespace Analysis

variable {a b c : Analysis} {s t : ModuleState} {key : String} {effect : RuleEffect}

/-! ### Accepted rules -/

/-- The view of the module has a definition at the dotted path. -/
def HasDefinition (a : Analysis) (module qualname : String) : Prop :=
  ∃ m, a.merged? module = some m ∧ (m.lookup (segments qualname)).isSome = true

/-- The module with the number imports the name, and a rule with the effect may be about that. -/
def Carries (a : Analysis) (id : ModuleId) (name : String) (effect : RuleEffect) : Prop :=
  ∃ s ∈ a.modules, s.id = id ∧ ∃ m, s.merged = some m ∧ (m.external? name).isSome = true ∧
    ∃ origin, Assoc.get? a.links (id, name) = some origin ∧ origin.Takes effect

/-- The path that a key stands for is that of a dotted name. -/
theorem exists_rulePath (module : String) (m : MergedModule) (key : String) :
    ∃ name, rulePath module m key = segments name := by
  rw [rulePath]
  split
  · exact ⟨key, rfl⟩
  · split
    · exact ⟨_, rfl⟩
    · exact ⟨key, rfl⟩

/-- The path of a rule is made of its own segments. -/
theorem segments_dotted_rulePath (module : String) (m : MergedModule) (key : String) :
    segments (dotted (rulePath module m key)) = rulePath module m key := by
  obtain ⟨name, hname⟩ := exists_rulePath module m key
  rw [hname, dotted_segments]

/-- A rule for an import takes effect only where its origin lets it. -/
theorem takes_of_referenceTarget {head : String} {origin : Origin} {target : RuleTarget}
    (h : referenceTarget head effect origin = .ok target) :
    target = .reference head ∧ origin.Takes effect := by
  cases origin with
  | definition _ _ => exact ⟨(Except.ok.inj h).symm, trivial⟩
  | module _ => exact ⟨(Except.ok.inj h).symm, trivial⟩
  | library library name =>
    rw [referenceTarget] at h
    split at h
    · rename_i hsome
      cases effect with
      | documented text => exact ⟨(Except.ok.inj h).symm, text, rfl⟩
      | shown => exact absurd hsome (by simp [RuleEffect.docstring?])
      | hidden => exact absurd hsome (by simp [RuleEffect.docstring?])
    · exact absurd h (by simp)
  | unresolved _ _ _ => exact absurd h (by simp [referenceTarget])

/-- A rule for a member is about the definition at its path. -/
theorem definitionAt?_of_memberTarget {module head : String} {path : List String} {origin : Origin}
    {target : RuleTarget} (h : a.memberTarget module head path origin = .ok target) :
    ∃ owner qualname, a.definitionAt? module path = some (owner, qualname) ∧
      target = .definition owner qualname := by
  unfold memberTarget at h
  split at h
  · exact absurd h (by simp)
  · split at h
    · rename_i owner qualname hdef
      exact ⟨owner, qualname, hdef, (Except.ok.inj h).symm⟩
    · exact absurd h (by simp)

/-- A rule of a module is accepted in three ways: its key is the path of a definition of the module,
    it is the name of an import that takes the rule, or it leads on through an import. -/
theorem ruleTarget_cases {target : RuleTarget} (h : a.ruleTarget s key effect = .ok target) :
    ∃ m, s.merged = some m ∧
      (((m.lookup (rulePath s.name m key)).isSome = true ∧
          target = .definition s.name (dotted (rulePath s.name m key))) ∨
        (∃ name origin, (m.external? name).isSome = true ∧
          Assoc.get? a.links (s.id, name) = some origin ∧ origin.Takes effect ∧
          target = .reference name) ∨
        ∃ owner qualname, a.definitionAt? s.name (rulePath s.name m key) = some (owner, qualname) ∧
          target = .definition owner qualname) := by
  unfold ruleTarget at h
  cases hm : s.merged with
  | none =>
    rw [hm] at h
    exact absurd h (by simp)
  | some m =>
    rw [hm] at h
    dsimp only at h
    refine ⟨m, rfl, ?_⟩
    cases hpath : rulePath s.name m key with
    | nil =>
      rw [hpath] at h
      exact absurd h (by simp)
    | cons head rest =>
      rw [hpath] at h
      dsimp only at h
      split at h
      · -- the module defines the first name
        split at h
        · rename_i d hd
          exact .inl ⟨by rw [hd, Option.isSome_some], (Except.ok.inj h).symm⟩
        · exact absurd h (by simp)
      · split at h
        · exact absurd h (by simp)
        · rename_i hexternal
          have hbound : (m.external? head).isSome = true := by
            rw [Option.isNone_iff_eq_none] at hexternal
            exact Option.isSome_iff_ne_none.mpr hexternal
          split at h
          · exact absurd h (by simp)
          · rename_i origin hlink
            split at h
            · obtain ⟨rfl, htakes⟩ := takes_of_referenceTarget h
              exact .inr (.inl ⟨head, origin, hbound, hlink, htakes, rfl⟩)
            · obtain ⟨owner, qualname, hdef, rfl⟩ := definitionAt?_of_memberTarget h
              exact .inr (.inr ⟨owner, qualname, hdef, rfl⟩)

/-- What a path leads to is a definition. -/
theorem hasDefinition_of_definitionAt? {module owner qualname : String} {path : List String}
    (h : a.definitionAt? module path = some (owner, qualname)) : a.HasDefinition owner qualname := by
  induction path generalizing module with
  | nil => exact absurd h (by simp [definitionAt?])
  | cons head rest ih =>
    rw [definitionAt?] at h
    split at h
    · rename_i d x horigin
      dsimp only at h
      split at h
      · rename_i found hfound
        obtain ⟨rfl, rfl⟩ := Prod.mk.inj (Option.some.inj h)
        obtain ⟨m, hm, hlookup⟩ := Option.bind_eq_some_iff.mp hfound
        exact ⟨m, hm, by rw [hlookup, Option.isSome_some]⟩
      · exact absurd h (by simp)
    · exact ih h
    · exact absurd h (by simp)

/-- **An accepted rule is about a definition, or about an import that can carry it.** -/
theorem ruleTarget_sound (hindexed : a.WellIndexed) (hs : s ∈ a.modules)
    {target : RuleTarget} (h : a.ruleTarget s key effect = .ok target) :
    match target with
    | .definition module qualname => a.HasDefinition module qualname
    | .reference name => a.Carries s.id name effect := by
  obtain ⟨m, hm, hown | himport | hmember⟩ := ruleTarget_cases h
  · obtain ⟨hlookup, rfl⟩ := hown
    refine ⟨m, (hindexed.merged?_of_mem hs).trans hm, ?_⟩
    rwa [segments_dotted_rulePath]
  · obtain ⟨name, origin, hexternal, hlink, htakes, rfl⟩ := himport
    exact ⟨s, hs, rfl, m, hm, hexternal, origin, hlink, htakes⟩
  · obtain ⟨owner, qualname, hdef, rfl⟩ := hmember
    exact hasDefinition_of_definitionAt? hdef

/-! ### Links -/

/-- An analysis of some modules whose imports are followed and whose annotations have types.  No rule
    has been applied. -/
def unruled (root : String) (inputs : List ModuleInput) (config : Config) : Analysis :=
  (linked root inputs config).evaluateTypes

/-- The analysis with its imports linked is reached. -/
theorem reached_linked (root : String) (inputs : List ModuleInput) (config : Config) :
    Reached root inputs config (linked root inputs config) :=
  .resolveImports (.mergeModules (.register .start))

/-- So is the one before its rules are applied. -/
theorem reached_unruled (root : String) (inputs : List ModuleInput) (config : Config) :
    Reached root inputs config (unruled root inputs config) :=
  .evaluateTypes (reached_linked root inputs config)

/-- When all entries with a key have one value, the key has it. -/
theorem lastValue_of_agree {ε κ α : Type} [DecidableEq κ] {key? : ε → Option κ} {value : ε → α}
    {key : κ} {v : α} {entries : List ε} (hvalues : ∀ e ∈ entries, key? e = some key → value e = v)
    (hsome : ∃ e ∈ entries, key? e = some key) (before : Option α) :
    lastValue key? value key before entries = some v := by
  induction entries generalizing before with
  | nil => exact absurd hsome (by simp)
  | cons e entries ih =>
    obtain ⟨he, hentries⟩ := List.forall_mem_cons.mp hvalues
    rw [lastValue, List.foldl_cons]
    by_cases hrest : ∃ e ∈ entries, key? e = some key
    · exact ih hentries hrest _
    · -- this entry is the last with the key
      have hkey : key? e = some key := by
        obtain ⟨e', he', hkey⟩ := hsome
        rcases List.mem_cons.mp he' with rfl | he'
        · exact hkey
        · exact absurd ⟨e', he', hkey⟩ hrest
      rw [if_pos hkey, he hkey]
      exact lastValue_of_forall (fun e he hkey => hrest ⟨e, he, hkey⟩) (some v)

/-- An import that is found is listed. -/
theorem exists_mem_externals {m : MergedModule} {name : String}
    (h : (m.external? name).isSome = true) : ∃ decl, (name, decl) ∈ m.externals := by
  obtain ⟨decl, hdecl⟩ := Option.isSome_iff_exists.mp h
  exact ⟨decl, Assoc.mem_of_get?_eq_some hdecl⟩

/-- Following imports links an imported name to the end of its chain. -/
theorem get?_links_resolveImports {m : MergedModule} {name : String}
    (hids : (a.modules.map ModuleState.id).Nodup) (hs : s ∈ a.modules) (hm : s.merged = some m)
    (hexternal : (m.external? name).isSome = true) :
    Assoc.get? a.resolveImports.links (s.id, name) = some (a.originOf s.name name) := by
  have hlinks : a.linksOf s =
      m.externals.map fun e => (e.1, e.2.line, a.originOf s.name e.1) := by
    rw [linksOf, hm]
  rw [get?_links hids hs, hlinks]
  refine lastValue_of_agree (fun l hl hname => ?_) ?_ _
  · obtain ⟨e, -, rfl⟩ := List.mem_map.mp hl
    rw [← Option.some.inj hname]
  · obtain ⟨decl, hdecl⟩ := exists_mem_externals hexternal
    exact ⟨_, List.mem_map_of_mem hdecl, rfl⟩

/-- The link of every imported name is the end of its chain. -/
def LinksFollowed (a : Analysis) : Prop :=
  ∀ s ∈ a.modules, ∀ m, s.merged = some m → ∀ name, (m.external? name).isSome = true →
    Assoc.get? a.links (s.id, name) = some (a.originOf s.name name)

/-- Recording types changes no names. -/
theorem bindsAlike_evaluateTypes (a : Analysis) : a.evaluateTypes.BindsAlike a := by
  rw [evaluateTypes_eq]
  exact ⟨rfl, rfl, rfl, List.forall₂_map_left_iff.mpr
    (List.forall₂_same.mpr fun s _ => a.bindsAlike_evaluated s)⟩

/-- Evaluating types changes no origin. -/
theorem originOf_evaluateTypes (a : Analysis) (module name : String) :
    a.evaluateTypes.originOf module name = a.originOf module name :=
  a.bindsAlike_evaluateTypes.knowsAlike.originOf module name

/-- **When imports are followed, each is linked to the end of its chain.** -/
theorem linksFollowed_resolveImports (h : a.Numbered) : a.resolveImports.LinksFollowed := by
  intro s hs m hm name hexternal
  obtain ⟨t, ht, rfl⟩ := List.mem_map.mp hs
  rw [a.bindsAlike_resolveImports.knowsAlike.originOf]
  change Assoc.get? a.resolveImports.links (t.id, name) = some (a.originOf t.name name)
  exact get?_links_resolveImports (s := t) h.nodup_ids ht hm hexternal

/-- Links are followed where modules have the same numbers, import the same names and find the same
    origins. -/
theorem LinksFollowed.of_alike (h : b.LinksFollowed) (hlinks : c.links = b.links)
    (horigins : ∀ module name, c.originOf module name = b.originOf module name)
    (hmodules : ∀ t ∈ c.modules, ∃ s ∈ b.modules, t.id = s.id ∧ t.BindsAlike s) :
    c.LinksFollowed := by
  intro t ht m hm name hexternal
  obtain ⟨s, hs, hid, hname, hviews⟩ := hmodules t ht
  rw [hm] at hviews
  obtain ⟨hnone, -⟩ | ⟨m', m₀, hm', hm₀, -, hexternals⟩ := rel_cases hviews
  · exact absurd hnone (by simp)
  · obtain rfl := Option.some.inj hm'
    rw [MergedModule.external?, hexternals] at hexternal
    rw [hlinks, hid, hname, horigins]
    exact h s hs m₀ hm₀ name hexternal

/-- Links are still followed when annotations get their types. -/
theorem LinksFollowed.evaluateTypes (h : a.LinksFollowed) : a.evaluateTypes.LinksFollowed := by
  refine h.of_alike (by rw [evaluateTypes_eq]) a.originOf_evaluateTypes fun t ht => ?_
  rw [evaluateTypes_eq] at ht
  obtain ⟨s, hs, rfl⟩ := List.mem_map.mp ht
  exact ⟨s, hs, a.evaluated_id s, a.bindsAlike_evaluated s⟩

/-- Before the rules are applied, every link has been followed. -/
theorem linksFollowed_unruled (root : String) (inputs : List ModuleInput) (config : Config) :
    (unruled root inputs config).LinksFollowed :=
  (linksFollowed_resolveImports (Reached.mergeModules (.register .start)).wellIndexed.numbered).evaluateTypes

/-! ### Members of imports -/

section Members

variable {m m' : MergedModule} {x name d : String} {rest : List String}

/-- A key that begins with a name of the module stands for its own path. -/
theorem rulePath_of_binds (h : m.binds name = true) (hkey : segments key = name :: rest) (module : String) :
    rulePath module m key = name :: rest := by
  have hhead : (segments key).head?.any m.binds = true := by
    rw [hkey]
    exact h
  rw [rulePath, if_pos hhead, hkey]

/-- A rule for a definition of the module or a member of one. -/
theorem ruleTarget_of_member (hm : s.merged = some m) (hx : (m.member? x).isSome = true)
    (hkey : segments key = x :: rest) :
    a.ruleTarget s key effect =
      if (m.lookup (x :: rest)).isSome then .ok (.definition s.name (dotted (x :: rest)))
      else .error (.noSuchMember s.name x (dotted (x :: rest))) := by
  have hbinds : m.binds x = true := by rw [MergedModule.binds, hx, Bool.true_or]
  rw [ruleTarget, hm]
  dsimp only
  rw [rulePath_of_binds hbinds hkey]
  dsimp only
  rw [if_pos hx]
  cases m.lookup (x :: rest) <;> rfl

/-- A rule for a member of an import that leads to a definition. -/
theorem ruleTarget_of_import (hm : s.merged = some m) (hown : m.member? name = none)
    (hexternal : (m.external? name).isSome = true)
    (hlink : Assoc.get? a.links (s.id, name) = some (.definition d x))
    (horigin : a.originOf s.name name = .definition d x) (hm' : a.merged? d = some m')
    (hpath : segments (dotted (x :: rest)) = x :: rest) (hrest : rest ≠ [])
    (hkey : segments key = name :: rest) :
    a.ruleTarget s key effect =
      if (m'.lookup (x :: rest)).isSome then .ok (.definition d (dotted (x :: rest)))
      else .error (.unreachable (dotted (name :: rest)) name) := by
  have hbinds : m.binds name = true := by rw [MergedModule.binds, hexternal, Bool.or_true]
  have hmember : (m.member? name).isSome = false := by rw [hown, Option.isSome_none]
  have hnone : (m.external? name).isNone = false := by rw [← Option.not_isSome, hexternal, Bool.not_true]
  have hmore : rest.isEmpty = false := by simpa using hrest
  rw [ruleTarget, hm]
  dsimp only
  rw [rulePath_of_binds hbinds hkey]
  dsimp only
  rw [hmember, hnone, hlink, hmore]
  show a.memberTarget s.name name (name :: rest) (.definition d x) = _
  unfold memberTarget
  dsimp only
  rw [definitionAt?, horigin]
  dsimp only
  rw [hm', Option.bind_some, hpath]
  cases m'.lookup (x :: rest) <;> rfl

/-- What a chain ends at is a definition of a registered module. -/
theorem exists_definer (hindexed : a.WellIndexed) (h : a.originOf s.name name = .definition d x) :
    ∃ t ∈ a.modules, t.name = d ∧ ∃ m', t.merged = some m' ∧ a.merged? d = some m' ∧
      (m'.member? x).isSome = true := by
  have hfrom := a.comesFrom_originOf (s.name, name)
  rw [h] at hfrom
  obtain ⟨-, m', hm', hx⟩ := hfrom
  obtain ⟨t, ht, hview⟩ := Option.bind_eq_some_iff.mp hm'
  obtain ⟨hmem, hname⟩ := hindexed.state?_eq_some_iff.mp ht
  exact ⟨t, hmem, hname, m', hview, hm', hx⟩

/-- The rules for two keys of two modules are accepted alike, and are then about one definition. -/
def SameVerdict (a : Analysis) (s : ModuleState) (key : String) (t : ModuleState) (key' : String)
    (target : RuleTarget) : Prop :=
  ∀ effect effect',
    ((∃ found, a.ruleTarget s key effect = .ok found) ↔
      ∃ found, a.ruleTarget t key' effect' = .ok found) ∧
    ∀ found, a.ruleTarget s key effect = .ok found ∨ a.ruleTarget t key' effect' = .ok found →
      found = target

/-- Two rules that are accepted under one condition, with one target, have one verdict. -/
theorem sameVerdict_of_eq {t : ModuleState} {key' : String} {accepted : Bool} {target : RuleTarget}
    {error error' : RuleError}
    (h : ∀ effect, a.ruleTarget s key effect = if accepted then .ok target else .error error)
    (h' : ∀ effect, a.ruleTarget t key' effect = if accepted then .ok target else .error error') :
    a.SameVerdict s key t key' target := by
  intro effect effect'
  rw [h, h']
  cases accepted with
  | false => simp
  | true => simp [eq_comm]

/-- **A rule for a member of an import is a rule for the member where it is defined.** -/
theorem ruleTarget_reexported (hlinks : a.LinksFollowed) (hindexed : a.WellIndexed)
    (hs : s ∈ a.modules) (hm : s.merged = some m)
    (hexternal : (m.external? name).isSome = true) (horigin : a.originOf s.name name = .definition d x) :
    ∃ t ∈ a.modules, t.name = d ∧ ∀ rest ≠ [], ∀ key key', segments key = name :: rest →
      segments key' = x :: rest → a.SameVerdict s key t key' (.definition d (dotted (x :: rest))) := by
  obtain ⟨t, ht, rfl, m', hview, hm', hx⟩ := exists_definer hindexed horigin
  refine ⟨t, ht, rfl, fun rest hrest key key' hkey hkey' => ?_⟩
  have hpath : segments (dotted (x :: rest)) = x :: rest := by rw [← hkey', dotted_segments]
  by_cases hown : (m.member? name).isSome = true
  · -- a module that also defines the name is itself the end of the chain
    have hdefines : a.Defines (s.name, name) := ⟨m, (hindexed.merged?_of_mem hs).trans hm, hown⟩
    have hself : a.originOf s.name name = .definition s.name name :=
      (originOf_of_ends (Reaches.ends_of_defines .refl hdefines)).trans (chainEnd_of_defines hdefines)
    obtain ⟨hname, rfl⟩ := Origin.definition.inj (hself.symm.trans horigin)
    obtain rfl := hindexed.eq_of_name hs ht hname
    exact sameVerdict_of_eq (fun effect => ruleTarget_of_member hview hx hkey)
      (fun effect => ruleTarget_of_member hview hx hkey')
  · have hlink := (hlinks s hs m hm name hexternal).trans (congrArg some horigin)
    have hnone : m.member? name = none := by simpa using hown
    exact sameVerdict_of_eq
      (fun effect => ruleTarget_of_import hm hnone hexternal hlink horigin hm' hpath hrest hkey)
      (fun effect => ruleTarget_of_member hview hx hkey')

end Members

end Analysis
end PackageDoc
