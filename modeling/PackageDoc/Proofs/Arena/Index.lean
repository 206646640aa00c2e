import PackageDoc.Analysis.Links
import PackageDoc.Proofs.Declaration.Bindings

namespace PackageDoc.Analysis

/-!
# The index of the modules

Registration puts a module behind the others and enters its number in the index, under its name.
Names are looked up in the index, and the number that is found there is taken for a place among the
modules.  The two are stored apart: it is the steps that keep them together.

* `WellIndexed` — modules have distinct names, their numbers are their places, and the index has
  these numbers under these names;
* `WellIndexed.registerInput`, `WellIndexed.map` — registering an input keeps it so, and so does
  changing modules one by one;
* `WellIndexed.moduleId?_eq_some_iff`, `WellIndexed.state?_eq_some_iff` — what is then found under a
  name.
-/

variable {a b : Analysis} {s : ModuleState} {id : ModuleId} {name : String}

/-! ### What is looked up in the index alone -/

/-- A name is registered just if the index has it. -/
theorem isRegistered_iff_mem_registeredNames :
    a.isRegistered name = true ↔ name ∈ a.registeredNames :=
  Assoc.contains_iff

/-- A name is registered just if the index has a number for it. -/
theorem isSome_moduleId? (a : Analysis) (name : String) :
    (a.moduleId? name).isSome = a.isRegistered name := by
  rw [Bool.eq_iff_iff, isRegistered_iff_mem_registeredNames]
  exact Assoc.isSome_get?_iff

/-- A name has no number exactly when it is not registered. -/
theorem moduleId?_eq_none_iff : a.moduleId? name = none ↔ a.isRegistered name = false := by
  rw [← Option.isNone_iff_eq_none, ← Option.not_isSome, isSome_moduleId?, Bool.not_eq_true']

/-- Only registered names have modules. -/
theorem isRegistered_of_state? (h : a.state? name = some s) : a.isRegistered name = true := by
  obtain ⟨id, hid, -⟩ := Option.bind_eq_some_iff.mp h
  rw [← isSome_moduleId?, hid, Option.isSome_some]

/-- What the index leads to is a module. -/
theorem mem_of_state? (h : a.state? name = some s) : s ∈ a.modules := by
  obtain ⟨id, -, hs⟩ := Option.bind_eq_some_iff.mp h
  exact List.mem_of_getElem? hs

/-- Only registered names have views. -/
theorem isRegistered_of_merged? {m : MergedModule} (h : a.merged? name = some m) :
    a.isRegistered name = true := by
  obtain ⟨s, hs, -⟩ := Option.bind_eq_some_iff.mp h
  exact isRegistered_of_state? hs

/-! ### Index and modules -/

/-- The number of every module is its place. -/
def Numbered (a : Analysis) : Prop :=
  a.modules.map (fun s => s.id.index) = List.range a.modules.length

/-- In a numbered arena, the number of a module is its place. -/
theorem Numbered.index_eq (h : a.Numbered) {i : Nat} (hs : a.modules[i]? = some s) :
    s.id.index = i := by
  have hi : i < a.modules.length := (List.getElem?_eq_some_iff.mp hs).1
  have hplace : (a.modules.map fun s => s.id.index)[i]? = some s.id.index := by
    rw [List.getElem?_map, hs, Option.map_some]
  rw [h, List.getElem?_range hi] at hplace
  exact (Option.some.inj hplace).symm

/-- No two modules have one number. -/
theorem Numbered.nodup_ids (h : a.Numbered) : (a.modules.map ModuleState.id).Nodup := by
  refine List.Nodup.of_map ModuleId.index ?_
  rw [List.map_map]
  exact h ▸ List.nodup_range

/-- The module of a number is the one that has it. -/
theorem Numbered.stateAt?_eq_some_iff (h : a.Numbered) :
    a.stateAt? id = some s ↔ s ∈ a.modules ∧ s.id = id := by
  refine ⟨fun hs => ⟨List.mem_of_getElem? hs, ModuleId.index_inj.mp (h.index_eq hs)⟩, ?_⟩
  rintro ⟨hs, rfl⟩
  obtain ⟨i, hi⟩ := List.getElem?_of_mem hs
  rw [stateAt?, h.index_eq hi, hi]

/-- A number that a module has is that of a module. -/
theorem Numbered.isSome_stateAt? (h : a.Numbered) (hid : id ∈ a.modules.map ModuleState.id) :
    (a.stateAt? id).isSome = true := by
  obtain ⟨s, hs, hsid⟩ := List.mem_map.mp hid
  rw [h.stateAt?_eq_some_iff.mpr ⟨hs, hsid⟩, Option.isSome_some]

/-- The modules and the index of an analysis fit together. -/
structure WellIndexed (a : Analysis) : Prop where
  /-- No two modules have one name. -/
  names : (a.modules.map ModuleState.name).Nodup
  numbered : a.Numbered
  /-- The index has the number of every module under its name, and nothing else. -/
  index : a.moduleIndex = a.modules.map fun s => (s.name, s.id)

namespace WellIndexed

/-- Nothing is registered at the beginning, and the index is empty. -/
theorem start (root : String) (inputs : List ModuleInput) (config : Config) :
    (Analysis.start root inputs config).WellIndexed :=
  ⟨List.nodup_nil, rfl, rfl⟩

/-- The names of the index are those of the modules. -/
theorem registeredNames_eq (h : a.WellIndexed) :
    a.registeredNames = a.modules.map ModuleState.name := by
  rw [registeredNames, h.index, Assoc.keys, List.map_map]
  rfl

/-- A name is registered exactly when a module has it. -/
theorem isRegistered_iff (h : a.WellIndexed) :
    a.isRegistered name = true ↔ name ∈ a.modules.map ModuleState.name := by
  rw [isRegistered_iff_mem_registeredNames, h.registeredNames_eq]

/-- Only one module has a name. -/
theorem eq_of_name {t : ModuleState} (h : a.WellIndexed) (hs : s ∈ a.modules) (ht : t ∈ a.modules)
    (hname : s.name = t.name) : s = t :=
  List.inj_on_of_nodup_map h.names hs ht hname

/-- The name of a module is registered. -/
theorem isRegistered_of_mem (h : a.WellIndexed) (hs : s ∈ a.modules) :
    a.isRegistered s.name = true :=
  h.isRegistered_iff.mpr (List.mem_map_of_mem hs)

/-! #### What keeps them together -/

/-- A module with a new name and the next number is entered in the index as it is put behind the
    others. -/
theorem addModule (h : a.WellIndexed) {input : ModuleInput}
    (hfree : a.isRegistered input.name = false)
    (hid : ModuleId.ofIndex? a.modules.length = some id) : (a.addModule id input).WellIndexed := by
  have hnew : input.name ∉ a.modules.map ModuleState.name := by
    rw [← h.isRegistered_iff, hfree]
    exact Bool.false_ne_true
  refine ⟨?_, ?_, ?_⟩
  · have hall := h.names.concat hnew
    rw [List.concat_eq_append] at hall
    rwa [addModule_modules, List.map_append]
  · have hplace : id.index = a.modules.length := ModuleId.index_eq_of_ofIndex? hid
    rw [Numbered, addModule_modules, List.map_append, List.length_append, List.length_singleton,
      List.range_succ, h.numbered]
    exact congrArg (fun i => List.range a.modules.length ++ [i]) hplace
  · -- the name is new to the index too, so that its entry comes last
    have hunbound : Assoc.contains a.moduleIndex input.name = false := hfree
    rw [addModule_moduleIndex, addModule_modules, Assoc.bind, hunbound,
      if_neg Bool.false_ne_true, h.index, List.map_append]
    rfl

/-- Registering an input keeps the index and the arena in agreement. -/
theorem registerInput (h : a.WellIndexed) (input : ModuleInput) :
    (a.registerInput input).WellIndexed := by
  rcases registerInput_cases a input with ⟨hsame, -⟩ | ⟨-, hfree, id, hid, hadd⟩
  · rwa [hsame]
  · rw [hadd]
    exact h.addModule hfree hid

/-- So it is with several inputs. -/
theorem foldl_registerInput (h : a.WellIndexed) (inputs : List ModuleInput) :
    (inputs.foldl Analysis.registerInput a).WellIndexed :=
  List.foldlRecOn inputs Analysis.registerInput h fun _ hb input _ => hb.registerInput input

/-- Registering all inputs keeps the index and the arena in agreement. -/
theorem register (h : a.WellIndexed) : a.register.WellIndexed :=
  foldl_registerInput (a := { a with pending := [] }) ⟨h.names, h.numbered, h.index⟩ a.pending

/-- A step that leaves the index alone and changes modules one by one, but neither their names nor
    their numbers. -/
theorem map (h : a.WellIndexed) {f : ModuleState → ModuleState}
    (hb : b.modules = a.modules.map f) (hindex : b.moduleIndex = a.moduleIndex)
    (hname : ∀ s, (f s).name = s.name) (hid : ∀ s, (f s).id = s.id) : b.WellIndexed := by
  have hnames : ModuleState.name ∘ f = ModuleState.name := funext hname
  have hplaces : (fun s : ModuleState => s.id.index) ∘ f = fun s => s.id.index :=
    funext fun s => congrArg ModuleId.index (hid s)
  refine ⟨?_, ?_, ?_⟩
  · rw [hb, List.map_map, hnames]
    exact h.names
  · rw [Numbered, hb, List.map_map, List.length_map, hplaces]
    exact h.numbered
  · rw [hindex, h.index, hb, List.map_map]
    refine List.map_congr_left fun s _ => ?_
    rw [Function.comp_apply, hname, hid]

/-- Merging modules with their stubs keeps the index and the arena in agreement. -/
theorem mergeModules (h : a.WellIndexed) : a.mergeModules.WellIndexed :=
  h.map rfl rfl ModuleState.merge_name ModuleState.merge_id

/-- So does resolving their imports. -/
theorem resolveImports (h : a.WellIndexed) : a.resolveImports.WellIndexed :=
  h.map rfl rfl (fun _ => rfl) fun _ => rfl

/-! #### Looking up -/

/-- **The index has a number under a name just if the module of that number has that name.** -/
theorem moduleId?_eq_some_iff (h : a.WellIndexed) :
    a.moduleId? name = some id ↔ ∃ s, a.stateAt? id = some s ∧ s.name = name := by
  have hkeys : a.registeredNames.Nodup := h.registeredNames_eq ▸ h.names
  rw [moduleId?, Assoc.get?_eq_some_iff_mem hkeys, h.index, List.mem_map]
  refine exists_congr fun s => ?_
  rw [h.numbered.stateAt?_eq_some_iff, Prod.mk.injEq, and_assoc]
  exact and_congr_right fun _ => and_comm

/-- **The module of a name is the one that has it.** -/
theorem state?_eq_some_iff (h : a.WellIndexed) :
    a.state? name = some s ↔ s ∈ a.modules ∧ s.name = name := by
  rw [state?, Option.bind_eq_some_iff]
  constructor
  · rintro ⟨id, hid, hs⟩
    obtain ⟨t, ht, hname⟩ := h.moduleId?_eq_some_iff.mp hid
    obtain rfl := Option.some.inj (hs.symm.trans ht)
    exact ⟨(h.numbered.stateAt?_eq_some_iff.mp hs).1, hname⟩
  · rintro ⟨hs, hname⟩
    have hplace := h.numbered.stateAt?_eq_some_iff.mpr ⟨hs, rfl⟩
    exact ⟨s.id, h.moduleId?_eq_some_iff.mpr ⟨s, hplace, hname⟩, hplace⟩

/-- A registered name has a module. -/
theorem exists_state? (h : a.WellIndexed) (hname : a.isRegistered name = true) :
    ∃ s, a.state? name = some s := by
  obtain ⟨s, hs, hsname⟩ := List.mem_map.mp (h.isRegistered_iff.mp hname)
  exact ⟨s, h.state?_eq_some_iff.mpr ⟨hs, hsname⟩⟩

/-- Looking a module up finds one exactly under the names that are registered. -/
theorem isSome_state? (h : a.WellIndexed) (name : String) :
    (a.state? name).isSome = a.isRegistered name := by
  rw [Bool.eq_iff_iff]
  constructor
  · intro hsome
    obtain ⟨s, hs⟩ := Option.isSome_iff_exists.mp hsome
    exact isRegistered_of_state? hs
  · intro hname
    exact Option.isSome_iff_exists.mpr (h.exists_state? hname)

/-- Looking a module of the arena up finds that module. -/
theorem merged?_of_mem (h : a.WellIndexed) (hs : s ∈ a.modules) : a.merged? s.name = s.merged := by
  rw [merged?, h.state?_eq_some_iff.mpr ⟨hs, rfl⟩, Option.bind_some]

end WellIndexed
end PackageDoc.Analysis
