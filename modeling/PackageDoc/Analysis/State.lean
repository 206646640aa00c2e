import PackageDoc.Analysis.Merge
import PackageDoc.Analysis.Trace
import PackageDoc.Config
import PackageDoc.Model.Tree

namespace PackageDoc

/-!
# The state of an analysis

* `ModuleState` — what is known of one registered module;
* `Analysis` — all registered modules, with the tables that the steps of the analysis fill;
* `Analysis.register` and `Analysis.mergeModules` — the first two steps.
-/

/-- What a visibility rule does. -/
inductive RuleEffect where
  | shown
  | hidden
  /-- Shown with this documentation. -/
  | documented (text : String)
  deriving Repr, DecidableEq, Inhabited

namespace RuleEffect

/-- Does the rule let a name be documented? -/
def includes : RuleEffect → Bool
  | hidden => false
  | _ => true

/-- The documentation that the rule gives. -/
def docstring? : RuleEffect → Option String
  | documented text => some text
  | _ => none

/-- The effect of a rule as it is written. -/
def ofValue : AutodocValue → RuleEffect
  | .flag true => shown
  | .flag false => hidden
  | .docstring text => documented text

end RuleEffect

/-- A registered module. -/
structure ModuleState where
  id : ModuleId
  input : ModuleInput
  status : ModuleStatus := .resolved
  /-- The view of the module; none before merging and for a module that is unresolved. -/
  merged : Option MergedModule := none
  diagnostics : List Diagnostic := []
  /-- Diagnostics of definitions, by their dotted paths. -/
  nodeDiagnostics : List (String × List Diagnostic) := []
  deriving Repr

namespace ModuleState

/-- The name of the module. -/
def name (s : ModuleState) : String :=
  s.input.name

/-- Report something about the module. -/
def report (s : ModuleState) (diagnostics : List Diagnostic) : ModuleState :=
  { s with diagnostics := s.diagnostics ++ diagnostics }

/-- Report something about a definition. -/
def reportNode (s : ModuleState) (qualname : String) (d : Diagnostic) : ModuleState :=
  { s with
    nodeDiagnostics := Assoc.bind s.nodeDiagnostics qualname
      ((Assoc.get? s.nodeDiagnostics qualname).getD [] ++ [d]) }

/-- Merge the sources and the snapshot of the module. -/
def merge (s : ModuleState) : ModuleState :=
  let (diagnostics, result) := s.input.merge
  let s := s.report diagnostics
  match result with
  | .ok merged => { s with merged := some merged }
  | .error reason => { s with status := .unresolved reason }

/-- Merging leaves the number and the input of a module, and the reports of its definitions. -/
theorem merge_rest (s : ModuleState) : s.merge = { s with
    status := s.merge.status, merged := s.merge.merged, diagnostics := s.merge.diagnostics } := by
  unfold merge
  dsimp only
  split <;> rfl

/-- Merging leaves a module its number. -/
theorem merge_id (s : ModuleState) : s.merge.id = s.id :=
  (congrArg id s.merge_rest :)

/-- Merging leaves a module its input. -/
theorem merge_input (s : ModuleState) : s.merge.input = s.input :=
  (congrArg input s.merge_rest :)

/-- Merging leaves a module its name. -/
theorem merge_name (s : ModuleState) : s.merge.name = s.name :=
  congrArg ModuleInput.name s.merge_input

/-- A view behind merging is what merging makes of the input, or else it was there before. -/
theorem merged_merge_cases {s : ModuleState} {m : MergedModule} (h : s.merge.merged = some m) :
    s.input.merge.2 = .ok m ∨ s.merged = some m := by
  unfold merge at h
  dsimp only at h
  split at h
  · rename_i merged hmerge
    obtain rfl := Option.some.inj h
    exact .inl hmerge
  · exact .inr h

/-- What merging leaves in the log. -/
def mergeEvents (s : ModuleState) : List TraceEvent :=
  (match s.input.outcome with
    | .failed error => [.importUnavailable s.name error]
    | _ => []) ++
  (match s.merge.status with
    | .unresolved reason => [.moduleUnresolved s.name reason]
    | .resolved => [])

end ModuleState

/-- An analysis of a package. -/
structure Analysis where
  config : Config
  /-- The name of the package. -/
  root : String
  /-- Modules that are not registered yet. -/
  pending : List ModuleInput
  /-- Registered modules, in the order of their numbers. -/
  modules : List ModuleState := []
  /-- The numbers of registered modules, by their names. -/
  moduleIndex : List (String × ModuleId) := []
  /-- Where imported names come from. -/
  links : List ((ModuleId × String) × Origin) := []
  /-- Rules for definitions, by module and dotted path. -/
  rules : List ((String × String) × RuleEffect) := []
  /-- Rules for imported names. -/
  referenceRules : List ((ModuleId × String) × RuleEffect) := []
  deriving Repr

namespace Analysis

/-- An analysis of some modules, at its beginning. -/
def start (root : String) (inputs : List ModuleInput) (config : Config) : Analysis :=
  { config := config, root := root, pending := inputs }

/-- The number of the registered module of a name. -/
def moduleId? (a : Analysis) (name : String) : Option ModuleId :=
  Assoc.get? a.moduleIndex name

/-- The module of a number. -/
def stateAt? (a : Analysis) (id : ModuleId) : Option ModuleState :=
  a.modules[id.index]?

/-- The registered module of a name. -/
def state? (a : Analysis) (name : String) : Option ModuleState :=
  (a.moduleId? name).bind a.stateAt?

/-- Is a module of this name registered? -/
def isRegistered (a : Analysis) (name : String) : Bool :=
  Assoc.contains a.moduleIndex name

/-- The names of the registered modules. -/
def registeredNames (a : Analysis) : List String :=
  Assoc.keys a.moduleIndex

/-- The view of a module. -/
def merged? (a : Analysis) (name : String) : Option MergedModule :=
  (a.state? name).bind ModuleState.merged

/-- Is a name that of the root package or of a module inside it? -/
def isInternal (a : Analysis) (name : String) : Bool :=
  DocModule.covers a.root name

/-- An analysis with one more module: it stands behind the others, and the index has its number. -/
def addModule (a : Analysis) (id : ModuleId) (input : ModuleInput) : Analysis :=
  { a with
    modules := a.modules ++ [{ id := id, input := input }]
    moduleIndex := Assoc.bind a.moduleIndex input.name id }

/-- A module is added behind the others. -/
@[simp] theorem addModule_modules (a : Analysis) (id : ModuleId) (input : ModuleInput) :
    (a.addModule id input).modules = a.modules ++ [{ id := id, input := input }] := rfl

/-- The number of a new module is entered under its name. -/
@[simp] theorem addModule_moduleIndex (a : Analysis) (id : ModuleId) (input : ModuleInput) :
    (a.addModule id input).moduleIndex = Assoc.bind a.moduleIndex input.name id := rfl

/-- Adding a module changes no setting. -/
@[simp] theorem addModule_config (a : Analysis) (id : ModuleId) (input : ModuleInput) :
    (a.addModule id input).config = a.config := rfl

/-- Register a module, unless it is to be left out or its name is taken. -/
def registerInput (a : Analysis) (input : ModuleInput) : Analysis :=
  if a.config.isSkipped input.name || a.isRegistered input.name then a
  else match ModuleId.ofIndex? a.modules.length with
    | none => a
    | some id => a.addModule id input

/-- Register the pending modules. -/
def register (a : Analysis) : Analysis :=
  a.pending.foldl registerInput { a with pending := [] }

/-- What registering an input can do: nothing, when it is left out, its name is taken or there are no
    more numbers; or else it is added as a module of which nothing is known. -/
theorem registerInput_cases (a : Analysis) (input : ModuleInput) :
    (a.registerInput input = a ∧ (a.config.isSkipped input.name = true ∨
        a.isRegistered input.name = true ∨ ModuleId.ofIndex? a.modules.length = none)) ∨
      (a.config.isSkipped input.name = false ∧ a.isRegistered input.name = false ∧
        ∃ id, ModuleId.ofIndex? a.modules.length = some id ∧
          a.registerInput input = a.addModule id input) := by
  unfold registerInput
  split
  · rename_i hcause
    rw [Bool.or_eq_true] at hcause
    exact .inl ⟨rfl, hcause.imp_right .inl⟩
  · rename_i hfree
    rw [Bool.or_eq_true, not_or, Bool.not_eq_true, Bool.not_eq_true] at hfree
    split
    · rename_i hid
      exact .inl ⟨rfl, .inr (.inr hid)⟩
    · rename_i id hid
      exact .inr ⟨hfree.1, hfree.2, id, hid, rfl⟩

/-- Registration adds modules, enters them in the index and leaves nothing pending, and changes
    nothing else. -/
theorem register_rest (a : Analysis) : a.register = { a with
    pending := [], modules := a.register.modules, moduleIndex := a.register.moduleIndex } := by
  let Rest (b : Analysis) : Prop :=
    b = { a with pending := [], modules := b.modules, moduleIndex := b.moduleIndex }
  refine List.foldlRecOn a.pending registerInput (motive := Rest) (by rfl) fun b hb input _ => ?_
  rcases registerInput_cases b input with ⟨hsame, -⟩ | ⟨-, -, id, -, hadd⟩
  · rwa [hsame]
  · rw [hadd, hb]
    rfl

/-- What registration leaves in the log. -/
def registerEvents (a : Analysis) : List TraceEvent :=
  (a.register.modules.drop a.modules.length).map fun s => .registered s.name s.id

/-- Merge every registered module. -/
def mergeModules (a : Analysis) : Analysis :=
  { a with modules := a.modules.map ModuleState.merge }

/-- What merging leaves in the log. -/
def mergeEvents (a : Analysis) : List TraceEvent :=
  a.modules.flatMap ModuleState.mergeEvents

end Analysis
end PackageDoc
