import PackageDoc.Analysis.Links

namespace PackageDoc

/-!
# Visibility rules

A rule of a module names something that the module binds.  It may name a definition of the module or
a member of one; an import as a whole, where the rule is about the import and not about what is
imported; or a member of an import, where the rule is about the definition.  A name from outside
the package can only be given documentation.
-/

/-- What a rule is about. -/
inductive RuleTarget where
  | definition (module qualname : String)
  /-- An imported name of the module that states the rule. -/
  | reference (name : String)
  deriving Repr, DecidableEq, Inhabited

namespace Analysis

/-- The path that the key of a rule stands for.  A key may begin with the name of the module. -/
def rulePath (module : String) (merged : MergedModule) (key : String) : List String :=
  let path := segments key
  if path.head?.any merged.binds then path
  else match Text.stripStart? (module ++ ".").toList key.toList with
    | some relative => segments (String.ofList relative)
    | none => path

/-- What a rule about an imported name is about. -/
def referenceTarget (head : String) (effect : RuleEffect) : Origin → Except RuleError RuleTarget
  | .definition _ _ | .module _ => .ok (.reference head)
  | .library library _ =>
    if effect.docstring?.isSome then .ok (.reference head) else .error (.libraryName head library)
  | .unresolved _ _ _ => .error (.importUnresolved head)

/-- What a rule about a member of an imported name is about. -/
def memberTarget (a : Analysis) (module head : String) (path : List String) :
    Origin → Except RuleError RuleTarget
  | .library library _ => .error (.libraryMember head library)
  | _ =>
    match a.definitionAt? module path with
    | some (owner, qualname) => .ok (.definition owner qualname)
    | none => .error (.unreachable (dotted path) head)

/-- What a rule of a module is about. -/
def ruleTarget (a : Analysis) (s : ModuleState) (key : String) (effect : RuleEffect) :
    Except RuleError RuleTarget :=
  match s.merged with
  | none => .error (.moduleUnresolved s.name)
  | some merged =>
    let path := rulePath s.name merged key
    match path with
    | [] => .error .emptyKey
    | head :: rest =>
      if (merged.member? head).isSome then
        match merged.lookup path with
        | some _ => .ok (.definition s.name (dotted path))
        | none => .error (.noSuchMember s.name head (dotted path))
      else if (merged.external? head).isNone then .error (.notBound head s.name)
      else match Assoc.get? a.links (s.id, head) with
        | none => .error (.importNotResolved head)
        | some origin =>
          if rest.isEmpty then referenceTarget head effect origin
          else a.memberTarget s.name head path origin

/-- The rules of a module with what they are about, in order. -/
def rulesOf (a : Analysis) (s : ModuleState) :
    List (String × RuleEffect × Except RuleError RuleTarget) :=
  match s.merged with
  | none => []
  | some merged => merged.autodoc.map fun (key, value) =>
      let effect := RuleEffect.ofValue value
      (key, effect, a.ruleTarget s key effect)

/-- The diagnostic of a rule, if it is about nothing. -/
def ruleDiagnostic? : String × RuleEffect × Except RuleError RuleTarget → Option Diagnostic
  | (key, _, .error error) => some { finding := .ruleRejected key error }
  | _ => none

/-- Record a rule of a module.  A later rule about the same thing takes the place of an earlier. -/
def applyRule (id : ModuleId) (a : Analysis)
    (rule : String × RuleEffect × Except RuleError RuleTarget) : Analysis :=
  match rule with
  | (_, effect, .ok (.definition module qualname)) =>
    { a with rules := Assoc.bind a.rules (module, qualname) effect }
  | (_, effect, .ok (.reference name)) =>
    { a with referenceRules := Assoc.bind a.referenceRules (id, name) effect }
  | (_, _, .error _) => a

/-- Record the rules of all modules and report those that are about nothing. -/
def applyVisibility (a : Analysis) : Analysis :=
  let b := a.modules.foldl (fun b s => (a.rulesOf s).foldl (applyRule s.id) b) a
  { b with modules := a.modules.map fun s => s.report ((a.rulesOf s).filterMap ruleDiagnostic?) }

/-- What a rule leaves in the log. -/
def ruleEvent (module : String) :
    String × RuleEffect × Except RuleError RuleTarget → TraceEvent
  | (key, _, .ok _) => .ruleApplied module key
  | (key, _, .error _) => .ruleRejected module key

/-- What the rules leave in the log. -/
def ruleEvents (a : Analysis) : List TraceEvent :=
  a.modules.flatMap fun s => (a.rulesOf s).map (ruleEvent s.name)

end Analysis
end PackageDoc
