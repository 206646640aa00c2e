import PackageDoc.Analysis.TypeEval

namespace PackageDoc

/-!
# Types of all annotations

`Analysis.evaluateTypes` evaluates every annotation of every module, records the types where the
annotations stand and reports, at the definition, each annotation that was kept as text.
-/

/-- An evaluated annotation. -/
structure Evaluation where
  /-- The path of the definition. -/
  path : List String
  line : Option Nat
  place : HintPlace
  /-- The text of the annotation. -/
  raw : String
  /-- Its type; none when evaluation came to no end. -/
  type : Option TypeRef
  deriving Repr, Inhabited

namespace Evaluation

/-- Why the annotation was kept as text, if that is worth a report. -/
def failure? (e : Evaluation) : Option RawReason :=
  match e.type with
  | some (.raw text reason links) =>
    if (TypeRef.raw text reason links).isFailure then some reason else none
  | _ => none

/-- The diagnostic of an annotation that was kept as text. -/
def diagnostic? (e : Evaluation) : Option Diagnostic :=
  e.failure?.map fun reason =>
    { finding := .annotationNotEvaluated e.raw reason, line := e.line }

end Evaluation

mutual

/-- The evaluated annotations of a definition and of all below it. -/
def MergedMember.evaluations (env : TypeEnv) (path : List String) (scope : Option ClassScope) :
    MergedMember → List Evaluation
  | ⟨name, line, docstring, shape, members⟩ =>
    let own : MergedMember := ⟨name, line, docstring, shape, []⟩
    (shape.hints.map fun (place, hint) =>
      ⟨path, own.knownLine, place, hint.raw, env.evaluate scope hint.raw⟩) ++
    MergedMember.evaluationsList env path (some ⟨dotted path, members⟩) members

/-- The evaluated annotations of the definitions in the body that `path` leads to. -/
def MergedMember.evaluationsList (env : TypeEnv) (path : List String)
    (scope : Option ClassScope) : List MergedMember → List Evaluation
  | [] => []
  | m :: ms =>
    MergedMember.evaluations env (path ++ [m.name]) scope m ++
      MergedMember.evaluationsList env path scope ms

end

namespace Analysis

/-- The evaluated annotations of a module. -/
def evaluationsOf (a : Analysis) (s : ModuleState) : List Evaluation :=
  match s.merged with
  | none => []
  | some merged =>
    MergedMember.evaluationsList ⟨a, s.id, s.name, merged⟩ [] none merged.members

/-- Record an evaluated annotation in its module. -/
def applyEvaluation (s : ModuleState) (e : Evaluation) : ModuleState :=
  let s := match e.diagnostic? with
    | some d => s.reportNode (dotted e.path) d
    | none => s
  match e.type with
  | some type => { s with merged := s.merged.map fun m => m.resolveAt e.place type e.path }
  | none => s

/-- Evaluate the annotations of the module with a number, and then record their types. -/
def evaluateModule (a : Analysis) (index : Nat) : Analysis :=
  { a with
    modules := a.modules.modify index fun s => (a.evaluationsOf s).foldl applyEvaluation s }

/-- Evaluate all annotations, one module after the other. -/
def evaluateTypes (a : Analysis) : Analysis :=
  (List.range a.modules.length).foldl evaluateModule a

/-- What evaluation leaves in the log. -/
def typeEvents (a : Analysis) : List TraceEvent :=
  a.modules.flatMap fun s => (a.evaluationsOf s).filterMap fun e =>
    e.failure?.map fun reason => .hintKept s.name e.raw reason

end Analysis
end PackageDoc
