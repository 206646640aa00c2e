import PackageDoc.Analysis.ModuleId
import PackageDoc.Model.Diagnostic
import PackageDoc.Model.Origin

namespace PackageDoc

/-!
# Logs

What an analysis did, as a list of events.  An event knows its level and its wording.
-/

/-- How important an event is. -/
inductive TraceLevel where
  | error | warn | info | debug | trace
  deriving Repr, DecidableEq, Inhabited

namespace TraceLevel

/-- The place of a level, the most important first. -/
def rank : TraceLevel → Nat
  | error => 0
  | warn => 1
  | info => 2
  | debug => 3
  | trace => 4

/-- The level's name in logs. -/
def label : TraceLevel → String
  | error => "ERROR"
  | warn => "WARN"
  | info => "INFO"
  | debug => "DEBUG"
  | trace => "TRACE"

/-- The level of a name. -/
def ofText? (name : String) : Option TraceLevel :=
  [error, warn, info, debug, trace].find? fun l => l.label.toLower == name

end TraceLevel

/-- The steps of an analysis. -/
inductive Phase where
  | registration | merge | imports | types | visibility | assemble
  deriving Repr, DecidableEq, Inhabited

/-- The step's name in logs. -/
def Phase.text : Phase → String
  | registration => "registration"
  | merge => "merge"
  | imports => "imports"
  | types => "types"
  | visibility => "visibility"
  | assemble => "assemble"

/-- Something that an analysis did. -/
inductive TraceEvent where
  | phaseStarted (phase : Phase)
  | phaseFinished (phase : Phase)
  | registered (module : String) (id : ModuleId)
  | moduleUnresolved (module : String) (reason : UnresolvedReason)
  | importUnavailable (module : String) (error : LoadError)
  | linked (module name : String) (origin : Origin)
  | linkFailed (module name : String) (reason : ChainFailure)
  | hintKept (module raw : String) (reason : RawReason)
  | ruleApplied (module key : String)
  | ruleRejected (module key : String)
  deriving Repr, DecidableEq

namespace TraceEvent

/-- The level of an event. -/
def level : TraceEvent → TraceLevel
  | phaseStarted _ | phaseFinished _ | importUnavailable _ _ => .info
  | registered _ _ | linked _ _ _ | hintKept _ _ _ | ruleApplied _ _ => .debug
  | moduleUnresolved _ _ | linkFailed _ _ _ | ruleRejected _ _ => .warn

/-- The wording of an event. -/
def text : TraceEvent → String
  | phaseStarted phase => "phase " ++ phase.text ++ " started"
  | phaseFinished phase => "phase " ++ phase.text ++ " finished"
  | registered module id => "registered " ++ module ++ " as " ++ id.text
  | moduleUnresolved module reason => "module " ++ module ++ " unresolved: " ++ reason.message
  | importUnavailable module error => "no runtime data for " ++ module ++ ": " ++ error.message
  | linked module name origin => module ++ "." ++ name ++ " -> " ++ origin.text
  | linkFailed module name reason => module ++ "." ++ name ++ " unresolved: " ++ reason.text
  | hintKept module raw reason =>
    module ++ ": annotation " ++ Text.quoted raw ++ " kept as text: " ++ reason.message
  | ruleApplied module key => module ++ ": __autodoc__ " ++ Text.quoted key ++ " applied"
  | ruleRejected module key => module ++ ": __autodoc__ " ++ Text.quoted key ++ " rejected"

/-- The line of a log that tells of an event. -/
def line (event : TraceEvent) : String :=
  event.level.label ++ " " ++ event.text

/-- The lines of a log that shows events down to a level. -/
def log (level : TraceLevel) (events : List TraceEvent) : List String :=
  (events.filter fun e => e.level.rank ≤ level.rank).map line

end TraceEvent
end PackageDoc
