import PackageDoc.Docstring.Basic
import PackageDoc.Model.TypeRef
import PackageDoc.Snapshot
import PackageDoc.Source.Encoding
import PackageDoc.Syntax.Error

namespace PackageDoc

/-!
# Diagnostics

Everything that is reported about a package is a `Finding`, which knows its kind, how serious it is
and how it is worded.  A `Diagnostic` is a finding at a line.
-/

/-- The categories of findings. -/
inductive DiagnosticKind where
  | syntaxError | importError | notFound | cyclicImport | annotationEval | visibilityScope
  | docstringGrammarMismatch | unresolvedNative | runtimeMismatch
  deriving Repr, DecidableEq, Inhabited

/-- The category's name in messages. -/
def DiagnosticKind.text : DiagnosticKind → String
  | syntaxError => "SyntaxError"
  | importError => "ImportError"
  | notFound => "NotFoundError"
  | cyclicImport => "CyclicImportError"
  | annotationEval => "AnnotationEvalError"
  | visibilityScope => "VisibilityScopeError"
  | docstringGrammarMismatch => "DocstringGrammarMismatch"
  | unresolvedNative => "UnresolvedNative"
  | runtimeMismatch => "RuntimeMismatch"

/-- Why a visibility rule reaches nothing. -/
inductive RuleError where
  | moduleUnresolved (module : String)
  | emptyKey
  /-- The module defines the first name of the path only. -/
  | noSuchMember (module head path : String)
  | notBound (head module : String)
  | importNotResolved (head : String)
  /-- Names from outside the package can be given a docstring and nothing else. -/
  | libraryName (head library : String)
  | importUnresolved (head : String)
  | libraryMember (head library : String)
  | unreachable (path head : String)
  deriving Repr, DecidableEq, Inhabited

/-- The wording of an error. -/
def RuleError.message : RuleError → String
  | moduleUnresolved module => "module " ++ module ++ " is unresolved"
  | emptyKey => "empty key"
  | noSuchMember module head path => module ++ " defines " ++ head ++ " but not " ++ path
  | notBound head module => head ++ " is not bound in " ++ module
  | importNotResolved head => "import of " ++ head ++ " was not resolved"
  | libraryName head library =>
    head ++ " comes from " ++ library ++ ", outside the package; only a docstring can be attached"
  | importUnresolved head => "import of " ++ head ++ " is unresolved"
  | libraryMember head library =>
    "cannot reach members of " ++ head ++ " in " ++ library ++ ", outside the package"
  | unreachable path head => "cannot reach " ++ path ++ " through " ++ head

/-- Something to report. -/
inductive Finding where
  | malformedSource (error : SyntaxError)
  | undecodableSource (error : DecodeError)
  | autodocNotDict
  | autodocEntry
  | importBeyondTop
  | importFailed (module : String) (error : LoadError)
  | nativeWithoutStub (module : String)
  | noData (module : String)
  | missingAtRuntime (name : String)
  | importLoop (name module : String)
  | importMissing (name module : String)
  | importThroughUnresolved (name module : String)
  | annotationNotEvaluated (text : String) (reason : RawReason)
  | ruleRejected (key : String) (error : RuleError)
  | docstringMismatch (issue : DocstringIssue)
  deriving Repr, DecidableEq, Inhabited

namespace Finding

/-- The category of a finding. -/
def kind : Finding → DiagnosticKind
  | malformedSource _ | undecodableSource _ => .syntaxError
  | autodocNotDict | autodocEntry | ruleRejected _ _ => .visibilityScope
  | importBeyondTop | importFailed _ _ => .importError
  | nativeWithoutStub _ => .unresolvedNative
  | noData _ | importMissing _ _ | importThroughUnresolved _ _ => .notFound
  | missingAtRuntime _ => .runtimeMismatch
  | importLoop _ _ => .cyclicImport
  | annotationNotEvaluated _ _ => .annotationEval
  | docstringMismatch _ => .docstringGrammarMismatch

/-- How serious a finding is by itself. -/
def severity : Finding → Severity
  | malformedSource _ | undecodableSource _ | noData _ | importLoop _ _ | importMissing _ _
  | ruleRejected _ _ => .error
  | autodocNotDict | autodocEntry | importBeyondTop | importFailed _ _ | missingAtRuntime _
  | importThroughUnresolved _ _ | annotationNotEvaluated _ _ | docstringMismatch _ => .warning
  | nativeWithoutStub _ => .info

/-- The wording of a finding. -/
def message : Finding → String
  | malformedSource error => error.message
  | undecodableSource error => "cannot decode source: " ++ error.message
  | autodocNotDict => "__autodoc__ is not a dict literal"
  | autodocEntry => "__autodoc__ entries must map strings to bool or str"
  | importBeyondTop => "attempted relative import beyond top-level package"
  | importFailed module error => "cannot import " ++ module ++ ": " ++ error.message
  | nativeWithoutStub module => "native module " ++ module ++ " has no interface source"
  | noData module => "no source or runtime data for " ++ module
  | missingAtRuntime name =>
    "ignoring " ++ name ++ ": defined in source but missing from the imported module"
  | importLoop name module => "import of " ++ name ++ " loops back through " ++ module
  | importMissing name module => "cannot import " ++ name ++ " from " ++ module
  | importThroughUnresolved name module =>
    "cannot follow " ++ name ++ ": module " ++ module ++ " is unresolved"
  | annotationNotEvaluated text reason =>
    "cannot evaluate " ++ Text.quoted text ++ ": " ++ reason.message
  | ruleRejected key error => "__autodoc__ key " ++ Text.quoted key ++ ": " ++ error.message
  | docstringMismatch issue =>
    "docstring line " ++ toString issue.line ++ ": " ++ issue.mismatch.message

end Finding

/-- A finding where it was made. -/
structure Diagnostic where
  finding : Finding
  severity : Severity := finding.severity
  line : Option Nat := none
  deriving Repr, DecidableEq, Inhabited

namespace Diagnostic

/-- A finding at a line. -/
def atLine (finding : Finding) (line : Nat) : Diagnostic :=
  { finding := finding, line := some line }

/-- The category of a diagnostic. -/
def kind (d : Diagnostic) : DiagnosticKind := d.finding.kind

/-- The wording of a diagnostic. -/
def message (d : Diagnostic) : String := d.finding.message

/-- A diagnostic on one line, as logs show it. -/
def text (d : Diagnostic) : String :=
  let head := d.kind.text ++ ": " ++ d.message
  match d.line with
  | some line => head ++ " (line " ++ toString line ++ ")"
  | none => head

end Diagnostic
end PackageDoc
