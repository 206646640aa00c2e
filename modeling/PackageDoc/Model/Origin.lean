import PackageDoc.Text.Printable

namespace PackageDoc

/-!
# Modules and where names come from
-/

/-- The files of a module. -/
structure ModuleFiles where
  /-- The implementation. -/
  source : Option String := none
  /-- The interface. -/
  stub : Option String := none
  /-- The native extension. -/
  native : Option String := none
  deriving Repr, DecidableEq, Inhabited

/-- Has the module an interface file? -/
def ModuleFiles.hasInterface (files : ModuleFiles) : Bool :=
  files.stub.isSome

/-- Why a module was not analysed. -/
inductive UnresolvedReason where
  | syntaxError
  /-- There is neither a source nor a snapshot. -/
  | notFound
  | noStubForNative
  deriving Repr, DecidableEq, Inhabited

/-- The wording of a reason. -/
def UnresolvedReason.message : UnresolvedReason → String
  | syntaxError => "syntax error"
  | notFound => "not found"
  | noStubForNative => "native module without interface source"

/-- Was a module analysed? -/
inductive ModuleStatus where
  | resolved
  | unresolved (reason : UnresolvedReason)
  deriving Repr, DecidableEq, Inhabited

/-- Was the module analysed? -/
def ModuleStatus.isResolved : ModuleStatus → Bool
  | resolved => true
  | unresolved _ => false

/-- Is a name defined in the module that holds it? -/
inductive LinkKind where
  | definition
  /-- It is imported. -/
  | external
  deriving Repr, DecidableEq, Inhabited

/-- Why an import leads nowhere. -/
inductive ChainFailure where
  /-- It comes back to itself. -/
  | cyclic
  /-- A module of the package does not bind the name. -/
  | notFound
  /-- A module on the way was not analysed. -/
  | unresolvedModule
  deriving Repr, DecidableEq, Inhabited

/-- The name of a failure in logs. -/
def ChainFailure.text : ChainFailure → String
  | cyclic => "Cyclic"
  | notFound => "NotFound"
  | unresolvedModule => "UnresolvedModule"

/-- Where an imported name comes from. -/
inductive Origin where
  /-- A definition in a module of the package. -/
  | definition (module name : String)
  /-- A module of the package. -/
  | module (module : String)
  /-- A name outside the package. -/
  | library (module name : String)
  /-- Nowhere; the name was followed up to here. -/
  | unresolved (module name : String) (reason : ChainFailure)
  deriving Repr, DecidableEq, Inhabited

namespace Origin

/-- The module that an import leads to. -/
def moduleName : Origin → String
  | .definition m _ | .module m | .library m _ | .unresolved m _ _ => m

/-- The name that an import leads to; empty for a module. -/
def name : Origin → String
  | .definition _ n | .library _ n | .unresolved _ n _ => n
  | .module _ => ""

/-- The origin as logs show it. -/
def text : Origin → String
  | .definition m n =>
    "Definition \x7b module: " ++ Text.quoted m ++ ", name: " ++ Text.quoted n ++ " \x7d"
  | .module m => "Module \x7b module: " ++ Text.quoted m ++ " \x7d"
  | .library m n =>
    "Library \x7b module: " ++ Text.quoted m ++ ", name: " ++ Text.quoted n ++ " \x7d"
  | .unresolved m n reason =>
    "Unresolved \x7b module: " ++ Text.quoted m ++ ", name: " ++ Text.quoted n ++
      ", reason: " ++ reason.text ++ " \x7d"

end Origin
end PackageDoc
