namespace PackageDoc

/-!
# Snapshots of imported modules

What a live interpreter saw when it imported a module: plain data about the attributes of the
module object.
-/

/-- What kind of object an attribute is. -/
inductive SnapshotKind where
  | module | classObject | function | variable
  deriving Repr, DecidableEq, Inhabited

/-- An attribute of a module or of a class. -/
structure SnapshotMember where
  name : String
  kind : SnapshotKind
  /-- The documentation of a module, class or function object. -/
  docstring : Option String := none
  /-- A signature such as `(a, b=1) -> int`. -/
  signature : Option String := none
  type : Option String := none
  /-- The module that defines a class or function. -/
  definedIn : Option String := none
  /-- The attributes of a class. -/
  members : List SnapshotMember := []
  deriving Repr, Inhabited

/-- A visibility rule for a name. -/
inductive AutodocValue where
  /-- Include or exclude the name. -/
  | flag (include? : Bool)
  /-- Include the name with this documentation. -/
  | docstring (text : String)
  deriving Repr, DecidableEq, Inhabited

/-- What an imported module exposes. -/
structure Snapshot where
  name : String
  docstring : Option String := none
  /-- Was the module loaded from a native extension? -/
  isNative : Bool := false
  members : List SnapshotMember := []
  /-- The visibility rules of the module, in order. -/
  autodoc : Option (List (String × AutodocValue)) := none
  deriving Repr, Inhabited

namespace SnapshotMember

/-- The first of several attributes that has a name. -/
def find? (members : List SnapshotMember) (name : String) : Option SnapshotMember :=
  members.find? fun m => m.name == name

/-- Follow attribute names down from one of `members`. -/
def findPath? (members : List SnapshotMember) : List String → Option SnapshotMember
  | [] => none
  | [name] => find? members name
  | name :: names => (find? members name).bind fun m => findPath? m.members names

end SnapshotMember

/-- The attribute at a path through classes. -/
def Snapshot.lookup (s : Snapshot) (path : List String) : Option SnapshotMember :=
  SnapshotMember.findPath? s.members path

/-- Why a module could not be imported. -/
inductive LoadError where
  /-- The import raised an exception. -/
  | raised (exception message : String)
  /-- The import did not end within the limit. -/
  | timeout (seconds : Nat)
  /-- Nothing is imported in this run. -/
  | disabled
  /-- There is no usable answer from the interpreter. -/
  | loader (message : String)
  deriving Repr, DecidableEq, Inhabited

/-- The wording of an error. -/
def LoadError.message : LoadError → String
  | raised exception message => "import raised " ++ exception ++ ": " ++ message
  | timeout seconds => "import timed out after " ++ toString seconds ++ "s"
  | disabled => "runtime import disabled"
  | loader message => "loader failed: " ++ message

end PackageDoc
