import PackageDoc.Analysis.Links

namespace PackageDoc

/-!
# What names in annotations refer to

* `isBuiltin` — the names of the module `builtins` that may stand in annotations;
* `Analysis.pathTarget` — the target of a path whose beginning names a module;
* `TypeEnv.target` — the target of a dotted name as a module writes it.

A path is followed module by module.  An import that leaves the package at a module that is left
out may put a longer path in place of a shorter one, so that a path can be followed for ever.  The
outcome of following is therefore one of three things: a value, the reason why there is none, or
nothing when there is no end.
-/

/-! ### Builtin names -/

/-- The builtin names, in order. -/
def builtinNames : List String := [
  "ArithmeticError", "AssertionError", "AttributeError", "BaseException", "BaseExceptionGroup",
  "BlockingIOError", "BrokenPipeError", "BufferError", "BytesWarning", "ChildProcessError",
  "ConnectionAbortedError", "ConnectionError", "ConnectionRefusedError", "ConnectionResetError",
  "DeprecationWarning", "EOFError", "Ellipsis", "EncodingWarning", "EnvironmentError",
  "Exception", "ExceptionGroup", "False", "FileExistsError", "FileNotFoundError",
  "FloatingPointError", "FutureWarning", "GeneratorExit", "IOError", "ImportError",
  "ImportWarning", "IndentationError", "IndexError", "InterruptedError", "IsADirectoryError",
  "KeyError", "KeyboardInterrupt", "LookupError", "MemoryError", "ModuleNotFoundError",
  "NameError", "None", "NotADirectoryError", "NotImplemented", "NotImplementedError", "OSError",
  "OverflowError", "PendingDeprecationWarning", "PermissionError", "ProcessLookupError",
  "RecursionError", "ReferenceError", "ResourceWarning", "RuntimeError", "RuntimeWarning",
  "StopAsyncIteration", "StopIteration", "SyntaxError", "SyntaxWarning", "SystemError",
  "SystemExit", "TabError", "TimeoutError", "True", "TypeError", "UnboundLocalError",
  "UnicodeDecodeError", "UnicodeEncodeError", "UnicodeError", "UnicodeTranslateError",
  "UnicodeWarning", "UserWarning", "ValueError", "Warning", "ZeroDivisionError", "bool",
  "bytearray", "bytes", "callable", "classmethod", "complex", "dict", "enumerate", "filter",
  "float", "frozenset", "int", "list", "map", "memoryview", "object", "property", "range",
  "reversed", "set", "slice", "staticmethod", "str", "super", "tuple", "type", "zip"]

/-- Is `name` builtin? -/
def isBuiltin (name : String) : Bool :=
  builtinNames.contains name

/-! ### Targets -/

/-- The outcome of an evaluation: nothing, when it has no end; a reason; or a value. -/
abbrev Eval := ExceptT RawReason Option

/-- The path that is followed in place of a name that comes from an origin, with the names `rest`
    behind it; none where the origin itself says what is meant. -/
def Origin.onward? (rest : List String) : Origin → Option (List String)
  | .library owner name => if rest.isEmpty then none else some (segments owner ++ name :: rest)
  | .module owner => if rest.isEmpty then none else some (segments owner ++ rest)
  | _ => none

/-- The target of a name `head` that comes from an origin, and of the names `rest` behind it, where
    no path is to be followed. -/
def Origin.target (head : String) (rest : List String) : Origin → Except RawReason Target
  | .definition owner name => .ok ⟨owner, dotted (name :: rest), .package⟩
  | .library owner name => .ok ⟨owner, name, .library⟩
  | .module owner => .ok ⟨owner, "", .module⟩
  | .unresolved _ _ .cyclic => .error (.cyclicImport head)
  | .unresolved _ _ _ => .error (.unresolvedImport head)

namespace Analysis

/-- The longest beginning of `rest`, put behind `before`, that names a registered module, and what
    follows it. -/
def longestModule? (a : Analysis) (before : List String) :
    (rest : List String) → Option (String × List String)
  | [] => none
  | part :: rest =>
    let here := before ++ [part]
    match a.longestModule? here rest with
    | some found => some found
    | none => if a.isRegistered (dotted here) then some (dotted here, rest) else none

/-- The target outside the package that a path names. -/
def libraryTarget (path : List String) : Except RawReason Target :=
  match path.getLast? with
  | none => .error .unparseable
  | some last =>
    match path.dropLast with
    | [] => .ok ⟨last, "", .library⟩
    | init => .ok ⟨dotted init, last, .library⟩

/-- The target of a name `head` that comes from `origin`, and of the names `rest` behind it.  A path
    that begins with a module is followed by `onPath`. -/
def targetFrom (onPath : List String → Option (Except RawReason Target)) (origin : Origin)
    (head : String) (rest : List String) : Option (Except RawReason Target) :=
  match origin.onward? rest with
  | some path => onPath path
  | none => some (origin.target head rest)

/-- One round of following a path: its target, or what `onPath` finds for the path that is put in
    its place. -/
def targetOnce (a : Analysis) (onPath : List String → Option (Except RawReason Target))
    (path : List String) : Option (Except RawReason Target) :=
  match a.longestModule? [] path with
  | none => some (libraryTarget path)
  | some (module, []) => some (.ok ⟨module, "", .module⟩)
  | some (module, head :: rest) => targetFrom onPath (a.originOf module head) head rest

/-- What a round finds depends on what is found for the path that is put in, and on nothing else of
    `onPath`. -/
theorem targetOnce_congr (a : Analysis)
    {r : Option (Except RawReason Target) → Option (Except RawReason Target) → Prop}
    {f g : List String → Option (Except RawReason Target)} (hrefl : ∀ found, r found found)
    (h : ∀ path, r (f path) (g path)) (path : List String) :
    r (a.targetOnce f path) (a.targetOnce g path) := by
  unfold targetOnce targetFrom
  split
  · exact hrefl _
  · exact hrefl _
  · split
    · exact h _
    · exact hrefl _

/-- The target of a path whose beginning names a module. -/
def pathTarget (a : Analysis) (path : List String) : Option (Except RawReason Target) :=
  a.targetOnce (fun next => a.pathTarget next) path
partial_fixpoint monotonicity fun _ _ h path =>
  targetOnce_congr a (fun _ => by constructor) h path

end Analysis

/-- A module whose annotations are evaluated. -/
structure TypeEnv where
  analysis : Analysis
  id : ModuleId
  module : String
  merged : MergedModule

/-- The innermost class around an annotation. -/
structure ClassScope where
  /-- The dotted path of the class. -/
  qualname : String
  members : List MergedMember

/-- The target of a dotted name.  Its first part is looked up in the class around it, then in the
    module, then among the builtin names. -/
def TypeEnv.target (env : TypeEnv) (scope : Option ClassScope) (name : String) : Eval Target :=
  match segments name with
  | [] => throw .unparseable
  | head :: rest =>
    let inClass := scope.filter fun c => (MergedMember.find? c.members head).isSome
    match inClass with
    | some c => pure ⟨env.module, c.qualname ++ "." ++ name, .package⟩
    | none =>
      if (env.merged.member? head).isSome then pure ⟨env.module, name, .package⟩
      else match Assoc.get? env.analysis.links (env.id, head) with
        | some origin =>
          ExceptT.mk (Analysis.targetFrom env.analysis.pathTarget origin head rest)
        | none =>
          match Assoc.get? env.merged.moduleAliases head with
          | some path => ExceptT.mk (env.analysis.pathTarget (segments path ++ rest))
          | none =>
            if rest.isEmpty && isBuiltin head then pure (Target.ofBuiltin head)
            else throw (.undefinedName name)

end PackageDoc
