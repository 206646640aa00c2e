import PackageDoc.Config

namespace PackageDoc

/-!
# The command line

`Options.ofArgs` reads the arguments of a run: the package to document, where it is looked for, what
is left out of it and where the result goes.
-/

/-- What a run is asked for. -/
structure Options where
  root : String
  outputDir : String
  /-- The directories in which the package is looked for. -/
  searchPath : List String
  config : Config
  deriving Repr, DecidableEq, Inhabited

/-- Why arguments mean nothing. -/
inductive UsageError where
  | missingRoot
  | missingValue (option : String)
  | unknownOption (option : String)
  | unexpectedArgument (argument : String)
  | unknownLinkMode (name : String)
  deriving Repr, DecidableEq, Inhabited

/-- The wording of an error. -/
def UsageError.message : UsageError → String
  | missingRoot => "the name of a package is required"
  | missingValue option => "a value is required for " ++ option
  | unknownOption option => "unknown option " ++ option
  | unexpectedArgument argument => "unexpected argument " ++ argument
  | unknownLinkMode name => LinkMode.unknownMessage name

/-- The arguments that have been read. -/
structure Arguments where
  root : Option String := none
  outputDir : String := "build"
  searchPath : List String := []
  skip : List String := []
  undoc : List String := []
  linkMode : LinkMode := .headingId
  deriving Repr, Inhabited

namespace Arguments

/-- The options that take a value; each has a long name and some a short one. -/
def option? (name : String) : Option (Arguments → String → Except UsageError Arguments) :=
  if name = "-o" ∨ name = "--output-dir" then some fun a v => .ok { a with outputDir := v }
  else if name = "-s" ∨ name = "--skip" then some fun a v => .ok { a with skip := a.skip ++ [v] }
  else if name = "-u" ∨ name = "--undoc" then
    some fun a v => .ok { a with undoc := a.undoc ++ [v] }
  else if name = "--search-path" then
    some fun a v => .ok { a with searchPath := a.searchPath ++ [v] }
  else if name = "--markdown-linkmode" then
    some fun a v => match LinkMode.ofText? v with
      | some mode => .ok { a with linkMode := mode }
      | none => .error (.unknownLinkMode v)
  else none

/-- Read arguments. -/
def read (a : Arguments) : List String → Except UsageError Arguments
  | [] => .ok a
  | [arg] =>
    if (option? arg).isSome then .error (.missingValue arg) else positional a arg
  | arg :: value :: rest =>
    match option? arg with
    | some set => (set a value).bind fun a => read a rest
    | none => (positional a arg).bind fun a => read a (value :: rest)
where
  /-- An argument that is no option names the package. -/
  positional (a : Arguments) (arg : String) : Except UsageError Arguments :=
    if arg.toList.head? == some '-' then .error (.unknownOption arg)
    else if a.root.isSome then .error (.unexpectedArgument arg)
    else .ok { a with root := some arg }

end Arguments

/-- The options that arguments stand for.  Without a search path the package is looked for where the
    program runs. -/
def Options.ofArgs (args : List String) : Except UsageError Options :=
  (Arguments.read {} args).bind fun a =>
    match a.root with
    | none => .error .missingRoot
    | some root =>
      .ok {
        root := root
        outputDir := a.outputDir
        searchPath := if a.searchPath.isEmpty then ["."] else a.searchPath
        config := {
          skip := PatternSet.ofList a.skip
          undoc := PatternSet.ofList a.undoc
          linkMode := a.linkMode } }

end PackageDoc
