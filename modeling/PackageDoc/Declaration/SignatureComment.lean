import PackageDoc.Declaration.Basic

namespace PackageDoc

/-!
# Signature comments

A comment `(A, B) -> R` types the parameters and the result of a function that are not annotated.
-/

/-- Does the character open a bracket? -/
def opensBracket (c : Char) : Bool :=
  c == '(' || c == '[' || c == '{'

/-- Does the character close a bracket? -/
def closesBracket (c : Char) : Bool :=
  c == ')' || c == ']' || c == '}'

/-- Cut at the closing parenthesis of a group from whose inside the text begins; `depth` further
    brackets are open. -/
def splitGroup? (depth : Nat) : List Char → Option (List Char × List Char)
  | [] => none
  | c :: cs =>
    if c = ')' && depth = 0 then some ([], cs)
    else
      let depth := if opensBracket c then depth + 1 else if closesBracket c then depth - 1 else depth
      (splitGroup? depth cs).map fun r => (c :: r.1, r.2)

/-- Cut at commas outside brackets. -/
def splitCommas (depth : Nat) : List Char → List (List Char)
  | [] => [[]]
  | c :: cs =>
    if c = ',' && depth = 0 then [] :: splitCommas 0 cs
    else
      let depth := if opensBracket c then depth + 1 else if closesBracket c then depth - 1 else depth
      match splitCommas depth cs with
      | [] => [[c]]
      | piece :: pieces => (c :: piece) :: pieces

/-- The types of a parameter list; empty ones do not count. -/
def typeList (cs : List Char) : List (List Char) :=
  ((splitCommas 0 cs).map Text.trim).filter fun t => !t.isEmpty

/-- Give types to the parameters that have none, in order. -/
def typeParams : List ParamDecl → List (List Char) → List ParamDecl
  | p :: ps, t :: ts =>
    let type := Text.trim (t.dropWhile fun c => c == '*')
    { p with hint := p.hint <|> some { raw := String.ofList type } } ::
      typeParams ps ts
  | ps, _ => ps

/-- Apply a signature comment.  In a class it may leave out the first parameter. -/
def FunctionDecl.withSignatureComment (f : FunctionDecl) (comment : String) (inClass : Bool) :
    FunctionDecl :=
  match Text.stripStart? ['('] (Text.trim comment.toList) with
  | none => f
  | some inner =>
    match splitGroup? 0 inner with
    | none => f
    | some (args, rest) =>
      match Text.stripStart? ['-', '>'] (Text.trim rest) with
      | none => f
      | some returns =>
        let returns := Text.trim returns
        let result := if returns.isEmpty then none else some { raw := String.ofList returns }
        let f := { f with returns := f.returns <|> result }
        let types := typeList args
        if types = ["...".toList] then f
        else
          let skip := if inClass && types.length + 1 = f.params.length then 1 else 0
          { f with params := f.params.take skip ++ typeParams (f.params.drop skip) types }

end PackageDoc
