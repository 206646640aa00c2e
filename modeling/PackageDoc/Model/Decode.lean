import PackageDoc.Json.Raw
import PackageDoc.Model.Encode

namespace PackageDoc

/-!
# Types from JSON

`TypeRef.ofJson?` reads what `TypeRef.toJson` writes.  Whatever stands inside a type may name its
alternative by a number, its place among the alternatives.
-/

/-- The scope of a name. -/
def TargetScope.ofTag? (name : String) : Option TargetScope :=
  [package, module, library, builtin].find? fun s => s.tag == name

/-- A target. -/
def Target.ofJson? (j : RawJson) : Option Target := do
  match ← j.record? ["module", "qualname", "scope"] with
  | [some module, some qualname, some scope] =>
    return ⟨← module.text?, ← qualname.text?, ← scope.nestedAlternative?.bind TargetScope.ofTag?⟩
  | _ => none

/-- The names of the reasons in order. -/
def RawReason.tags : List String :=
  ["alternate_syntax", "unparseable", "undefined_name", "unresolved_forward_ref", "cyclic_import",
    "unresolved_import", "unsupported_expression", "too_deep"]

/-- The reason why a text was kept. -/
def RawReason.ofJson? (j : RawJson) : Option RawReason := do
  let (name, contents) ← j.tagged? "reason" tags
  let plain (reason : RawReason) : Option RawReason :=
    (contents.record? []).map fun _ => reason
  let named (field : String) (reason : String → RawReason) : Option RawReason := do
    match ← contents.record? [field] with
    | [some text] => return reason (← text.text?)
    | _ => none
  match name with
  | "alternate_syntax" => plain .alternateSyntax
  | "unparseable" => plain .unparseable
  | "undefined_name" => named "name" .undefinedName
  | "unresolved_forward_ref" => named "text" .unresolvedForwardRef
  | "cyclic_import" => named "name" .cyclicImport
  | "unresolved_import" => named "name" .unresolvedImport
  | "unsupported_expression" => plain .unsupportedExpression
  | "too_deep" => plain .tooDeep
  | _ => none

/-- A linked name. -/
def TextLink.ofJson? (j : RawJson) : Option TextLink := do
  match ← j.record? ["start", "end", "target"] with
  | [some start, some stop, some target] =>
    return ⟨← start.natBelow? UInt32.size, ← stop.natBelow? UInt32.size, ← Target.ofJson? target⟩
  | _ => none

/-- The names of the kinds of types in order. -/
def TypeRef.tags : List String :=
  ["resolved", "generic", "union", "literal", "params", "ellipsis", "opaque"]

/-- A type with at most `levels` levels of types inside it.  A number names the kind at that place
    of `places`. -/
def TypeRef.read? : (levels : Nat) → (places : List String) → RawJson → Option TypeRef
  | 0, _, _ => none
  | levels + 1, places, j => do
    let (name, contents) ← j.tagged? "type" places
    let list (items : RawJson) : Option (List TypeRef) := do
      (← items.items?).mapM (TypeRef.read? levels tags)
    match name with
    | "resolved" =>
      match ← contents.record? ["target"] with
      | [some target] => return .resolved (← Target.ofJson? target)
      | _ => none
    | "generic" =>
      match ← contents.record? ["base", "args"] with
      | [some base, some args] => return .generic (← TypeRef.read? levels tags base) (← list args)
      | _ => none
    | "union" =>
      match ← contents.record? ["members"] with
      | [some members] => return .union (← list members)
      | _ => none
    | "literal" =>
      match ← contents.record? ["values"] with
      | [some values] => return .literal (← (← values.items?).mapM RawJson.text?)
      | _ => none
    | "params" =>
      match ← contents.record? ["items"] with
      | [some items] => return .params (← list items)
      | _ => none
    | "ellipsis" => (contents.record? []).map fun _ => .ellipsis
    | "opaque" =>
      match ← contents.record? ["raw", "reason", "links"] with
      | [some text, some reason, some links] =>
        return .raw (← text.text?) (← RawReason.ofJson? reason)
          (← (← links.items?).mapM TextLink.ofJson?)
      | _ => none
    | _ => none

/-- How deep types may be nested in a text. -/
def typeLevels : Nat := 128

/-- The type that a value describes; its own kind is named in full. -/
def TypeRef.ofJson? (j : RawJson) : Option TypeRef :=
  TypeRef.read? typeLevels [] j

end PackageDoc
