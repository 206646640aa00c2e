import PackageDoc.Json.Basic
import PackageDoc.Json.Read
import PackageDoc.Snapshot

namespace PackageDoc

/-!
# Snapshots as JSON

* `Snapshot.ofJson?` and `Snapshot.toJson` — a snapshot as interpreters report it;
* `readReply?` — the whole reply of an interpreter: a snapshot, or the exception of the import.
-/

/-- The name of a kind. -/
def SnapshotKind.tag : SnapshotKind → String
  | module => "module"
  | classObject => "class"
  | function => "function"
  | .variable => "variable"

/-- The kind of a name. -/
def SnapshotKind.ofTag? (name : String) : Option SnapshotKind :=
  [module, classObject, function, .variable].find? fun k => k.tag == name

/-- A value that may be missing. -/
def optional? {α : Type} (default : α) (read : RawJson → Option α) : Option RawJson → Option α
  | none => some default
  | some j => read j

/-- A rule of a snapshot. -/
def AutodocValue.ofJson? : RawJson → Option AutodocValue
  | .bool b => some (.flag b)
  | .str (some text) => some (.docstring text)
  | _ => none

/-- A name with its rule. -/
def autodocPair? : RawJson → Option (String × AutodocValue)
  | .arr [key, value] => do return (← key.text?, ← AutodocValue.ofJson? value)
  | _ => none

/-- The rules of a snapshot. -/
def autodocList? : RawJson → Option (Option (List (String × AutodocValue)))
  | .null => some none
  | .arr items => (items.mapM autodocPair?).map some
  | _ => none

/-- How deep attributes may be nested.  Texts are read to a depth of 127, of which the reply and the
    snapshot take one each and every level of attributes two. -/
def memberLevels : Nat := 62

/-- An attribute with at most `levels` levels of attributes, itself included. -/
def SnapshotMember.ofJson? : (levels : Nat) → RawJson → Option SnapshotMember
  | 0, _ => none
  | levels + 1, j => do
    let fields ← j.record?
      ["name", "kind", "docstring", "signature", "annotation", "defined_in", "members"]
    match fields with
    | [some name, some kind, docstring, signature, type, definedIn, members] =>
      let attributes ← optional? [] RawJson.items? members
      return {
        name := ← name.text?
        kind := ← kind.alternative?.bind SnapshotKind.ofTag?
        docstring := ← optional? none RawJson.optText? docstring
        signature := ← optional? none RawJson.optText? signature
        type := ← optional? none RawJson.optText? type
        definedIn := ← optional? none RawJson.optText? definedIn
        members := ← attributes.mapM (SnapshotMember.ofJson? levels) }
    | _ => none

/-- A snapshot. -/
def Snapshot.ofJson? (j : RawJson) : Option Snapshot := do
  let fields ← j.record? ["name", "docstring", "is_native", "members", "autodoc"]
  match fields with
  | [some name, docstring, isNative, members, autodoc] =>
    let attributes ← optional? [] RawJson.items? members
    return {
      name := ← name.text?
      docstring := ← optional? none RawJson.optText? docstring
      isNative := ← optional? false RawJson.bool? isNative
      members := ← attributes.mapM (SnapshotMember.ofJson? memberLevels)
      autodoc := ← optional? none autodocList? autodoc }
  | _ => none

/-- What the reply of an interpreter says; none when it is no reply. -/
def readReply? (reply : String) : Option (Except LoadError Snapshot) := do
  let (name, contents) ← (← RawJson.parse? reply).single?
  if name = "ok" then return .ok (← Snapshot.ofJson? contents)
  else if name = "error" then
    match ← contents.record? ["exception", "message"] with
    | [some exception, some message] => return .error (.raised (← exception.text?) (← message.text?))
    | _ => none
  else none

/-! ### Writing -/

/-- A rule. -/
def AutodocValue.toJson : AutodocValue → Json
  | .flag b => .bool b
  | .docstring text => .str text

/-- Rules in order. -/
def autodocJson (rules : List (String × AutodocValue)) : Json :=
  .ofList (fun r => .arr [.str r.1, r.2.toJson]) rules

mutual

/-- An attribute. -/
def SnapshotMember.toJson : SnapshotMember → Json
  | ⟨name, kind, docstring, signature, type, definedIn, members⟩ =>
    .obj [("name", .str name), ("kind", .str kind.tag), ("docstring", .ofText? docstring),
      ("signature", .ofText? signature), ("annotation", .ofText? type),
      ("defined_in", .ofText? definedIn), ("members", .arr (SnapshotMember.listJson members))]

/-- Several attributes. -/
def SnapshotMember.listJson : List SnapshotMember → List Json
  | [] => []
  | m :: ms => m.toJson :: SnapshotMember.listJson ms

end

/-- A snapshot. -/
def Snapshot.toJson (s : Snapshot) : Json :=
  .obj [("name", .str s.name), ("docstring", .ofText? s.docstring),
    ("is_native", .bool s.isNative), ("members", .arr (SnapshotMember.listJson s.members)),
    ("autodoc", .ofOption autodocJson s.autodoc)]

end PackageDoc
