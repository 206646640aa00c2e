import PackageDoc.Declaration.Assoc
import PackageDoc.Docstring.Grammar
import PackageDoc.Yaml.Plain
import PackageDoc.Yaml.Reference

namespace PackageDoc.Yaml

/-!
# Documents as JSON values

`value?` reads the first document of a text.  Keys are texts, whatever they look like; of two
entries with one key the later one counts, and entries are given in the order of their keys.
Collections are nested at most 128 deep, and references are followed at most a hundred times for
each event of the document.
-/

/-- Where the events of a document are being read. -/
structure Reading where
  rest : List (EventAt Nat)
  /-- The number of references that have been followed. -/
  followed : Nat := 0
  deriving Repr, Inhabited

/-- A reader of events.  It fails with the line of a fault. -/
abbrev Reader (α : Type) :=
  StateT Reading (Except Nat) α

namespace Document

/-- A fault on a line. -/
def fail {α : Type} (line : Nat) : Reader α :=
  fun _ => .error line

/-- The next event; behind the last one stands the fault of the document. -/
def next (d : Document Nat) : Reader (EventAt Nat) := fun s =>
  match s.rest with
  | [] => .error (d.fault.getD 0)
  | e :: es => .ok (e, { s with rest := es })

/-- Read an event, or the one that it refers to. -/
def follow {α : Type} (d : Document Nat) (read : EventAt Nat → Reader α) : Reader α := do
  let e ← d.next
  match e.event with
  | .reference place =>
    let s ← get
    let followed := s.followed + 1
    if 100 * d.events.length < followed then fail 0
    else
      set (⟨d.events.drop place, followed⟩ : Reading)
      let a ← d.next >>= read
      modify fun t => { t with rest := s.rest }
      pure a
  | _ => read e

/-- The text of a key. -/
def key (e : EventAt Nat) : Reader String :=
  match e.event with
  | .scalar _ text _ => pure (String.ofList text)
  | _ => fail e.line

/-- Is the collection at its end?  Then go on behind it. -/
def atEnd (d : Document Nat) (stop : Event Nat) : Reader Bool := do
  let s ← get
  let e ← d.next
  if e.event == stop then pure true
  else
    set s
    pure false

/-- The items of a sequence up to its end. -/
def items (d : Document Nat) (value : Reader Json) : (bound : Nat) → Reader (List Json)
  | 0 => fail 0
  | bound + 1 => do
    if ← d.atEnd .sequenceEnd then pure []
    else
      let item ← value
      let rest ← items d value bound
      pure (item :: rest)

/-- The entries of a mapping up to its end. -/
def entries (d : Document Nat) (value : Reader Json) : (bound : Nat) → Reader (List (String × Json))
  | 0 => fail 0
  | bound + 1 => do
    if ← d.atEnd .mappingEnd then pure []
    else
      let name ← d.follow key
      let item ← value
      let rest ← entries d value bound
      pure ((name, item) :: rest)

/-- A mapping with some entries. -/
def mapping (entries : List (String × Json)) : Json :=
  .obj (Assoc.sorted (entries.foldl (fun es e => Assoc.bind es e.1 e.2) []))

/-- Collections of an unknown type are not read. -/
def hasUnknownType (p : Properties) : Bool :=
  p.tag.any isUnknownType

/-- The node that an event begins; `inner` reads the nodes inside it, if they may be nested any
    deeper. -/
def node (d : Document Nat) (inner : Option (Reader Json)) (e : EventAt Nat) : Reader Json :=
  let bound := d.events.length + 1
  match e.event, inner with
  | .scalar p text isPlain, _ =>
    match scalarValue? p.tag text isPlain with
    | some value => pure value
    | none => fail e.line
  | .sequenceStart p, some value =>
    if hasUnknownType p then fail e.line else .arr <$> d.items value bound
  | .mappingStart p, some value =>
    if hasUnknownType p then fail e.line else mapping <$> d.entries value bound
  | _, _ => fail e.line

/-- A node in which collections are nested at most `depth` deep. -/
def value (d : Document Nat) : (depth : Nat) → Reader Json
  | 0 => d.follow (d.node none)
  | depth + 1 => d.follow (d.node (some (value d depth)))

/-- The value of a document that is the only one and has no fault. -/
def toJson? (d : Document Nat) : Except Nat Json :=
  match d.events, d.fault with
  | [], none => .ok .null
  | events, fault => do
    let (json, _) ← (d.value 128).run ⟨events, 0⟩
    match fault with
    | some line => .error line
    | none => if d.hasMore then .error 0 else .ok json

end Document

/-- The value of a text, or the line of its fault. -/
def value? (text : List Char) : Except Nat Json :=
  let isCut := !text.all isAllowed
  let readable := if isCut then readablePart text.length text else text
  (Document.ofText (normalizeBreaks readable) isCut).resolve.toJson?

/-- The reader of front matter that the program runs with. -/
instance : YamlReader :=
  ⟨value?⟩

end PackageDoc.Yaml
