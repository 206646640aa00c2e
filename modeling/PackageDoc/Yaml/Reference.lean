import PackageDoc.Yaml.Event

namespace PackageDoc.Yaml

/-!
# References

An anchor gives a node a name, under which later references repeat it.  `Document.resolve` replaces
the names in references by places in the list of events.
-/

/-- The anchors of the nodes that have been read. -/
structure Anchors where
  /-- The number of the last anchor with a name. -/
  names : List (String × Nat) := []
  /-- The places of the nodes with a number, last first. -/
  places : List (Nat × Nat) := []
  deriving Repr, Inhabited

namespace Anchors

/-- Name the node at a place.  Its number is that of the different names so far; of the nodes with
    one number the last counts. -/
def add (a : Anchors) (name : String) (place : Nat) : Anchors :=
  let number := a.names.length
  { names := (name, number) :: a.names.filter fun e => e.1 != name
    places := (number, place) :: a.places }

/-- The number of the last anchor with a name. -/
def number? (a : Anchors) (name : String) : Option Nat :=
  (a.names.find? fun e => e.1 == name).map Prod.snd

/-- The place of the node with a number. -/
def place? (a : Anchors) (number : Nat) : Option Nat :=
  (a.places.find? fun e => e.1 == number).map Prod.snd

end Anchors

/-- The anchor of the node that an event begins. -/
def Event.anchor? {α : Type} : Event α → Option String
  | .scalar p _ _ => p.anchor
  | .sequenceStart p => p.anchor
  | .mappingStart p => p.anchor
  | _ => none

/-- Change what references hold. -/
def Event.mapTarget {α β : Type} (f : α → β) : Event α → Event β
  | .reference target => .reference (f target)
  | .scalar p text isPlain => .scalar p text isPlain
  | .sequenceStart p => .sequenceStart p
  | .sequenceEnd => .sequenceEnd
  | .mappingStart p => .mappingStart p
  | .mappingEnd => .mappingEnd

/-- Replace names by numbers, from the event at `place` on.  The first reference to a name that has
    not been given is a fault. -/
def numberTargets :
    (a : Anchors) → (place : Nat) → List (EventAt String) →
      List (EventAt Nat) × Anchors × Option Nat
  | a, _, [] => ([], a, none)
  | a, place, e :: es =>
    match e.event with
    | .reference name =>
      match a.number? name with
      | none => ([], a, some e.line)
      | some number =>
        let (events, a, fault) := numberTargets a (place + 1) es
        (⟨.reference number, e.line⟩ :: events, a, fault)
    | event =>
      let a := match event.anchor? with
        | some name => a.add name place
        | none => a
      let (events, a, fault) := numberTargets a (place + 1) es
      (⟨event.mapTarget fun _ => 0, e.line⟩ :: events, a, fault)

/-- The document with the places that its references repeat. -/
def Document.resolve (d : Document String) : Document Nat :=
  let (events, a, fault) := numberTargets {} 0 d.events
  let places := events.map fun e =>
    { e with event := e.event.mapTarget fun number => (a.place? number).getD 0 }
  ⟨places, fault.or d.fault, d.hasMore⟩

end PackageDoc.Yaml
