namespace PackageDoc

/-!
# JSON as it is read

A tree that keeps all that a JSON text says, repeated fields included.  What is to be made of it is
decided where it is used.
-/

/-- A JSON document.  The value of a string is missing when its escapes denote half of a character,
    which is wrong only where the string is used; that of a number when it is not written as an
    integer. -/
inductive RawJson where
  | null
  | bool (value : Bool)
  | num (value : Option Int)
  | str (value : Option String)
  | arr (items : List RawJson)
  | obj (fields : List (Option String × RawJson))
  deriving Repr, Inhabited

namespace RawJson

/-- The text of a string. -/
def text? : RawJson → Option String
  | str value => value
  | _ => none

/-- The text of a string, or no text for `null`. -/
def optText? : RawJson → Option (Option String)
  | null => some none
  | str (some value) => some (some value)
  | _ => none

/-- A truth value. -/
def bool? : RawJson → Option Bool
  | bool value => some value
  | _ => none

/-- A natural number below `size`. -/
def natBelow? (size : Nat) : RawJson → Option Nat
  | num (some (.ofNat n)) => if n < size then some n else none
  | _ => none

/-- The items of an array. -/
def items? : RawJson → Option (List RawJson)
  | arr items => some items
  | _ => none

/-- The value of a field that stands in an object at most once. -/
def field? (fields : List (Option String × RawJson)) (name : String) :
    Option (Option RawJson) :=
  match fields.filter fun f => f.1 == some name with
  | [] => some none
  | [f] => some (some f.2)
  | _ => none

/-- The values of the named fields of a record.  A record is an object, whose other fields do not
    count, or an array of the values in order, in which the last ones may be missing. -/
def record? (names : List String) : RawJson → Option (List (Option RawJson))
  | obj fields =>
    if fields.all fun f => f.1.isSome then names.mapM (field? fields) else none
  | arr items =>
    if items.length ≤ names.length then
      some (items.map some ++ List.replicate (names.length - items.length) none)
    else none
  | _ => none

/-- The one field of an object that has no other. -/
def single? : RawJson → Option (String × RawJson)
  | obj [(some name, value)] => some (name, value)
  | _ => none

/-- The name of an alternative without contents: a string, or an object whose only field has that
    name and holds `null`. -/
def alternative? : RawJson → Option String
  | str value => value
  | obj [(name, null)] => name
  | _ => none

/-- As `alternative?`, where an object without fields may stand for `null`. -/
def nestedAlternative? : RawJson → Option String
  | obj [(name, obj [])] => name
  | j => j.alternative?

/-- The name that a tag gives: its text, or the name at the place that a number says. -/
def tagName? (places : List String) : RawJson → Option String
  | str value => value
  | num (some (.ofNat place)) => places[place]?
  | _ => none

/-- An alternative that names itself in the field `tag`, or in the first place of an array, and the
    record of its contents.  A number names the alternative at that place of `places`. -/
def tagged? (tag : String) (places : List String) : RawJson → Option (String × RawJson)
  | obj fields => do
    let name ← (← field? fields tag).bind (tagName? places)
    return (name, obj (fields.filter fun f => f.1 != some tag))
  | arr (first :: items) => (first.tagName? places).map fun name => (name, arr items)
  | _ => none

end RawJson
end PackageDoc
