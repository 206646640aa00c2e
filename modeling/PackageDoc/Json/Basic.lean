namespace PackageDoc

/-!
# JSON values
-/

/-- A decimal number `± digits · 10 ^ exponent`. -/
structure Decimal where
  negative : Bool
  digits : Nat
  exponent : Int
  deriving Repr, DecidableEq, Inhabited

/-- A JSON value.  Floating point numbers are given by the shortest decimal that denotes them. -/
inductive Json where
  | null
  | bool (value : Bool)
  | int (value : Int)
  | float (value : Decimal)
  | str (value : String)
  | arr (items : List Json)
  /-- Fields in order. -/
  | obj (fields : List (String × Json))
  deriving Repr, Inhabited

namespace Json

/-- The value of the last field with a name. -/
def field? (fields : List (String × Json)) (name : String) : Option Json :=
  (fields.reverse.find? fun f => f.1 == name).map Prod.snd

/-- `null` for an absent value. -/
def ofOption {α : Type} (f : α → Json) : Option α → Json
  | none => null
  | some a => f a

/-- An optional text. -/
def ofText? : Option String → Json :=
  ofOption str

/-- An array of values. -/
def ofList {α : Type} (f : α → Json) (items : List α) : Json :=
  arr (items.map f)

/-- A natural number. -/
def nat (n : Nat) : Json :=
  int n

end Json
end PackageDoc
