import PackageDoc.Json.Binary64
import PackageDoc.Text.Space
import PackageDoc.Text.Utf8

namespace PackageDoc.Yaml

/-!
# What plain scalars mean

A scalar without quotes and without a tag is null, a truth value or a number if it looks like one,
and otherwise a text.
-/

/-- The spellings of null. -/
def isNull (text : String) : Bool :=
  text == "null" || text == "Null" || text == "NULL" || text == "~"

/-- The spellings of truth values. -/
def bool? (text : String) : Option Bool :=
  if text == "true" || text == "True" || text == "TRUE" then some true
  else if text == "false" || text == "False" || text == "FALSE" then some false
  else none

/-! ### Integers -/

/-- The value of a digit in some base. -/
def digit? (base : Nat) (c : Char) : Option Nat :=
  let n :=
    if c.isDigit then some (c.toNat - '0'.toNat)
    else if 'a' ≤ c && c ≤ 'z' then some (c.toNat - 'a'.toNat + 10)
    else if 'A' ≤ c && c ≤ 'Z' then some (c.toNat - 'A'.toNat + 10)
    else none
  n.filter fun d => d < base

/-- The number that digits denote in some base. -/
def digits? (base : Nat) (cs : List Char) : Option Nat :=
  if cs.isEmpty then none
  else cs.foldl (fun n? c => n?.bind fun n => (digit? base c).map fun d => base * n + d) (some 0)

/-- A number with a mark for its base, or a decimal one. -/
def magnitude? : List Char → Option Nat
  | '0' :: 'x' :: cs => digits? 16 cs
  | '0' :: 'o' :: cs => digits? 8 cs
  | '0' :: 'b' :: cs => digits? 2 cs
  | cs => digits? 10 cs

/-- A text without one sign before it. -/
def unsigned : List Char → List Char
  | '+' :: cs => cs
  | '-' :: cs => cs
  | cs => cs

/-- Digits that begin with a needless zero are not a number. -/
def isPadded (cs : List Char) : Bool :=
  match unsigned cs with
  | '0' :: c :: cs => (c :: cs).all Char.isDigit
  | _ => false

/-- An integer. -/
def int? (cs : List Char) : Option Int :=
  if isPadded cs then none
  else match cs with
    | '-' :: cs => (magnitude? cs).map fun n => -(n : Int)
    | cs => (magnitude? (unsigned cs)).map fun n => (n : Int)

/-- The integers that are written with 64 bits, with or without a sign. -/
def fitsWord (n : Int) : Bool :=
  -(Nat.pow 2 63 : Nat) ≤ n && n < (Nat.pow 2 64 : Nat)

/-- The integers that are written with 128 bits, with or without a sign. -/
def fitsDoubleWord (n : Int) : Bool :=
  -(Nat.pow 2 127 : Nat) ≤ n && n < (Nat.pow 2 128 : Nat)

/-! ### Floating point numbers -/

/-- The number of an exponent, which is limited so that powers stay small. -/
def exponent? (cs : List Char) : Option Int :=
  (digits? 10 (unsigned cs)).map fun n =>
    let n : Int := min n 65536
    if cs.head? == some '-' then -n else n

/-- A decimal: digits with a point before, between or behind them, and perhaps an exponent. -/
def decimal? (negative : Bool) (cs : List Char) : Option Decimal :=
  let (mantissa, rest) := cs.span fun c => c != 'e' && c != 'E'
  let (whole, fraction) := mantissa.span (· != '.')
  let fraction := fraction.drop 1
  let exponent := match rest with
    | [] => some 0
    | _ :: rest => exponent? rest
  (digits? 10 (whole ++ fraction)).bind fun digits =>
    exponent.map fun e => ⟨negative, digits, e - fraction.length⟩

/-- The floating point number that a text without a plus sign denotes; there is none for one that is
    too large. -/
def finite? : List Char → Option Decimal
  | '-' :: cs => (decimal? true cs).bind Decimal.rounded?
  | '+' :: _ => none
  | cs => (decimal? false cs).bind Decimal.rounded?

/-- The spellings of numbers that are not finite, which have no JSON value. -/
def isNotFinite (text : String) : Bool :=
  [".inf", ".Inf", ".INF", "+.inf", "+.Inf", "+.INF", "-.inf", "-.Inf", "-.INF", ".nan", ".NaN",
    ".NAN"].contains text

/-- A floating point number as a JSON value. -/
def float? (cs : List Char) : Option Json :=
  if isNotFinite (String.ofList cs) then some .null
  else
    let number := match cs with
      | '+' :: '-' :: _ => none
      | '+' :: cs => finite? cs
      | cs => finite? cs
    number.map .float

/-! ### Scalars -/

/-- The meaning of an integer; one that needs more than 64 bits, and not more than 128, has none. -/
def intValue? (cs : List Char) : Option (Option Json) :=
  match int? cs with
  | none => none
  | some n =>
    if fitsWord n then some (some (.int n)) else if fitsDoubleWord n then some none else none

/-- The meaning of a plain scalar; an integer of middle size has none. -/
def plainValue? (cs : List Char) : Option Json :=
  let text := String.ofList cs
  if text.isEmpty || isNull text then some .null
  else match bool? text with
    | some b => some (.bool b)
    | none => match intValue? cs with
      | some value => value
      | none =>
        if isPadded cs then some (.str text)
        else match float? cs with
          | some value => some value
          | none => some (.str text)

/-- The tag of a standard type. -/
def standardTag (name : String) : List UInt8 :=
  Text.asciiBytes ("tag:yaml.org,2002:" ++ name).toList

/-- Does a tag begin with an exclamation mark? -/
def isLocalTag (tag : List UInt8) : Bool :=
  tag.head? == some 0x21

/-- A tag with an exclamation mark and a name behind it, which may be empty, is no type at all. -/
def isUnknownType (tag : List UInt8) : Bool :=
  isLocalTag tag && Text.isUtf8 (tag.drop 1)

/-- The meaning of a scalar without a tag. -/
def untaggedValue? (cs : List Char) (isPlain : Bool) : Option Json :=
  if isPlain then plainValue? cs else some (.str (String.ofList cs))

/-- The meaning of a scalar with a tag, if it agrees with the tag. -/
def taggedValue? (tag : List UInt8) (cs : List Char) (isPlain : Bool) : Option Json :=
  let text := String.ofList cs
  if isUnknownType tag then none
  else if tag == standardTag "bool" then (bool? text).map .bool
  else if tag == standardTag "int" then (intValue? cs).join
  else if tag == standardTag "float" then float? cs
  else if tag == standardTag "null" then if isNull text then some .null else none
  else untaggedValue? cs (isPlain && isLocalTag tag)

/-- The meaning of a scalar. -/
def scalarValue? (tag : Option (List UInt8)) (cs : List Char) (isPlain : Bool) : Option Json :=
  match tag with
  | some tag => taggedValue? tag cs isPlain
  | none => untaggedValue? cs isPlain

end PackageDoc.Yaml
