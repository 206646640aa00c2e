import PackageDoc.Json.Basic

namespace PackageDoc

/-!
# JSON texts

* `Json.pretty` writes a value with one element to a line, each level indented by two blanks;
* `Json.compact` writes it on one line, without blanks.
-/

namespace Decimal

/-- The exponents of ten for which a number is written without an exponent: from `0.00001` up to,
    and not including, `10 ^ 16`. -/
def isPositional (point : Int) : Bool :=
  -5 < point && point ≤ 16

/-- A number without its sign.  `digits` are its digits and `point` is the number of them before the
    decimal point. -/
def magnitude (digits : List Char) (point : Int) : List Char :=
  let length : Int := digits.length
  let zeros (n : Int) : List Char := List.replicate n.toNat '0'
  if isPositional point then
    if length ≤ point then digits ++ zeros (point - length) ++ ['.', '0']
    else if 0 < point then digits.take point.toNat ++ '.' :: digits.drop point.toNat
    else '0' :: '.' :: zeros (-point) ++ digits
  else
    let exponent := 'e' :: (toString (point - 1)).toList
    match digits with
    | [] => exponent
    | [digit] => digit :: exponent
    | digit :: rest => digit :: '.' :: rest ++ exponent

/-- The text of a floating point number. -/
def text (d : Decimal) : List Char :=
  let digits := Nat.toDigits 10 d.digits
  (if d.negative then ['-'] else []) ++
    (if d.digits = 0 then ['0', '.', '0'] else magnitude digits (digits.length + d.exponent))

end Decimal

namespace Json

/-- A character inside a quoted text. -/
def escaped (c : Char) : List Char :=
  if c = '"' || c = '\\' then ['\\', c]
  else if c = '\n' then ['\\', 'n']
  else if c = '\r' then ['\\', 'r']
  else if c = '\t' then ['\\', 't']
  else if c.toNat = 0x08 then ['\\', 'b']
  else if c.toNat = 0x0c then ['\\', 'f']
  else if c.toNat < 0x20 then
    ['\\', 'u', '0', '0', Nat.digitChar (c.toNat / 16), Nat.digitChar (c.toNat % 16)]
  else [c]

/-- A quoted text. -/
def quoted (s : String) : List Char :=
  '"' :: s.toList.flatMap escaped ++ ['"']

/-- A value that is not a collection. -/
def atomText : Json → List Char
  | .bool true => ['t', 'r', 'u', 'e']
  | .bool false => ['f', 'a', 'l', 's', 'e']
  | .int n => (toString n).toList
  | .float d => d.text
  | .str s => quoted s
  | _ => ['n', 'u', 'l', 'l']

/-- The beginning of a line at a level. -/
def newLine (level : Nat) : List Char :=
  '\n' :: List.replicate (2 * level) ' '

/-! ### On several lines

Values are written before a text `rest`, so that no part of the result is copied.
-/

mutual

/-- A value whose lines, after the first, begin at a level. -/
def prettyAt (level : Nat) (value : Json) (rest : List Char) : List Char :=
  match value with
  | .arr [] => '[' :: ']' :: rest
  | .arr (item :: items) =>
    '[' :: newLine (level + 1) ++ prettyAt (level + 1) item
      (prettyItems (level + 1) items (newLine level ++ ']' :: rest))
  | .obj [] => '{' :: '}' :: rest
  | .obj ((name, value) :: fields) =>
    '{' :: newLine (level + 1) ++ (quoted name ++ ':' :: ' ' :: prettyAt (level + 1) value
      (prettyFields (level + 1) fields (newLine level ++ '}' :: rest)))
  | value => atomText value ++ rest

/-- The items of an array after the first. -/
def prettyItems (level : Nat) (items : List Json) (rest : List Char) : List Char :=
  match items with
  | [] => rest
  | item :: items =>
    ',' :: newLine level ++ prettyAt level item (prettyItems level items rest)

/-- The fields of an object after the first. -/
def prettyFields (level : Nat) (fields : List (String × Json)) (rest : List Char) : List Char :=
  match fields with
  | [] => rest
  | (name, value) :: fields =>
    ',' :: newLine level ++ (quoted name ++ ':' :: ' ' :: prettyAt level value
      (prettyFields level fields rest))

end

/-- A value on several lines. -/
def pretty (value : Json) : String :=
  String.ofList (prettyAt 0 value [])

/-! ### On one line -/

mutual

/-- A value on one line. -/
def compactText (value : Json) (rest : List Char) : List Char :=
  match value with
  | .arr [] => '[' :: ']' :: rest
  | .arr (item :: items) => '[' :: compactText item (compactItems items (']' :: rest))
  | .obj [] => '{' :: '}' :: rest
  | .obj ((name, value) :: fields) =>
    '{' :: quoted name ++ ':' :: compactText value (compactFields fields ('}' :: rest))
  | value => atomText value ++ rest

/-- The items of an array after the first. -/
def compactItems (items : List Json) (rest : List Char) : List Char :=
  match items with
  | [] => rest
  | item :: items => ',' :: compactText item (compactItems items rest)

/-- The fields of an object after the first. -/
def compactFields (fields : List (String × Json)) (rest : List Char) : List Char :=
  match fields with
  | [] => rest
  | (name, value) :: fields =>
    ',' :: quoted name ++ ':' :: compactText value (compactFields fields rest)

end

/-- A value on one line. -/
def compact (value : Json) : String :=
  String.ofList (compactText value [])

end Json
end PackageDoc
