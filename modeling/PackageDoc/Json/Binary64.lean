import PackageDoc.Json.Basic

namespace PackageDoc

/-!
# Floating point numbers of 64 bits

A number is kept as the shortest decimal that denotes it.

* `Binary64.nearest?` — the floating point number nearest to a decimal;
* `Binary64.shortest` — the shortest decimal whose nearest floating point number it is;
* `Decimal.rounded?` — both together.

All is computed with natural numbers, without an error.
-/

/-- A fraction. -/
structure Fraction where
  num : Nat
  den : Nat
  deriving Repr, DecidableEq, Inhabited

namespace Fraction

/-- `n · base ^ exponent`. -/
def scaled (n base : Nat) (exponent : Int) : Fraction :=
  if 0 ≤ exponent then ⟨n * base.pow exponent.toNat, 1⟩ else ⟨n, base.pow (-exponent).toNat⟩

/-- Is the first fraction below the second? -/
def lt (a b : Fraction) : Bool :=
  a.num * b.den < b.num * a.den

/-- The first fraction over the second. -/
def div (a b : Fraction) : Fraction :=
  ⟨a.num * b.den, a.den * b.num⟩

/-- The sum of two fractions. -/
def add (a b : Fraction) : Fraction :=
  ⟨a.num * b.den + b.num * a.den, a.den * b.den⟩

/-- The whole part. -/
def floor (a : Fraction) : Nat :=
  a.num / a.den

/-- The nearest whole number; of two, the even one. -/
def round (a : Fraction) : Nat :=
  let low := a.floor
  let twice := 2 * (a.num % a.den)
  if twice < a.den || (twice = a.den && low % 2 = 0) then low else low + 1

end Fraction

/-- The number `mantissa · 2 ^ exponent`.  The mantissa has 53 bits, or fewer when the exponent is
    the least one. -/
structure Binary64 where
  mantissa : Nat
  exponent : Int
  deriving Repr, DecidableEq, Inhabited

namespace Binary64

/-- The least exponent. -/
def minExponent : Int := -1074

/-- The greatest exponent. -/
def maxExponent : Int := 971

/-- The exponent with which a fraction above 0 has a mantissa of 53 bits, if it is not too small. -/
def exponentOf (a : Fraction) : Int :=
  let e : Int := (a.num.log2 : Int) - a.den.log2 - 52
  let e := if a.lt (Fraction.scaled (Nat.pow 2 52) 2 e) then e - 1 else e
  max e minExponent

/-- The floating point number nearest to a fraction, if it is not too large. -/
def nearest? (a : Fraction) : Option Binary64 :=
  if a.num = 0 then some ⟨0, minExponent⟩
  else
    let e := exponentOf a
    let m := (a.div (Fraction.scaled 1 2 e)).round
    let b : Binary64 := if m = Nat.pow 2 53 then ⟨Nat.pow 2 52, e + 1⟩ else ⟨m, e⟩
    if b.exponent ≤ maxExponent then some b else none

/-- Its value. -/
def value (b : Binary64) : Fraction :=
  Fraction.scaled b.mantissa 2 b.exponent

/-- Half way to the next smaller number.  Below a power of two the numbers are twice as dense. -/
def lowerEnd (b : Binary64) : Fraction :=
  let gap := if b.mantissa = Nat.pow 2 52 && minExponent < b.exponent then 1 else 2
  Fraction.scaled (4 * b.mantissa - gap) 2 (b.exponent - 2)

/-- Half way to the next greater number. -/
def upperEnd (b : Binary64) : Fraction :=
  Fraction.scaled (4 * b.mantissa + 2) 2 (b.exponent - 2)

/-- Is this the number nearest to a fraction? -/
def isNearest (b : Binary64) (a : Fraction) : Bool :=
  if b.mantissa % 2 = 0 then !(a.lt b.lowerEnd) && !(b.upperEnd.lt a)
  else b.lowerEnd.lt a && a.lt b.upperEnd

/-- The number of digits of a fraction before the decimal point, or, negated, that of the zeros
    directly after it. -/
def pointOf (a : Fraction) : Int :=
  let digits (n : Nat) : Int := (Nat.toDigits 10 n).length
  let k := digits a.num - digits a.den
  if a.lt (Fraction.scaled 1 10 k) then k else k + 1

/-- The decimal with `n` digits that denotes the number, the nearer one if there are two. -/
def withDigits? (b : Binary64) (n : Nat) : Option (Nat × Int) :=
  let grid := pointOf b.value - n
  let low := (b.value.div (Fraction.scaled 1 10 grid)).floor
  let denotes (c : Nat) : Bool := b.isNearest (Fraction.scaled c 10 grid)
  let middle := Fraction.add (Fraction.scaled low 10 grid) (Fraction.scaled (low + 1) 10 grid)
  let lowIsNearer := !(middle.lt (Fraction.add b.value b.value))
  if denotes low && (lowIsNearer || !denotes (low + 1)) then some (low, grid)
  else if denotes (low + 1) then some (low + 1, grid)
  else none

/-- Move zeros at the end of the digits to the exponent. -/
def stripZeros : Nat → Nat → Int → Nat × Int
  | 0, digits, exponent => (digits, exponent)
  | n + 1, digits, exponent =>
    if digits % 10 = 0 then stripZeros n (digits / 10) (exponent + 1) else (digits, exponent)

/-- The shortest decimal that denotes the number: 17 digits always suffice. -/
def shortest (b : Binary64) : Nat × Int :=
  if b.mantissa = 0 then (0, 0)
  else
    let (digits, exponent) :=
      (((List.range 17).map (· + 1)).findSome? b.withDigits?).getD (b.mantissa, 0)
    stripZeros 17 digits exponent

end Binary64

/-- The shortest decimal with the same nearest floating point number, which does not exist for a
    decimal that is too large. -/
def Decimal.rounded? (d : Decimal) : Option Decimal :=
  let point : Int := (Nat.toDigits 10 d.digits).length + d.exponent
  if d.digits = 0 || point < -400 then some ⟨d.negative, 0, 0⟩
  else if 400 < point then none
  else
    (Binary64.nearest? (Fraction.scaled d.digits 10 d.exponent)).map fun b =>
      let (digits, exponent) := b.shortest
      ⟨d.negative, digits, exponent⟩

end PackageDoc
