namespace PackageDoc.Text

/-!
# Characters by their numbers

* `hexDigit?` and `hexValue?` — the number that hexadecimal digits of either case write;
* `charOfNat?` — the character with a number;
* `escapeWidth?` — how many digits an escape has that gives a character by its number;
* `asciiBytes` — the bytes of characters that are written with one byte each;
* `firstChar?` and `decodeUtf8` — the characters that bytes write.

A character has one spelling in bytes: the shortest, and surrogates have none.
-/

/-! ### Hexadecimal numbers -/

/-- The value of a hexadecimal digit. -/
def hexDigit? (c : Char) : Option Nat :=
  if c.isDigit then some (c.toNat - '0'.toNat)
  else if 'a' ≤ c && c ≤ 'f' then some (c.toNat - 'a'.toNat + 10)
  else if 'A' ≤ c && c ≤ 'F' then some (c.toNat - 'A'.toNat + 10)
  else none

/-- The number that hexadecimal digits write, continuing from `acc`. -/
def hexValue? (acc : Nat) : List Char → Option Nat
  | [] => some acc
  | c :: cs => (hexDigit? c).bind fun d => hexValue? (acc * 16 + d) cs

/-- The character with code point `n`, which is no surrogate. -/
def charOfNat? (n : Nat) : Option Char :=
  if n.isValidChar then some (Char.ofNat n) else none

/-- The number of digits of a numeric escape. -/
def escapeWidth? : Char → Option Nat
  | 'x' => some 2
  | 'u' => some 4
  | 'U' => some 8
  | _ => none

/-! ### Bytes of texts -/

/-- The bytes of ASCII characters. -/
def asciiBytes (cs : List Char) : List UInt8 :=
  cs.map fun c => UInt8.ofNat c.toNat

/-- The six bits of a continuation byte. -/
def continuation? (b : UInt8) : Option Nat :=
  if 0x80 ≤ b.toNat && b.toNat < 0xc0 then some (b.toNat - 0x80) else none

/-- The character with code point `n`, which must be at least `least`. -/
def codePoint? (least n : Nat) : Option Char :=
  if least ≤ n then charOfNat? n else none

/-- The character at the beginning of a byte string, and the bytes after it. -/
def firstChar? : List UInt8 → Option (Char × List UInt8)
  | [] => none
  | b :: bs =>
    let n := b.toNat
    if n < 0x80 then some (Char.ofNat n, bs)
    else if 0xc0 ≤ n && n < 0xe0 then
      match bs with
      | b₁ :: rest => do
        let x₁ ← continuation? b₁
        let c ← codePoint? 0x80 ((n - 0xc0) * 0x40 + x₁)
        return (c, rest)
      | _ => none
    else if 0xe0 ≤ n && n < 0xf0 then
      match bs with
      | b₁ :: b₂ :: rest => do
        let x₁ ← continuation? b₁
        let x₂ ← continuation? b₂
        let c ← codePoint? 0x800 (((n - 0xe0) * 0x40 + x₁) * 0x40 + x₂)
        return (c, rest)
      | _ => none
    else if 0xf0 ≤ n && n < 0xf8 then
      match bs with
      | b₁ :: b₂ :: b₃ :: rest => do
        let x₁ ← continuation? b₁
        let x₂ ← continuation? b₂
        let x₃ ← continuation? b₃
        let c ← codePoint? 0x10000 ((((n - 0xf0) * 0x40 + x₁) * 0x40 + x₂) * 0x40 + x₃)
        return (c, rest)
      | _ => none
    else none

/-- Decode at most `n` characters from bytes that begin at `offset`; fails with the offset of the
    first bytes that are no character. -/
def decodeUtf8From : (n : Nat) → (offset : Nat) → List UInt8 → Except Nat (List Char)
  | _, _, [] => .ok []
  | 0, offset, _ => .error offset
  | n + 1, offset, bs =>
    match firstChar? bs with
    | none => .error offset
    | some (c, rest) =>
      match decodeUtf8From n (offset + c.utf8Size) rest with
      | .ok cs => .ok (c :: cs)
      | .error e => .error e

/-- Decode bytes; fails with the offset of the first bytes that are no character. -/
def decodeUtf8 (bs : List UInt8) : Except Nat (List Char) :=
  decodeUtf8From bs.length 0 bs

/-- Do bytes write characters? -/
def isUtf8 (bs : List UInt8) : Bool :=
  (decodeUtf8 bs).toBool

end PackageDoc.Text
