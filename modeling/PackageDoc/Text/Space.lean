namespace PackageDoc.Text

/-!
# Blanks and lines

* `isSpace` — the white space characters of any script;
* `trim`, `trimStart`, `trimEnd` — removal of blanks at the ends of a text;
* `lines` — the lines of a text, ended by `\n` or `\r\n`;
* `stripStart?` and `stripEnd?` — what is left after a known beginning or ending.
-/

/-- The white space characters. -/
def isSpace (c : Char) : Bool :=
  let n := c.toNat
  (0x09 ≤ n && n ≤ 0x0d) || n == 0x20 || n == 0x85 || n == 0xa0 || n == 0x1680 ||
    (0x2000 ≤ n && n ≤ 0x200a) || n == 0x2028 || n == 0x2029 || n == 0x202f || n == 0x205f ||
    n == 0x3000

/-- A text without its leading blanks. -/
def trimStart (cs : List Char) : List Char :=
  cs.dropWhile isSpace

/-- A text without its trailing blanks. -/
def trimEnd (cs : List Char) : List Char :=
  (cs.reverse.dropWhile isSpace).reverse

/-- A text without blanks at either end. -/
def trim (cs : List Char) : List Char :=
  trimEnd (trimStart cs)

/-- A text that holds nothing but blanks. -/
def isBlank (cs : List Char) : Bool :=
  cs.all isSpace

/-- The number of UTF-8 bytes of a text. -/
def byteLength : List Char → Nat
  | [] => 0
  | c :: cs => c.utf8Size + byteLength cs

/-- The text after the beginning `p`, when it begins so. -/
def stripStart? : (p cs : List Char) → Option (List Char)
  | [], cs => some cs
  | _ :: _, [] => none
  | a :: p, c :: cs => if a = c then stripStart? p cs else none

/-- The text before the ending `p`, when it ends so. -/
def stripEnd? (p cs : List Char) : Option (List Char) :=
  (stripStart? p.reverse cs.reverse).map List.reverse

/-- Cut at every `sep`: always one piece more than there are separators. -/
def splitOn (sep : Char) : List Char → List (List Char)
  | [] => [[]]
  | c :: cs =>
    if c = sep then [] :: splitOn sep cs
    else match splitOn sep cs with
      | [] => [[c]]
      | piece :: pieces => (c :: piece) :: pieces

/-- A line that was ended by `\n` loses a `\r` before it. -/
def dropCarriageReturn (line : List Char) : List Char :=
  (stripEnd? ['\r'] line).getD line

/-- The lines of a text.  Each is ended by `\n` or `\r\n`; what follows the last line end counts
    as a line only when it is not empty. -/
def lines (cs : List Char) : List (List Char) :=
  close (splitOn '\n' cs)
where
  /-- All pieces but the last were ended by `\n`. -/
  close : List (List Char) → List (List Char)
    | [] => []
    | [[]] => []
    | [last] => [last]
    | piece :: pieces => dropCarriageReturn piece :: close pieces

/-- Texts joined with `sep` between neighbours. -/
def join (sep : List Char) : List (List Char) → List Char
  | [] => []
  | [piece] => piece
  | piece :: pieces => piece ++ sep ++ join sep pieces

/-- Cut at the first `sep`, which belongs to neither part. -/
def splitOnce? (sep : Char) : List Char → Option (List Char × List Char)
  | [] => none
  | c :: cs =>
    if c = sep then some ([], cs)
    else (splitOnce? sep cs).map fun r => (c :: r.1, r.2)

/-- Two lists of pieces are joined with one more separator between them. -/
theorem join_append {sep : List Char} {xs ys : List (List Char)} (hx : xs ≠ []) (hy : ys ≠ []) :
    join sep (xs ++ ys) = join sep xs ++ sep ++ join sep ys := by
  induction xs with
  | nil => exact absurd rfl hx
  | cons x xs ih =>
    cases xs with
    | nil =>
      cases ys with
      | nil => exact absurd rfl hy
      | cons y ys => simp [join]
    | cons x' xs => simpa [join] using ih (by simp)

/-- Splitting gives at least one piece. -/
theorem splitOn_ne_nil (sep : Char) (cs : List Char) : splitOn sep cs ≠ [] := by
  cases cs with
  | nil => simp [splitOn]
  | cons c cs =>
    rw [splitOn]
    split
    · simp
    · split <;> simp

/-- Joining undoes cutting. -/
theorem join_splitOn (sep : Char) (cs : List Char) : join [sep] (splitOn sep cs) = cs := by
  induction cs with
  | nil => rfl
  | cons c cs ih =>
    rw [splitOn]
    split
    · rename_i hc
      have hjoin : join [sep] ([[]] ++ splitOn sep cs) = _ :=
        join_append (by simp) (splitOn_ne_nil sep cs)
      rw [List.singleton_append, ih] at hjoin
      rw [hjoin, hc]
      rfl
    · cases hsplit : splitOn sep cs with
      | nil => exact absurd hsplit (splitOn_ne_nil sep cs)
      | cons piece pieces =>
        rw [hsplit] at ih
        cases pieces with
        | nil => simpa [join] using ih
        | cons piece' pieces => simpa [join] using ih

end PackageDoc.Text

namespace PackageDoc

/-- A `String` without blanks at either end. -/
def trimmed (s : String) : String :=
  String.ofList (Text.trim s.toList)

/-- The parts of a dotted name. -/
def segments (path : String) : List String :=
  (Text.splitOn '.' path.toList).map String.ofList

/-- A dotted name from its parts. -/
def dotted (parts : List String) : String :=
  String.ofList (Text.join ['.'] (parts.map String.toList))

/-- A dotted name is put together from two with a dot between them. -/
theorem dotted_append {xs ys : List String} (hx : xs ≠ []) (hy : ys ≠ []) :
    dotted (xs ++ ys) = dotted xs ++ "." ++ dotted ys := by
  have hjoin : Text.join ['.'] (xs.map String.toList ++ ys.map String.toList) = _ :=
    Text.join_append (by simpa using hx) (by simpa using hy)
  rw [dotted, List.map_append, hjoin, String.ofList_append, String.ofList_append]
  rfl

/-- The segments of a path make up the path. -/
@[simp] theorem dotted_segments (path : String) : dotted (segments path) = path := by
  have hparts : (segments path).map String.toList = Text.splitOn '.' path.toList := by
    rw [segments, List.map_map]
    exact (List.map_congr_left fun cs _ => String.toList_ofList).trans (List.map_id _)
  rw [dotted, hparts, Text.join_splitOn, String.ofList_toList]

end PackageDoc
