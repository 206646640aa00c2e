import PackageDoc.Text.Space

namespace PackageDoc

/-!
# The margin of a docstring

`cleanDoc` removes the indentation that a docstring has only because of where it stands in the
source: tabs are expanded, the least indentation of the lines after the first is taken off, and
blank lines at either end are dropped.
-/

/-- Expand tabs to the next multiple of 8 columns, the text beginning at `column`. -/
def expandTabs (column : Nat) : List Char → List Char
  | [] => []
  | c :: cs =>
    if c = '\t' then
      let width := 8 - column % 8
      List.replicate width ' ' ++ expandTabs (column + width) cs
    else c :: expandTabs (column + 1) cs

/-- The number of blanks before the text of a line. -/
def indentWidth (line : List Char) : Nat :=
  (line.takeWhile Text.isSpace).length

/-- Remove up to `width` blanks from the beginning of a line. -/
def stripIndent (width : Nat) (line : List Char) : List Char :=
  line.drop (min width (indentWidth line))

/-- The least indentation of the lines that are not blank; 0 if all are. -/
def baseIndent (lines : List (List Char)) : Nat :=
  (((lines.filter fun l => !Text.isBlank l).map indentWidth).min?).getD 0

/-- A line without `margin` blanks before it and without blanks after it. -/
def cleanLine (margin : Nat) (line : List Char) : List Char :=
  if Text.isBlank line then [] else Text.trimEnd (stripIndent margin line)

/-- Lines without blank ones at either end. -/
def trimBlankLines (lines : List (List Char)) : List (List Char) :=
  ((lines.dropWhile Text.isBlank).reverse.dropWhile Text.isBlank).reverse

/-- The lines of a docstring without its margin. -/
def cleanLines (doc : List Char) : List (List Char) :=
  match (Text.lines doc).map (expandTabs 0) with
  | [] => []
  | first :: rest =>
    trimBlankLines (Text.trimStart first :: rest.map (cleanLine (baseIndent rest)))

/-- A docstring without its margin. -/
def cleanDoc (doc : String) : String :=
  String.ofList (Text.join ['\n'] (cleanLines doc.toList))

end PackageDoc
