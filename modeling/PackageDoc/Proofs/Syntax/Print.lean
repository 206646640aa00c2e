import PackageDoc.Syntax.Expr
import PackageDoc.Token.Basic

namespace PackageDoc

/-!
# Printing expressions

An expression is printed as a list of lexemes, which are then spelled one behind the other.

* `Lexeme` — a token that is still to be read, and whether a blank stands before it;
* `Expr.lexemes` and `Expr.print` — how an expression is printed;
* `Expr.Printable` — the expressions of the modelled language;
* `Expr.erase` — an expression without the places of its parts.
-/

/-- A token that is still to be read from its characters. -/
structure Lexeme where
  kind : TokenKind
  text : List Char
  /-- Does a blank stand before it? -/
  spaced : Bool := false
  deriving Repr, DecidableEq

namespace Lexeme

/-- The blanks before a lexeme. -/
def gap (l : Lexeme) : List Char :=
  if l.spaced then [' '] else []

/-- The characters of some lexemes. -/
def spell (ls : List Lexeme) : List Char :=
  ls.flatMap fun l => l.gap ++ l.text

/-- Put a blank before some lexemes. -/
def space : List Lexeme → List Lexeme
  | [] => []
  | l :: ls => { l with spaced := true } :: ls

/-- A delimiter. -/
def delimiter (kind : TokenKind) (text : List Char) : Lexeme :=
  { kind := kind, text := text }

/-- Lexemes in parentheses. -/
def parens (ls : List Lexeme) : List Lexeme :=
  delimiter .lparen ['('] :: (ls ++ [delimiter .rparen [')']])

/-- Lexemes in square brackets. -/
def brackets (ls : List Lexeme) : List Lexeme :=
  delimiter .lbracket ['['] :: (ls ++ [delimiter .rbracket [']']])

/-- Lexemes in braces. -/
def braces (ls : List Lexeme) : List Lexeme :=
  delimiter .lbrace ['\x7b'] :: (ls ++ [delimiter .rbrace ['\x7d']])

/-- Items that follow another one, with a comma before each. -/
def further (items : List (List Lexeme)) : List Lexeme :=
  items.flatMap fun item => delimiter .comma [','] :: space item

/-- Items with commas between them. -/
def listed : List (List Lexeme) → List Lexeme
  | [] => []
  | item :: items => item ++ further items

/-- A name. -/
def ofName (name : String) : Lexeme :=
  { kind := .name, text := name.toList }

/-- Digits. -/
def ofDigits (digits : List Char) : Lexeme :=
  { kind := .number, text := digits }

/-- A number, which may be negative. -/
def ofNumber (text : String) : List Lexeme :=
  match text.toList with
  | '-' :: digits => [delimiter .minus ['-'], ofDigits digits]
  | digits => [ofDigits digits]

/-- How a character is written between double quotes. -/
def escapedChar (c : Char) : List Char :=
  if c = '\\' then ['\\', '\\']
  else if c = '"' then ['\\', '"']
  else if c = '\n' then ['\\', 'n']
  else if c = '\r' then ['\\', 'r']
  else [c]

/-- How a text is written between double quotes. -/
def escaped (cs : List Char) : List Char :=
  cs.flatMap escapedChar

/-- A string. -/
def ofText (value : String) : Lexeme :=
  { kind := .string, text := '"' :: (escaped value.toList ++ ['"']) }

/-- A keyword argument; one without a name is a `**` argument. -/
def keywordItem (key : Option String) (value : List Lexeme) : List Lexeme :=
  match key with
  | some key => ofName key :: delimiter .equals ['='] :: value
  | none => delimiter .doubleStar ['*', '*'] :: value

/-- An entry of a dictionary; one without a key is a `**` entry. -/
def entryItem (key : Option (List Lexeme)) (value : List Lexeme) : List Lexeme :=
  match key with
  | some key => key ++ delimiter .colon [':'] :: space value
  | none => delimiter .doubleStar ['*', '*'] :: value

/-- A word that stands for a value. -/
def ofKeyword (word : Keyword) : Lexeme :=
  { kind := .keyword word, text := word.text.toList }

end Lexeme

namespace Expr

open Lexeme

/-! ### The printer -/

/-- Is the expression put in parentheses before a dot or an opening bracket? -/
def isOpenBase : Expr → Bool
  | num _ _ | union _ _ _ => true
  | _ => false

/-- Is the expression put in parentheses behind a bar? -/
def isUnion : Expr → Bool
  | union _ _ _ => true
  | _ => false

/-- An expression, printed as `ls`, before a dot or an opening bracket. -/
def asBase (e : Expr) (ls : List Lexeme) : List Lexeme :=
  if e.isOpenBase then parens ls else ls

/-- An expression, printed as `ls`, behind a bar. -/
def asOperand (e : Expr) (ls : List Lexeme) : List Lexeme :=
  if e.isUnion then parens ls else ls

mutual

/-- An expression as it is printed. -/
def lexemes : Expr → List Lexeme
  | name ident => [ofName ident.name]
  | attr value field _ =>
    asBase value (lexemes value) ++ [delimiter .dot ['.'], ofName field.name]
  | subscript value (tuple (first :: second :: others) _) _ =>
    asBase value (lexemes value) ++
      brackets (listed (lexemes first :: lexemes second :: lexemesEach others))
  | subscript value index _ => asBase value (lexemes value) ++ brackets (lexemes index)
  | call func args keywords _ =>
    asBase func (lexemes func) ++
      parens (listed (lexemesEach args ++ lexemesKeywords keywords))
  | str value _ _ _ => [ofText value]
  | num text _ => ofNumber text
  | bool true _ => [ofKeyword .True]
  | bool false _ => [ofKeyword .False]
  | none _ => [ofKeyword .None]
  | ellipsis _ => [delimiter .ellipsis ['.', '.', '.']]
  | tuple [item] _ => parens (lexemes item ++ [delimiter .comma [',']])
  | tuple items _ => parens (listed (lexemesEach items))
  | list items _ => brackets (listed (lexemesEach items))
  | dict entries _ => braces (listed (lexemesEntries entries))
  | union left right _ =>
    lexemes left ++ space [delimiter .pipe ['|']] ++
      space (asOperand right (lexemes right))
  | unmodelled _ => []

/-- Expressions as they are printed. -/
def lexemesEach : List Expr → List (List Lexeme)
  | [] => []
  | e :: es => lexemes e :: lexemesEach es

/-- Keyword arguments as they are printed. -/
def lexemesKeywords : List (Option String × Expr) → List (List Lexeme)
  | [] => []
  | (key, value) :: rest => keywordItem key (lexemes value) :: lexemesKeywords rest

/-- Entries of a dictionary as they are printed. -/
def lexemesEntries : List (Option Expr × Expr) → List (List Lexeme)
  | [] => []
  | (some key, value) :: rest =>
    entryItem (some (lexemes key)) (lexemes value) :: lexemesEntries rest
  | (Option.none, value) :: rest => entryItem Option.none (lexemes value) :: lexemesEntries rest

end

/-- The text of an expression. -/
def print (e : Expr) : String :=
  String.ofList (spell e.lexemes)

/-! ### What can be printed -/

/-- An ASCII identifier that is no keyword. -/
def isIdentifier (name : String) : Bool :=
  (match name.toList with
    | [] => false
    | c :: cs => (c.isAlpha || c == '_') && cs.all fun c => c.isAlphanum || c == '_') &&
    (Keyword.ofText? name).isNone

/-- Decimal digits, at least one. -/
def isDigits (cs : List Char) : Bool :=
  !cs.isEmpty && cs.all Char.isDigit

/-- The text of a decimal integer, which may be negative. -/
def isInteger (text : String) : Bool :=
  match text.toList with
  | '-' :: digits => isDigits digits
  | digits => isDigits digits

/-- A number is digits, or a minus and digits. -/
theorem isInteger_cases {text : String} (h : isInteger text = true) :
    (∃ digits, isDigits digits = true ∧ text = "-" ++ String.ofList digits ∧
      ofNumber text = [delimiter .minus ['-'], ofDigits digits]) ∨
    (isDigits text.toList = true ∧ ofNumber text = [ofDigits text.toList]) := by
  unfold isInteger at h
  unfold ofNumber
  split at h
  · rename_i digits htext
    refine .inl ⟨digits, h, ?_, rfl⟩
    rw [← String.toList_inj, String.toList_append, htext, String.toList_ofList]
    simp
  · exact .inr ⟨h, rfl⟩

mutual

/-- Expressions of the modelled language with plain names, decimal integers and plain strings. -/
def Printable : Expr → Prop
  | name ident => isIdentifier ident.name
  | attr value field _ => value.Printable ∧ isIdentifier field.name
  | subscript value index _ => value.Printable ∧ index.Printable
  | call func args keywords _ =>
    func.Printable ∧ AllPrintable args ∧ KeywordsPrintable keywords
  | str _ isBytes isFormatted _ => isBytes = false ∧ isFormatted = false
  | num text _ => isInteger text
  | bool _ _ | none _ | ellipsis _ => True
  | tuple items _ | list items _ => AllPrintable items
  | dict entries _ => EntriesPrintable entries
  | union left right _ => left.Printable ∧ right.Printable
  | unmodelled _ => False

/-- All expressions are printable. -/
def AllPrintable : List Expr → Prop
  | [] => True
  | e :: es => e.Printable ∧ AllPrintable es

/-- All keyword arguments are printable. -/
def KeywordsPrintable : List (Option String × Expr) → Prop
  | [] => True
  | (key, value) :: rest =>
    (∀ k ∈ key, isIdentifier k) ∧ value.Printable ∧ KeywordsPrintable rest

/-- All entries are printable. -/
def EntriesPrintable : List (Option Expr × Expr) → Prop
  | [] => True
  | (some key, value) :: rest => key.Printable ∧ value.Printable ∧ EntriesPrintable rest
  | (Option.none, value) :: rest => value.Printable ∧ EntriesPrintable rest

end

/-! ### Places erased -/

/-- The place of a part whose place does not matter. -/
def noSpan : Span :=
  ⟨0, 0⟩

mutual

/-- An expression without the places of its parts. -/
def erase : Expr → Expr
  | name ident => name ⟨ident.name, noSpan⟩
  | attr value field _ => attr value.erase ⟨field.name, noSpan⟩ noSpan
  | subscript value index _ => subscript value.erase index.erase noSpan
  | call func args keywords _ => call func.erase (eraseAll args) (eraseKeywords keywords) noSpan
  | str value isBytes isFormatted _ => str value isBytes isFormatted noSpan
  | num text _ => num text noSpan
  | bool value _ => bool value noSpan
  | none _ => none noSpan
  | ellipsis _ => ellipsis noSpan
  | tuple items _ => tuple (eraseAll items) noSpan
  | list items _ => list (eraseAll items) noSpan
  | dict entries _ => dict (eraseEntries entries) noSpan
  | union left right _ => union left.erase right.erase noSpan
  | unmodelled _ => unmodelled noSpan

/-- Expressions without places. -/
def eraseAll : List Expr → List Expr
  | [] => []
  | e :: es => e.erase :: eraseAll es

/-- Keyword arguments without places. -/
def eraseKeywords : List (Option String × Expr) → List (Option String × Expr)
  | [] => []
  | (key, value) :: rest => (key, value.erase) :: eraseKeywords rest

/-- Entries of a dictionary without places. -/
def eraseEntries : List (Option Expr × Expr) → List (Option Expr × Expr)
  | [] => []
  | (some key, value) :: rest => (some key.erase, value.erase) :: eraseEntries rest
  | (Option.none, value) :: rest => (Option.none, value.erase) :: eraseEntries rest

end

/-! ### Parts of expressions -/

/-- What holds of an expression when it holds of its parts holds of every expression.  Behind a base
    the items of an index that is a tuple count as parts as well. -/
theorem deepInduction {P : Expr → Prop} (name : ∀ ident, P (.name ident))
    (attr : ∀ value field span, P value → P (.attr value field span))
    (subscript : ∀ value index span, P value → P index →
      (∀ items s, index = .tuple items s → ∀ e ∈ items, P e) → P (.subscript value index span))
    (call : ∀ func args keywords span, P func → (∀ e ∈ args, P e) →
      (∀ k ∈ keywords, P k.2) → P (.call func args keywords span))
    (str : ∀ value isBytes isFormatted span, P (.str value isBytes isFormatted span))
    (num : ∀ text span, P (.num text span)) (bool : ∀ value span, P (.bool value span))
    (none : ∀ span, P (.none span)) (ellipsis : ∀ span, P (.ellipsis span))
    (tuple : ∀ items span, (∀ e ∈ items, P e) → P (.tuple items span))
    (list : ∀ items span, (∀ e ∈ items, P e) → P (.list items span))
    (dict : ∀ entries span, (∀ k ∈ entries, (∀ key ∈ k.1, P key) ∧ P k.2) →
      P (.dict entries span))
    (union : ∀ left right span, P left → P right → P (.union left right span))
    (unmodelled : ∀ span, P (.unmodelled span)) (e : Expr) : P e := by
  -- by recursion over expressions together with all lists of parts
  have hdeep : ∀ e : Expr, P e ∧ ∀ items s, e = .tuple items s → ∀ x ∈ items, P x := by
    apply @Expr.rec
      (fun e => P e ∧ ∀ items s, e = .tuple items s → ∀ x ∈ items, P x)
      (fun es => ∀ e ∈ es, P e) (fun ks => ∀ k ∈ ks, P k.2)
      (fun ks => ∀ k ∈ ks, (∀ key ∈ k.1, P key) ∧ P k.2) (fun k => P k.2)
      (fun k => (∀ key ∈ k.1, P key) ∧ P k.2) (fun key => ∀ k ∈ key, P k)
    case name => exact fun ident => ⟨name ident, by simp⟩
    case attr => exact fun value field span h => ⟨attr value field span h.1, by simp⟩
    case subscript =>
      exact fun value index span h hindex => ⟨subscript value index span h.1 hindex.1 hindex.2, by simp⟩
    case call =>
      exact fun func args keywords span h hargs hkeywords =>
        ⟨call func args keywords span h.1 hargs hkeywords, by simp⟩
    case str => exact fun value isBytes isFormatted span => ⟨str _ _ _ _, by simp⟩
    case num => exact fun text span => ⟨num _ _, by simp⟩
    case bool => exact fun value span => ⟨bool _ _, by simp⟩
    case none => exact fun span => ⟨none _, by simp⟩
    case ellipsis => exact fun span => ⟨ellipsis _, by simp⟩
    case tuple =>
      intro items span h
      refine ⟨tuple items span h, ?_⟩
      rintro items' s heq
      obtain ⟨rfl, -⟩ := Expr.tuple.inj heq
      exact h
    case list => exact fun items span h => ⟨list items span h, by simp⟩
    case dict => exact fun entries span h => ⟨dict entries span h, by simp⟩
    case union => exact fun left right span h h' => ⟨union left right span h.1 h'.1, by simp⟩
    case unmodelled => exact fun span => ⟨unmodelled span, by simp⟩
    -- the lists of parts
    · simp
    · exact fun e es he hes => List.forall_mem_cons.mpr ⟨he.1, hes⟩
    · simp
    · exact fun k ks hk hks => List.forall_mem_cons.mpr ⟨hk, hks⟩
    · simp
    · exact fun k ks hk hks => List.forall_mem_cons.mpr ⟨hk, hks⟩
    · exact fun _ value hvalue => hvalue.1
    · exact fun _ value hkey hvalue => ⟨hkey, hvalue.1⟩
    · simp
    · exact fun key hkey => by simpa using hkey.1
  exact (hdeep e).1

/-- The inside of a subscript as it is printed; several items need no parentheses there. -/
def indexLexemes : Expr → List Lexeme
  | tuple (first :: second :: others) _ => listed ((first :: second :: others).map lexemes)
  | index => index.lexemes

/-- Expressions are printed one by one. -/
theorem lexemesEach_eq (es : List Expr) : lexemesEach es = es.map lexemes := by
  induction es with
  | nil => rfl
  | cons e es ih => rw [lexemesEach, ih, List.map_cons]

/-- So are keyword arguments. -/
theorem lexemesKeywords_eq (ks : List (Option String × Expr)) :
    lexemesKeywords ks = ks.map fun k => keywordItem k.1 k.2.lexemes := by
  induction ks with
  | nil => rfl
  | cons k ks ih => rw [lexemesKeywords, ih, List.map_cons]

/-- So are the entries of a dictionary. -/
theorem lexemesEntries_eq (ks : List (Option Expr × Expr)) :
    lexemesEntries ks = ks.map fun k => entryItem (k.1.map lexemes) k.2.lexemes := by
  induction ks with
  | nil => rfl
  | cons k ks ih =>
    obtain ⟨key, value⟩ := k
    cases key <;> simp [lexemesEntries, ih]

/-- A subscription is printed with its subscript in brackets. -/
theorem lexemes_subscript (value index : Expr) (span : Span) :
    lexemes (.subscript value index span) =
      asBase value (lexemes value) ++ brackets (indexLexemes index) := by
  unfold indexLexemes
  split
  · rw [lexemes, lexemesEach_eq, List.map_cons, List.map_cons]
  · rename_i hindex
    rw [lexemes]
    exact hindex

/-- The comma behind the only item of a tuple. -/
def lastComma (items : List Expr) : List Lexeme :=
  if items.length = 1 then [delimiter .comma [',']] else []

/-- A tuple is printed in parentheses, with a comma behind a single element. -/
theorem lexemes_tuple (items : List Expr) (span : Span) :
    lexemes (.tuple items span) = parens (listed (items.map lexemes) ++ lastComma items) := by
  match items with
  | [] => rfl
  | [item] => simp [lexemes, listed, further, lastComma]
  | first :: second :: others =>
    simp [lexemes, lexemesEach_eq, lastComma]

/-- Expressions are printable when each is. -/
theorem allPrintable_iff (es : List Expr) : AllPrintable es ↔ ∀ e ∈ es, e.Printable := by
  induction es with
  | nil => simp [AllPrintable]
  | cons e es ih => rw [AllPrintable, ih, List.forall_mem_cons]

/-- Keyword arguments are printable when their names and values are. -/
theorem keywordsPrintable_iff (ks : List (Option String × Expr)) :
    KeywordsPrintable ks ↔ ∀ k ∈ ks, (∀ name ∈ k.1, isIdentifier name) ∧ k.2.Printable := by
  induction ks with
  | nil => simp [KeywordsPrintable]
  | cons k ks ih => rw [KeywordsPrintable, ih, List.forall_mem_cons, and_assoc]

/-- Entries are printable when their keys and values are. -/
theorem entriesPrintable_iff (ks : List (Option Expr × Expr)) :
    EntriesPrintable ks ↔ ∀ k ∈ ks, (∀ key ∈ k.1, key.Printable) ∧ k.2.Printable := by
  induction ks with
  | nil => simp [EntriesPrintable]
  | cons k ks ih =>
    obtain ⟨key, value⟩ := k
    rw [List.forall_mem_cons, ← ih]
    cases key <;> simp [EntriesPrintable, and_assoc]

/-- Spans are erased expression by expression. -/
theorem eraseAll_eq (es : List Expr) : eraseAll es = es.map erase := by
  induction es with
  | nil => rfl
  | cons e es ih => rw [eraseAll, ih, List.map_cons]

/-- So they are in entries. -/
theorem eraseEntries_eq (ks : List (Option Expr × Expr)) :
    eraseEntries ks = ks.map fun k => (k.1.map erase, k.2.erase) := by
  induction ks with
  | nil => rfl
  | cons k ks ih =>
    obtain ⟨key, value⟩ := k
    cases key <;> simp [eraseEntries, ih]

end Expr
end PackageDoc
