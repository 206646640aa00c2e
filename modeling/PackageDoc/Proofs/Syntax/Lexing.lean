import PackageDoc.Proofs.Syntax.Print
import PackageDoc.Proofs.Syntax.Quoting
import Mathlib.Data.List.Forall2

namespace PackageDoc

/-!
# Reading lexemes back

A lexeme is read as one token wherever the characters behind it do not go on with it.

* `Lexer.Passed` — what reading some lexemes does to the state of the lexer;
* `Lexeme.IsRead` — a lexeme is read as one token before some characters;
* `Lexeme.AllRead` and `Lexeme.depthAfter?` — the same for several lexemes, and their brackets;
* `Lexer.exists_run_of_allRead` — a walk over lexemes, by one step for each;
* `tokenize_spell` — the tokens of a text that is spelled by lexemes.
-/

/-- The token is what the lexeme is read as. -/
def Token.Spells (t : Token) (l : Lexeme) : Prop :=
  t.kind = l.kind ∧ t.text = String.ofList l.text

/-- How many brackets are open behind a lexeme; none when it closes a bracket that is not open. -/
def Lexeme.depthAfter? (depth : Nat) (l : Lexeme) : Option Nat :=
  if l.kind.isOpenBracket then some (depth + 1)
  else if l.kind.isCloseBracket then if depth = 0 then none else some (depth - 1)
  else some depth

/-- What has changed when some lexemes in front of `cs` are read and `depth` brackets are open. -/
structure Lexer.Passed (s : Lexer) (ls : List Lexeme) (cs : List Char) (depth : Nat)
    (s' : Lexer) : Prop where
  rest : s'.rest = cs
  depth : s'.depth = depth
  indents : s'.indents = s.indents
  atLineStart : s'.atLineStart = false
  issues : s'.issues = s.issues
  tokens : ∃ ts : List Token, s'.tokens = ts.reverse ++ s.tokens ∧ List.Forall₂ Token.Spells ts ls

/-- In front of `cs` the lexeme is read as one token in one step, whatever blanks stand before it. -/
structure Lexeme.IsRead (l : Lexeme) (cs : List Char) : Prop where
  nonempty : l.text ≠ []
  inLine : l.kind.closesLine = false
  step : ∀ (s : Lexer) (depth : Nat) (gap : List Char), (∀ c ∈ gap, isGap c = true) →
    s.atLineStart = false → s.rest = gap ++ (l.text ++ cs) → l.depthAfter? s.depth = some depth →
      ∃ s', s.step = some s' ∧ s.Passed [l] cs depth s'

namespace Lexeme

/-! ### The first character of a lexeme -/

/-- A span ends where a character does not satisfy `p`. -/
theorem span_append {α : Type} {p : α → Bool} {xs ys : List α} (hxs : ∀ x ∈ xs, p x = true)
    (hys : ∀ y ∈ ys.head?, p y = false) : (xs ++ ys).span p = (xs, ys) := by
  rw [List.span_eq_takeWhile_dropWhile, List.takeWhile_append_of_pos hxs,
    List.dropWhile_append_of_pos hxs]
  cases ys with
  | nil => simp
  | cons y ys => simp [hys y rfl]

/-- A character that is neither skipped nor the end of a line. -/
def startsToken (c : Char) : Bool :=
  !isGap c && !isLineBreak c && c != '#' && c != '\\'

/-- The step inside a line at a lexeme: the blanks before it are passed over, and its first character
    decides what is read. -/
theorem token_of_gap {s : Lexer} {gap : List Char} {c : Char} {cs : List Char}
    (hgap : ∀ c ∈ gap, isGap c = true) (hrest : s.rest = gap ++ c :: cs)
    (hc : startsToken c = true) :
    s.token =
      if c = '"' || c = '\'' then some ((s.skip gap (c :: cs)).stringLiteral [] c cs)
      else if c.isDigit || (c = '.' && cs.head?.any Char.isDigit) then
        some ((s.skip gap (c :: cs)).number c cs)
      else if isNameStart c then some (s.skip gap (c :: cs)).word
      else some ((s.skip gap (c :: cs)).punctuation c cs) := by
  simp only [startsToken, Bool.and_eq_true, Bool.not_eq_true', bne_iff_ne] at hc
  obtain ⟨⟨⟨hnogap, hbreak⟩, hhash⟩, hslash⟩ := hc
  have hspan : s.rest.span isGap = (gap, c :: cs) := by
    rw [hrest]
    exact span_append hgap (by simpa using hnogap)
  unfold Lexer.token
  simp only [hspan, Lexer.skip, hbreak, hhash, hslash, Bool.false_eq_true, if_false]

/-- The gap in front of a lexeme is one. -/
theorem isGap_of_mem_gap (l : Lexeme) : ∀ c ∈ l.gap, isGap c = true := by
  intro c hc
  unfold gap at hc
  split at hc
  · obtain rfl := List.mem_singleton.mp hc
    rfl
  · exact absurd hc (by simp)

/-- Inside a line every step is a token. -/
theorem step_of_line {s : Lexer} (hline : s.atLineStart = false) : s.step = s.token := by
  simp [Lexer.step, hline]

/-- The state behind a lexeme that is emitted. -/
theorem passed_emit {s : Lexer} (l : Lexeme) (gap cs : List Char) (depth : Nat)
    (hline : s.atLineStart = false) :
    s.Passed [l] cs depth
      ({ s.skip gap (l.text ++ cs) with depth := depth }.emit l.kind l.text cs) :=
  ⟨rfl, rfl, rfl, hline, rfl, ⟨[⟨l.kind, _, String.ofList l.text⟩], rfl, .cons ⟨rfl, rfl⟩ .nil⟩⟩

/-! ### Delimiters -/

/-- The first character of a delimiter. -/
def startsDelimiter (c : Char) : Bool :=
  startsToken c && !(c == '"' || c == '\'' || c.isDigit || isNameStart c)

/-- A delimiter is read where the table of operators has it first. -/
theorem isRead_delimiter {l : Lexeme} {c : Char} {t cs : List Char} (htext : l.text = c :: t)
    (hc : startsDelimiter c = true)
    (hdot : c = '.' → ∀ d ∈ (t ++ cs).head?, d.isDigit = false)
    (hfind : operators.find? (fun op => op.1.isPrefixOf (c :: (t ++ cs))) = some (c :: t, l.kind)) :
    l.IsRead cs := by
  have hkind : l.kind.closesLine = false := by
    have hmem := List.mem_of_find?_eq_some hfind
    have hall : ∀ op ∈ operators, op.2.closesLine = false := by decide
    exact hall _ hmem
  refine ⟨by simp [htext], hkind, fun s depth gap hgap hline hrest hdepth => ?_⟩
  simp only [startsDelimiter, Bool.and_eq_true, Bool.not_eq_true', Bool.or_eq_false_iff,
    beq_eq_false_iff_ne] at hc
  obtain ⟨hstart, ⟨⟨hquote, happly⟩, hdigit⟩, hname⟩ := hc
  rw [htext, List.cons_append] at hrest
  have hnumber : (c.isDigit || (c = '.' && (t ++ cs).head?.any Char.isDigit)) = false := by
    rw [hdigit, Bool.false_or]
    by_cases h : c = '.'
    · cases hhead : (t ++ cs).head? with
      | none => simp
      | some d => simp [hdot h d hhead]
    · simp [h]
  have hstep : s.step = some ((s.skip gap (c :: (t ++ cs))).punctuation c (t ++ cs)) := by
    rw [step_of_line hline, token_of_gap hgap hrest hstart, hnumber, hname]
    simp [hquote, happly]
  have hdrop : (c :: (t ++ cs)).drop (c :: t).length = cs := by
    rw [← List.cons_append, List.drop_left]
  refine ⟨_, hstep, ?_⟩
  have hpassed := passed_emit (s := s) l gap cs depth hline
  rw [htext, List.cons_append] at hpassed
  unfold Lexer.punctuation
  simp only [hfind, hdrop]
  -- brackets are counted
  unfold depthAfter? at hdepth
  split
  · rename_i hopen
    rw [if_pos hopen] at hdepth
    obtain rfl := Option.some.inj hdepth
    exact hpassed
  · rename_i hopen
    rw [if_neg hopen] at hdepth
    split
    · rename_i hclose
      rw [if_pos hclose] at hdepth
      have hpos : (s.skip gap (c :: (t ++ cs))).depth ≠ 0 := by
        intro h
        rw [show s.depth = 0 from h] at hdepth
        exact absurd hdepth (by simp)
      rw [if_neg (show s.depth ≠ 0 from hpos)] at hdepth
      obtain rfl := Option.some.inj hdepth
      rw [if_neg hpos]
      exact hpassed
    · rename_i hclose
      rw [if_neg hclose] at hdepth
      obtain rfl := Option.some.inj hdepth
      exact hpassed

/-! ### Words -/

/-- The characters behind a word do not go on with it. -/
def EndsWord (cs : List Char) : Prop :=
  ∀ d ∈ cs.head?, isNamePart d = false ∧ d ≠ '"' ∧ d ≠ '\''

/-- A letter or an underscore starts a name. -/
theorem isNameStart_of_letter {c : Char} (hc : (c.isAlpha || c == '_') = true) :
    isNameStart c = true := by
  rw [isNameStart, hc, Bool.true_or]

/-- A digit may go on with it. -/
theorem isNamePart_of_alphanum {c : Char} (hc : (c.isAlphanum || c == '_') = true) :
    isNamePart c = true := by
  simp only [Char.isAlphanum, isNamePart, isNameStart] at hc ⊢
  grind

/-- What starts a name starts no other token. -/
theorem startsToken_of_nameStart {c : Char} (hc : isNameStart c = true) :
    startsToken c = true ∧ c ≠ '"' ∧ c ≠ '\'' ∧ c ≠ '.' ∧ c.isDigit = false := by
  have hne : ∀ d : Char, isNameStart d = false → c ≠ d := by
    rintro d hd rfl
    rw [hd] at hc
    exact absurd hc (by simp)
  -- letters and the underscore are ASCII but no digits, and all else is beyond ASCII
  have hdigit : c.isDigit = false := by
    rw [isNameStart, Bool.or_eq_true_iff, Bool.or_eq_true_iff] at hc
    rcases hc with (hc | hc) | hc
    · unfold Char.isAlpha Char.isUpper Char.isLower at hc
      unfold Char.isDigit
      grind
    · obtain rfl := beq_iff_eq.mp hc
      rfl
    · have hlarge : 0x80 ≤ c.toNat := of_decide_eq_true hc
      have hval : c.val.toNat = c.toNat := rfl
      simp only [Char.isDigit, Bool.and_eq_false_iff, decide_eq_false_iff_not, ge_iff_le,
        UInt32.le_iff_toNat_le]
      refine .inr ?_
      rw [hval]
      exact fun hle => absurd (Nat.le_trans hlarge hle) (by decide)
  refine ⟨?_, hne _ rfl, hne _ rfl, hne _ rfl, hdigit⟩
  simp [startsToken, isGap, isLineBreak, hne ' ' rfl, hne '\t' rfl, hne '\x0c' rfl,
    hne '\n' rfl, hne '\r' rfl, hne '#' rfl, hne '\\' rfl]

/-- A name or a keyword is read up to its end. -/
theorem isRead_word {l : Lexeme} {c : Char} {t cs : List Char} (htext : l.text = c :: t)
    (hc : isNameStart c = true) (ht : t.all isNamePart = true)
    (hkind : l.kind = match Keyword.ofText? (String.ofList l.text) with
      | some word => .keyword word
      | none => .name)
    (hends : EndsWord cs) : l.IsRead cs := by
  have hclose : l.kind.closesLine = false := by
    rw [hkind]
    split <;> rfl
  refine ⟨by simp [htext], hclose, fun s depth gap hgap hline hrest hdepth => ?_⟩
  obtain ⟨hstart, hquote, happly, hdot, hdigit⟩ := startsToken_of_nameStart hc
  rw [htext, List.cons_append] at hrest
  have hstep : s.step = some (s.skip gap (c :: (t ++ cs))).word := by
    rw [step_of_line hline, token_of_gap hgap hrest hstart, hdigit, hc]
    simp [hquote, happly, hdot]
  have hspan : (c :: (t ++ cs)).span isNamePart = (c :: t, cs) := by
    rw [← List.cons_append]
    refine span_append (fun x hx => ?_) fun y hy => (hends y hy).1
    rcases List.mem_cons.mp hx with rfl | hx
    · rw [isNamePart, hc, Bool.true_or]
    · exact List.all_eq_true.mp ht x hx
  -- the letters of a string literal would be followed by a quote
  have hword : (s.skip gap (c :: (t ++ cs))).word =
      (s.skip gap (c :: (t ++ cs))).emit l.kind (c :: t) cs := by
    have hname' : (match Keyword.ofText? (String.ofList (c :: t)) with
        | some word => (s.skip gap (c :: (t ++ cs))).emit (.keyword word) (c :: t) cs
        | none => (s.skip gap (c :: (t ++ cs))).emit .name (c :: t) cs) =
        (s.skip gap (c :: (t ++ cs))).emit l.kind (c :: t) cs := by
      rw [hkind, htext]
      split <;> rfl
    unfold Lexer.word
    simp only [Lexer.skip, hspan]
    cases cs with
    | nil => exact hname'
    | cons d cs =>
      obtain ⟨-, hd, hd'⟩ := hends d rfl
      simp only [hd, hd', decide_false, Bool.or_false, Bool.false_and, Bool.false_eq_true, if_false]
      exact hname'
  have hdepth' : depth = s.depth := by
    have hkind' : l.kind.isOpenBracket = false ∧ l.kind.isCloseBracket = false := by
      rw [hkind]
      split <;> exact ⟨rfl, rfl⟩
    simpa [depthAfter?, hkind'] using hdepth.symm
  refine ⟨_, hstep, ?_⟩
  have hpassed := passed_emit (s := s) l gap cs depth hline
  rw [hdepth', htext] at hpassed
  rw [hword, hdepth']
  exact hpassed

/-! ### Numbers -/

/-- The characters behind a number do not go on with it. -/
def EndsNumber (cs : List Char) : Prop :=
  ∀ d ∈ cs.head?, d.isAlphanum = false ∧ d ≠ '_' ∧ d ≠ '.'

/-- What begins with a digit is no other token. -/
theorem startsToken_of_digit {c : Char} (hc : c.isDigit = true) :
    startsToken c = true ∧ c ≠ '"' ∧ c ≠ '\'' := by
  have hne : ∀ d : Char, d.isDigit = false → c ≠ d := by
    rintro d hd rfl
    exact absurd hc (by simp [hd])
  refine ⟨?_, hne _ rfl, hne _ rfl⟩
  simp [startsToken, isGap, isLineBreak, hne ' ' rfl, hne '\t' rfl, hne '\x0c' rfl,
    hne '\n' rfl, hne '\r' rfl, hne '#' rfl, hne '\\' rfl]

/-- Digits are read as a number up to where one ends. -/
theorem spanNumber_digits (hex : Bool) {prev : Char} (hprev : prev.isDigit = true)
    {digits cs : List Char} (hdigits : digits.all Char.isDigit = true) (hends : EndsNumber cs) :
    spanNumber hex prev (digits ++ cs) = (digits, cs) := by
  induction digits generalizing prev with
  | nil =>
    cases cs with
    | nil => rfl
    | cons d cs =>
      obtain ⟨hd, hd', hd''⟩ := hends d rfl
      have hexp : prev ≠ 'e' ∧ prev ≠ 'E' := by
        constructor <;> rintro rfl <;> exact absurd hprev (by decide)
      simp [spanNumber, hd, hd', hd'', hexp.1, hexp.2]
  | cons d digits ih =>
    rw [List.all_cons, Bool.and_eq_true] at hdigits
    have hd : d.isAlphanum = true := by rw [Char.isAlphanum, hdigits.1, Bool.or_true]
    rw [List.cons_append, spanNumber, ih hdigits.1 hdigits.2]
    simp [hd]

/-- Decimal digits are read up to the last. -/
theorem isRead_number {l : Lexeme} {cs : List Char} (hdigits : Expr.isDigits l.text = true)
    (hkind : l.kind = .number) (hends : EndsNumber cs) : l.IsRead cs := by
  cases htext : l.text with
  | nil =>
    rw [htext] at hdigits
    exact absurd hdigits (by decide)
  | cons c t =>
    refine ⟨by simp [htext], by rw [hkind]; rfl, fun s depth gap hgap hline hrest hdepth => ?_⟩
    rw [htext] at hrest hdigits
    obtain ⟨hc, ht⟩ : c.isDigit = true ∧ t.all Char.isDigit = true := by
      simpa [Expr.isDigits] using hdigits
    obtain ⟨hstart, hquote, happly⟩ := startsToken_of_digit hc
    rw [List.cons_append] at hrest
    have hstep : s.step = some ((s.skip gap (c :: (t ++ cs))).number c (t ++ cs)) := by
      rw [step_of_line hline, token_of_gap hgap hrest hstart]
      simp [hquote, happly, hc]
    refine ⟨_, hstep, ?_⟩
    have hdepth' : depth = s.depth := by
      rw [depthAfter?, hkind] at hdepth
      exact (Option.some.inj hdepth).symm
    have hpassed := passed_emit (s := s) l gap cs depth hline
    rw [hdepth', htext, hkind] at hpassed
    unfold Lexer.number
    simp only [spanNumber_digits _ hc ht hends, hdepth']
    exact hpassed

/-! ### Strings -/

/-- A literal that begins here is read up to its closing quotes, if behind them no other follows. -/
theorem stringLiteral_quoted (s : Lexer) (lead : List Char) (q : Quotes) (value : List Char)
    {cs : List Char} (hends : cs.head? ≠ some q.mark) :
    s.stringLiteral lead q.mark (q.others ++ (q.escaped value ++ (q.text ++ cs))) =
      s.emit .string (lead ++ q.literal value) cs := by
  have hbody : (if q.tripled then
      (q.others ++ (q.escaped value ++ (q.text ++ cs))).drop 2
      else q.others ++ (q.escaped value ++ (q.text ++ cs))) =
        q.escaped value ++ (q.text ++ cs) := by
    unfold Quotes.others
    split <;> rfl
  unfold Lexer.stringLiteral
  dsimp only
  rw [q.isPrefixOf_others value hends, hbody, q.spanString_escaped, ← q.text_eq, List.append_assoc]
  rfl

/-- The lexeme is read as soon as the step at its first character is known. -/
theorem isRead_of_string {l : Lexeme} {cs : List Char} {c : Char} {more : List Char}
    (hcons : l.text ++ cs = c :: more) (hkind : l.kind = .string) (hne : l.text ≠ [])
    (hstep : ∀ (s : Lexer) (gap : List Char), (∀ c ∈ gap, isGap c = true) →
      s.rest = gap ++ c :: more → s.token = some ((s.skip gap (c :: more)).emit .string l.text cs)) :
    l.IsRead cs := by
  refine ⟨hne, by rw [hkind]; rfl, fun s depth gap hgap hline hrest hdepth => ?_⟩
  rw [hcons] at hrest
  refine ⟨_, (step_of_line hline).trans (hstep s gap hgap hrest), ?_⟩
  have hdepth' : depth = s.depth := by
    rw [depthAfter?, hkind] at hdepth
    exact (Option.some.inj hdepth).symm
  have hpassed := passed_emit (s := s) l gap cs depth hline
  rw [hcons, hdepth', hkind] at hpassed
  rw [hdepth']
  exact hpassed

/-- A literal is read as one token, if behind it no other quote follows. -/
theorem isRead_literal (q : Quotes) {l : Lexeme} {value cs : List Char}
    (htext : l.text = q.literal value) (hkind : l.kind = .string)
    (hends : cs.head? ≠ some q.mark) : l.IsRead cs := by
  have hcons : l.text ++ cs = q.mark :: (q.others ++ (q.escaped value ++ (q.text ++ cs))) := by
    rw [htext, Quotes.literal, List.append_assoc, List.append_assoc]
    rfl
  refine isRead_of_string hcons hkind (by simp [htext, Quotes.literal, Quotes.text])
    fun s gap hgap hrest => ?_
  have hquote : (q.mark = '"' || q.mark = '\'') = true ∧ startsToken q.mark = true := by
    rcases q.mark_eq with h | h <;> · rw [h]; exact ⟨rfl, rfl⟩
  rw [token_of_gap hgap hrest hquote.2, if_pos hquote.1, stringLiteral_quoted _ [] q value hends, htext,
    List.nil_append]

/-- So is a raw literal, in which nothing needs an escape. -/
theorem isRead_raw (q : Quotes) {l : Lexeme} {value cs : List Char} (htext : l.text = q.raw value)
    (hvalue : q.Verbatim value) (hkind : l.kind = .string) (hends : cs.head? ≠ some q.mark) :
    l.IsRead cs := by
  have hcons : l.text ++ cs =
      'r' :: q.mark :: (q.others ++ (q.escaped value ++ (q.text ++ cs))) := by
    rw [htext, q.raw_eq hvalue, Quotes.literal, List.cons_append, List.append_assoc,
      List.append_assoc]
    rfl
  refine isRead_of_string hcons hkind (by simp [htext, Quotes.raw]) fun s gap hgap hrest => ?_
  have hquote : (q.mark = '"' || q.mark = '\'') = true ∧ isNamePart q.mark = false := by
    rcases q.mark_eq with h | h <;> · rw [h]; exact ⟨rfl, rfl⟩
  -- the letter is a word of its own, which the quote behind it makes the lead of a literal
  have hspan : ('r' :: q.mark :: (q.others ++ (q.escaped value ++ (q.text ++ cs)))).span isNamePart =
      (['r'], q.mark :: (q.others ++ (q.escaped value ++ (q.text ++ cs)))) :=
    have hletter : ∀ c ∈ ['r'], isNamePart c = true := by simp [isNamePart, isNameStart]
    span_append hletter (by simp [hquote.2])
  have hlead : isStringLead ['r'] = true := by decide
  rw [token_of_gap hgap hrest rfl, if_neg (by decide), if_neg (by simp), if_pos (by decide)]
  unfold Lexer.word
  simp only [Lexer.skip, hspan, hquote.1, hlead, Bool.and_self, if_true]
  rw [stringLiteral_quoted _ ['r'] q value hends, htext, q.raw_eq hvalue]
  rfl

/-- Strings are printed between double quotes. -/
def doubleQuotes : Quotes where
  mark := '"'
  tripled := false
  isMark := rfl

/-- A string is read up to its closing quote, if no other quote follows. -/
theorem isRead_text {l : Lexeme} {value cs : List Char}
    (htext : l.text = '"' :: (escaped value ++ ['"'])) (hkind : l.kind = .string)
    (hends : cs.head? ≠ some '"') : l.IsRead cs :=
  isRead_literal doubleQuotes htext hkind hends

/-! ### Several lexemes -/

/-- Each lexeme is read as one token in front of the characters behind it. -/
def AllRead : List Lexeme → List Char → Prop
  | [], _ => True
  | l :: ls, cs => l.IsRead (spell ls ++ cs) ∧ AllRead ls cs

/-- How many brackets are open behind some lexemes; none when one closes a bracket that is not
    open. -/
def depthsAfter? (depth : Nat) : List Lexeme → Option Nat
  | [] => some depth
  | l :: ls => (l.depthAfter? depth).bind fun d => depthsAfter? d ls

@[simp] theorem spell_nil : spell [] = [] := rfl

/-- Lexemes are spelled one after the other. -/
@[simp] theorem spell_cons (l : Lexeme) (ls : List Lexeme) :
    spell (l :: ls) = l.gap ++ (l.text ++ spell ls) := by
  simp [spell]

/-- So are two lists of them. -/
@[simp] theorem spell_append (ls ms : List Lexeme) : spell (ls ++ ms) = spell ls ++ spell ms := by
  simp [spell]

/-- They are read one after the other, each in front of what follows. -/
theorem allRead_append (ls ms : List Lexeme) (cs : List Char) :
    AllRead (ls ++ ms) cs ↔ AllRead ls (spell ms ++ cs) ∧ AllRead ms cs := by
  induction ls with
  | nil => simp [AllRead]
  | cons l ls ih => simp [AllRead, ih, and_assoc]

/-- Brackets are counted in the same way. -/
theorem depthsAfter?_append (depth : Nat) (ls ms : List Lexeme) :
    depthsAfter? depth (ls ++ ms) = (depthsAfter? depth ls).bind fun d => depthsAfter? d ms := by
  induction ls generalizing depth with
  | nil => rfl
  | cons l ls ih =>
    rw [List.cons_append, depthsAfter?, depthsAfter?, Option.bind_assoc]
    exact Option.bind_congr fun d _ => ih d

end Lexeme

namespace Lexer

open Lexeme

/-- What is passed in two stretches. -/
theorem Passed.append {s s' s'' : Lexer} {ls ms : List Lexeme} {cs cs' : List Char}
    {depth depth' : Nat} (h : s.Passed ls cs depth s') (h' : s'.Passed ms cs' depth' s'') :
    s.Passed (ls ++ ms) cs' depth' s'' := by
  obtain ⟨ts, htokens, hspells⟩ := h.tokens
  obtain ⟨ts', htokens', hspells'⟩ := h'.tokens
  refine ⟨h'.rest, h'.depth, h'.indents.trans h.indents, h'.atLineStart, h'.issues.trans h.issues,
    ts ++ ts', ?_, List.rel_append hspells hspells'⟩
  rw [htokens', htokens, List.reverse_append, List.append_assoc]

/-- A walk over lexemes takes one step for each. -/
theorem exists_run_of_allRead {ls : List Lexeme} {cs : List Char} {s : Lexer} {depth : Nat}
    (hread : AllRead ls cs) (hline : s.atLineStart = false) (hrest : s.rest = spell ls ++ cs)
    (hdepth : depthsAfter? s.depth ls = some depth) :
    ∃ s', s.Passed ls cs depth s' ∧ ∀ n, run (ls.length + n) s = run n s' := by
  induction ls generalizing s with
  | nil =>
    obtain rfl := Option.some.inj hdepth
    exact ⟨s, ⟨hrest, rfl, rfl, hline, rfl, [], rfl, .nil⟩, fun n => by simp⟩
  | cons l ls ih =>
    obtain ⟨hl, hls⟩ := hread
    rw [depthsAfter?, Option.bind_eq_some_iff] at hdepth
    obtain ⟨d, hd, hdepth⟩ := hdepth
    rw [spell_cons, List.append_assoc, List.append_assoc] at hrest
    obtain ⟨s₁, hstep, hfirst⟩ := hl.step s d l.gap l.isGap_of_mem_gap hline hrest hd
    obtain ⟨s', hothers, hrun⟩ := ih hls hfirst.atLineStart hfirst.rest (by rwa [hfirst.depth])
    refine ⟨s', hfirst.append hothers, fun n => ?_⟩
    rw [List.length_cons, Nat.add_right_comm, run, hstep]
    exact hrun n

end Lexer

open Lexeme

/-- There are no more lexemes than characters of them. -/
theorem Lexeme.length_le_of_allRead {ls : List Lexeme} {cs : List Char} (h : AllRead ls cs) :
    ls.length ≤ (spell ls).length := by
  induction ls with
  | nil => simp
  | cons l ls ih =>
    have hpos := List.length_pos_iff.mpr h.1.nonempty
    have hrest := ih h.2
    rw [spell_cons, List.length_append, List.length_append, List.length_cons]
    omega

/-- No lexeme that is read closes a line. -/
theorem Lexeme.closesLine_of_allRead {ls : List Lexeme} {cs : List Char} (h : AllRead ls cs) :
    ∀ l ∈ ls, l.kind.closesLine = false := by
  induction ls with
  | nil => simp
  | cons l ls ih => exact List.forall_mem_cons.mpr ⟨h.1.inLine, ih h.2⟩

/-- Nor does a token that spells one. -/
theorem closesLine_of_spells {ts : List Token} {ls : List Lexeme}
    (h : List.Forall₂ Token.Spells ts ls) (hls : ∀ l ∈ ls, l.kind.closesLine = false) :
    ∀ t ∈ ts, t.kind.closesLine = false := by
  induction h with
  | nil => simp
  | cons htl _ ih =>
    obtain ⟨hl, hls⟩ := List.forall_mem_cons.mp hls
    exact List.forall_mem_cons.mpr ⟨by rw [htl.1, hl], ih hls⟩

namespace Lexer

/-- The first step leaves the beginning of a line that begins with a lexeme. -/
theorem step_of_lineStart {cs : List Char} {c : Char} {rest : List Char} (hcs : cs = c :: rest)
    (hc : startsToken c = true) :
    step { rest := cs } = some { rest := cs, atLineStart := false } := by
  simp only [startsToken, Bool.and_eq_true, Bool.not_eq_true', bne_iff_ne] at hc
  obtain ⟨⟨⟨hgap, hbreak⟩, hhash⟩, hslash⟩ := hc
  have hindent : spanIndent 0 cs = (0, [], cs) := by
    simp only [isGap, Bool.or_eq_false_iff, beq_eq_false_iff_ne] at hgap
    simp [hcs, spanIndent, hgap]
  have hskip : skip { rest := cs } [] cs = { rest := cs } := rfl
  simp only [step, lineStart, hindent, hskip]
  simp [hcs, hbreak, hhash, hslash, indentTo]

/-- At the end no step is made. -/
theorem step_of_end {s : Lexer} (hline : s.atLineStart = false) (hrest : s.rest = []) :
    s.step = none := by
  rw [step_of_line hline]
  unfold token
  simp only [hrest]
  rfl

/-- Where only a line is open at the end, it is closed. -/
theorem finish_of_line {s : Lexer} {last : Token} {others : List Token} (hdepth : s.depth = 0)
    (hindents : s.indents = [0]) (htokens : s.tokens = last :: others)
    (hlast : last.kind.closesLine = false) (stop : Nat) :
    ∃ newline eof : Token, (s.finish stop).tokens = eof :: newline :: s.tokens ∧
      (s.finish stop).issues = s.issues ∧ newline.kind = .newline ∧ eof.kind = .eof := by
  refine ⟨⟨.newline, ⟨stop, stop⟩, ""⟩, ⟨.eof, ⟨stop, stop⟩, ""⟩, ?_, ?_, rfl, rfl⟩ <;>
    simp [finish, hdepth, hindents, htokens, hlast, mark, emit, skip, Text.byteLength]

end Lexer

/-- A run over a whole text gives its tokens, up to the end of the line. -/
theorem tokenize_of_run {cs : List Char} {s : Lexer} (hmark : ∀ c ∈ cs.head?, c.toNat ≠ 0xfeff)
    (hrun : Lexer.run (2 * cs.length + 2) { rest := cs } = s) :
    tokenize (String.ofList cs) = ((s.finish (Text.byteLength cs)).tokens.reverse,
      (s.finish (Text.byteLength cs)).issues.reverse) := by
  unfold tokenize
  rw [String.toList_ofList]
  cases cs with
  | nil => simp only [hrun]
  | cons c rest => simp only [hmark c rfl, if_false, hrun]

/-- A text that is spelled by lexemes, the first of which begins the line, has these as its tokens
    and behind them the ends of the line and of the text. -/
theorem tokenize_spell {l : Lexeme} {ls : List Lexeme} {c : Char} {t : List Char}
    (hfirst : l.spaced = false) (htext : l.text = c :: t) (hc : startsToken c = true)
    (hmark : c.toNat ≠ 0xfeff) (hread : AllRead (l :: ls) [])
    (hdepth : depthsAfter? 0 (l :: ls) = some 0) :
    ∃ ts newline eof, tokenize (String.ofList (spell (l :: ls))) = (ts ++ [newline, eof], []) ∧
      List.Forall₂ Token.Spells ts (l :: ls) ∧ newline.kind = .newline ∧ eof.kind = .eof := by
  have hlength := length_le_of_allRead hread
  obtain ⟨rest, hrest⟩ : ∃ rest, spell (l :: ls) = c :: rest := by
    rw [spell_cons, htext, gap, hfirst]
    exact ⟨_, rfl⟩
  generalize hcs : spell (l :: ls) = cs at hlength hrest
  obtain ⟨s, hpassed, hrun⟩ := Lexer.exists_run_of_allRead (s := { rest := cs, atLineStart := false })
    hread rfl (by rw [List.append_nil, hcs]) hdepth
  -- a step for the beginning of the line, one for each lexeme, and one that finds the end
  have hwalk : Lexer.run (2 * cs.length + 2) { rest := cs } = s := by
    obtain ⟨n, hn⟩ : ∃ n, 2 * cs.length + 2 = ((l :: ls).length + (n + 1)) + 1 :=
      ⟨2 * cs.length - (l :: ls).length, by omega⟩
    rw [hn, Lexer.run, Lexer.step_of_lineStart hrest hc]
    exact (hrun (n + 1)).trans
      (by rw [Lexer.run, Lexer.step_of_end hpassed.atLineStart hpassed.rest])
  obtain ⟨ts, htokens, hspells⟩ := hpassed.tokens
  rw [List.append_nil] at htokens
  cases hreverse : ts.reverse with
  | nil =>
    rw [List.reverse_eq_nil_iff.mp hreverse] at hspells
    cases hspells
  | cons last others =>
    have hlast : last.kind.closesLine = false :=
      closesLine_of_spells hspells (closesLine_of_allRead hread) last
        (List.mem_reverse.mp (by rw [hreverse]; exact List.mem_cons_self))
    obtain ⟨newline, eof, hfinish, hissues, hnewline, heof⟩ := Lexer.finish_of_line hpassed.depth
      hpassed.indents (htokens.trans hreverse) hlast (Text.byteLength cs)
    refine ⟨ts, newline, eof, ?_, hspells, hnewline, heof⟩
    rw [tokenize_of_run (by simpa [hrest] using hmark) hwalk, hfinish, hissues, hpassed.issues,
      htokens]
    simp

end PackageDoc
