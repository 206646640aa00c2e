import PackageDoc.Syntax.StringLiteral
import PackageDoc.Token.Lexer
import Mathlib.Data.List.TakeDrop

namespace PackageDoc

/-!
# Quoting a text

Any text can be written between quotes of any kind, with a backslash in front of what would end the
literal or its line.  What looks for the end of the literal and what carries out the escapes agree
about it.

* `Quotes` — the quotes of a literal, and `Quotes.literal`, a text between them;
* `Quotes.spanString_escaped` — the closing quotes are found behind the text;
* `unescape_escaped` — carrying out the escapes gives the text back;
* `decodeLiteral_quoted` — decoding a literal gives the text between its quotes.
-/

/-- The quotes on either side of a literal. -/
structure Quotes where
  mark : Char
  /-- Are there three of them? -/
  tripled : Bool
  isMark : isQuote mark = true

namespace Quotes

/-- The quotes on one side behind the first of them. -/
def others (q : Quotes) : List Char :=
  if q.tripled then [q.mark, q.mark] else []

/-- The quotes on one side. -/
def text (q : Quotes) : List Char :=
  q.mark :: q.others

/-- How a character is written between the quotes. -/
def escapedChar (q : Quotes) (c : Char) : List Char :=
  if c = '\\' then ['\\', '\\']
  else if c = q.mark then ['\\', q.mark]
  else if q.tripled then [c]
  else if c = '\n' then ['\\', 'n']
  else if c = '\r' then ['\\', 'r']
  else [c]

/-- How a text is written between the quotes. -/
def escaped (q : Quotes) (cs : List Char) : List Char :=
  cs.flatMap q.escapedChar

/-- The literal that stands for a text. -/
def literal (q : Quotes) (cs : List Char) : List Char :=
  q.text ++ (q.escaped cs ++ q.text)

/-- The raw literal that stands for a text, if any does. -/
def raw (q : Quotes) (cs : List Char) : List Char :=
  'r' :: (q.text ++ (cs ++ q.text))

/-- A text that needs no escape between the quotes, and has no line break even if they are tripled. -/
def Verbatim (q : Quotes) (cs : List Char) : Prop :=
  ∀ c ∈ cs, c ≠ '\\' ∧ c ≠ q.mark ∧ isLineBreak c = false

instance (q : Quotes) (cs : List Char) : Decidable (q.Verbatim cs) :=
  List.decidableBAll (fun c => c ≠ '\\' ∧ c ≠ q.mark ∧ isLineBreak c = false) cs

variable (q : Quotes)

/-! ### The quotes -/

/-- A quote is a single or a double one. -/
theorem mark_eq : q.mark = '\'' ∨ q.mark = '"' := by
  simpa [isQuote] using q.isMark

/-- It is no backslash. -/
theorem mark_ne_backslash : q.mark ≠ '\\' := by
  rcases q.mark_eq with h | h <;> · rw [h]; decide

/-- Nor is it a line break. -/
theorem isLineBreak_mark : isLineBreak q.mark = false := by
  rcases q.mark_eq with h | h <;> · rw [h]; rfl

/-- It is written once or three times. -/
theorem text_eq : q.text = if q.tripled then [q.mark, q.mark, q.mark] else [q.mark] := by
  unfold text others
  split <;> rfl

/-! ### Characters between the quotes -/

/-- A character is written as itself, if it does not end the literal, or behind a backslash. -/
theorem escapedChar_cases (c : Char) :
    (q.escapedChar c = [c] ∧ c ≠ '\\' ∧ c ≠ q.mark ∧ (isLineBreak c && !q.tripled) = false) ∨
      ∃ d, q.escapedChar c = ['\\', d] ∧ simpleEscape? d = some c ∧ d ≠ '\n' ∧ d ≠ '\r' := by
  unfold escapedChar
  -- a backslash, the quote, any other character of a tripled literal, `\n`, `\r` and the rest
  split
  · rename_i hc
    exact .inr ⟨'\\', rfl, by rw [hc]; rfl, by decide, by decide⟩
  split
  · rename_i hc
    refine .inr ⟨q.mark, rfl, ?_, ?_⟩ <;> rcases q.mark_eq with h | h <;> simp [hc, h, simpleEscape?]
  split
  · rename_i hslash hmark htripled
    exact .inl ⟨rfl, hslash, hmark, by simp [htripled]⟩
  split
  · rename_i hc
    exact .inr ⟨'n', rfl, by rw [hc]; rfl, by decide, by decide⟩
  split
  · rename_i hc
    exact .inr ⟨'r', rfl, by rw [hc]; rfl, by decide, by decide⟩
  · rename_i hslash hmark _ hline hreturn
    exact .inl ⟨rfl, hslash, hmark, by simp [isLineBreak, hline, hreturn]⟩

@[simp] theorem escaped_nil : q.escaped [] = [] := rfl

/-- A text is escaped character by character. -/
@[simp] theorem escaped_cons (c : Char) (cs : List Char) :
    q.escaped (c :: cs) = q.escapedChar c ++ q.escaped cs := rfl

/-- What is written verbatim is written as it is. -/
theorem escaped_of_verbatim {cs : List Char} (h : q.Verbatim cs) : q.escaped cs = cs := by
  induction cs with
  | nil => rfl
  | cons c cs ih =>
    obtain ⟨⟨hslash, hmark, hbreak⟩, hcs⟩ := List.forall_mem_cons.mp h
    simp only [isLineBreak, Bool.or_eq_false_iff, beq_eq_false_iff_ne] at hbreak
    rw [escaped_cons, ih hcs, escapedChar, if_neg hslash, if_neg hmark, if_neg hbreak.1,
      if_neg hbreak.2, ite_self, List.singleton_append]

/-- Behind the opening quote do not stand two others, if it is not tripled. -/
theorem isPrefixOf_escaped (value : List Char) {cs : List Char}
    (hcs : cs.head? ≠ some q.mark) :
    [q.mark, q.mark].isPrefixOf (q.escaped value ++ q.mark :: cs) = false := by
  cases value with
  | nil =>
    cases cs with
    | nil => simp [List.isPrefixOf]
    | cons d cs =>
      have hd : (q.mark == d) = false := beq_eq_false_iff_ne.mpr fun h => hcs (by rw [h]; rfl)
      simp [List.isPrefixOf, hd]
  | cons c value =>
    obtain ⟨hchar, -, hmark, -⟩ | ⟨d, hchar, -⟩ := q.escapedChar_cases c
    · simp [hchar, List.isPrefixOf, Ne.symm hmark]
    · simp [hchar, List.isPrefixOf, q.mark_ne_backslash]

end Quotes

/-! ### The end of a literal -/

/-- A character that is no backslash. -/
theorem spanString_cons {quote c : Char} {triple : Bool} {cs : List Char} (hc : c ≠ '\\') :
    spanString quote triple (c :: cs) =
      if isLineBreak c && !triple then ⟨[], c :: cs, false⟩
      else if c = quote then
        if !triple then ⟨[c], cs, true⟩
        else if [quote, quote].isPrefixOf cs then ⟨[c, quote, quote], cs.drop 2, true⟩
        else (spanString quote triple cs).after [c]
      else (spanString quote triple cs).after [c] := by
  conv_lhs => unfold spanString
  split
  · rename_i h
    cases h
  -- the forms that begin with a backslash
  · exact absurd (List.cons.inj ‹_›).1 hc
  · exact absurd (List.cons.inj ‹_›).1 hc
  · exact absurd (List.cons.inj ‹_›).1 hc
  -- the next two characters are both the quote, or `isPrefixOf` is false
  · obtain ⟨rfl, rfl⟩ := List.cons.inj ‹_›
    rcases cs with _ | ⟨c₁, _ | ⟨c₂, cs⟩⟩
    · rfl
    · simp
    · by_cases h : c₁ = quote ∧ c₂ = quote
      · obtain ⟨rfl, rfl⟩ := h
        simp [List.isPrefixOf]
      · have hbegin : [quote, quote].isPrefixOf (c₁ :: c₂ :: cs) = false := by
          grind [List.isPrefixOf]
        rw [hbegin]
        simp [h]

/-- A backslash protects the character behind it. -/
theorem spanString_escape {quote c : Char} {triple : Bool} (hc : c ≠ '\r') (cs : List Char) :
    spanString quote triple ('\\' :: c :: cs) = (spanString quote triple cs).after ['\\', c] := by
  rw [spanString.eq_def]
  simp [hc]

/-- A string ends at its closing quote. -/
theorem Quotes.spanString_text (q : Quotes) (cs : List Char) :
    spanString q.mark q.tripled (q.text ++ cs) = ⟨q.text, cs, true⟩ := by
  rw [text, List.cons_append, spanString_cons q.mark_ne_backslash, q.isLineBreak_mark]
  cases htripled : q.tripled <;> simp [others, htripled]

/-- **The closing quotes are found behind an escaped text**, whatever stands behind them. -/
theorem Quotes.spanString_escaped (q : Quotes) (value cs : List Char) :
    spanString q.mark q.tripled (q.escaped value ++ (q.text ++ cs)) =
      ⟨q.escaped value ++ q.text, cs, true⟩ := by
  induction value with
  | nil => exact q.spanString_text cs
  | cons c value ih =>
    rw [escaped_cons, List.append_assoc]
    obtain ⟨hchar, hslash, hmark, hbreak⟩ | ⟨d, hchar, -, -, hreturn⟩ := q.escapedChar_cases c
    · rw [hchar, List.singleton_append, spanString_cons hslash, hbreak, if_neg Bool.false_ne_true,
        if_neg hmark, ih]
      rfl
    · rw [hchar, List.cons_append, List.cons_append, List.nil_append, spanString_escape hreturn, ih]
      rfl

/-! ### Escapes -/

/-- Anything but a backslash stands for itself. -/
theorem unescapeFrom_plain {c : Char} (hc : c ≠ '\\') (cs : List Char) :
    unescapeFrom 0 (c :: cs) = c :: unescapeFrom 0 cs := by
  rw [unescapeFrom.eq_def]
  simp [hc]

/-- **Carrying out the escapes of an escaped text gives the text.** -/
theorem unescape_escaped (q : Quotes) (value : List Char) : unescape (q.escaped value) = value := by
  rw [unescape]
  induction value with
  | nil => rfl
  | cons c value ih =>
    rw [Quotes.escaped_cons]
    obtain ⟨hchar, hslash, -⟩ | ⟨d, hchar, hvalue, hline, hreturn⟩ := q.escapedChar_cases c
    · rw [hchar, List.singleton_append, unescapeFrom_plain hslash, ih]
    · have hescape : ∀ cs, escapeValue d cs = ([c], 0) := by
        intro cs
        rw [escapeValue, if_neg hline, if_neg hreturn, hvalue]
      rw [hchar, List.cons_append, List.singleton_append, unescapeFrom, hescape, ih]
      rfl

/-! ### Decoding -/

/-- A prefix is stripped off. -/
theorem stripStart?_append (p cs : List Char) : Text.stripStart? p (p ++ cs) = some cs := by
  induction p with
  | nil => rfl
  | cons c p ih => rw [List.cons_append, Text.stripStart?, if_pos rfl, ih]

/-- So is a suffix. -/
theorem stripEnd?_append (p cs : List Char) : Text.stripEnd? p (cs ++ p) = some cs := by
  rw [Text.stripEnd?, List.reverse_append, stripStart?_append, Option.map_some, List.reverse_reverse]

/-- Only a prefix is. -/
theorem stripStart?_eq_some {p cs rest : List Char} :
    Text.stripStart? p cs = some rest ↔ cs = p ++ rest := by
  constructor
  · intro h
    induction p generalizing cs with
    | nil => exact Option.some.inj h
    | cons c p ih =>
      cases cs with
      | nil => exact absurd h (by simp [Text.stripStart?])
      | cons c' cs =>
        rw [Text.stripStart?] at h
        split at h
        · rename_i heq
          rw [heq, ih h, List.cons_append]
        · exact absurd h (by simp)
  · rintro rfl
    exact stripStart?_append p rest

/-- Only a suffix is. -/
theorem stripEnd?_eq_some {p cs rest : List Char} :
    Text.stripEnd? p cs = some rest ↔ cs = rest ++ p := by
  constructor
  · intro h
    obtain ⟨more, hmore, rfl⟩ := Option.map_eq_some_iff.mp h
    rw [← List.reverse_reverse cs, stripStart?_eq_some.mp hmore, List.reverse_append,
      List.reverse_reverse]
  · rintro rfl
    exact stripEnd?_append p rest

/-- Which quotes these are shows behind the first of them. -/
theorem Quotes.isPrefixOf_others (q : Quotes) (value : List Char) {cs : List Char}
    (hcs : cs.head? ≠ some q.mark) :
    [q.mark, q.mark].isPrefixOf (q.others ++ (q.escaped value ++ (q.text ++ cs))) = q.tripled := by
  cases htripled : q.tripled with
  | false =>
    have hopening := q.isPrefixOf_escaped value hcs
    simpa [others, text, htripled] using hopening
  | true => simp [others, htripled]

/-- The body of a literal is what stands between its quotes. -/
theorem Quotes.literalBody_literal (q : Quotes) (value : List Char) :
    literalBody (q.literal value) = q.escaped value := by
  have hopening : [q.mark, q.mark].isPrefixOf (q.others ++ (q.escaped value ++ (q.text ++ []))) =
      q.tripled := q.isPrefixOf_others value (by simp)
  rw [List.append_nil] at hopening
  have hcons : q.literal value = q.mark :: (q.others ++ (q.escaped value ++ q.text)) := rfl
  rw [hcons, literalBody]
  simp only [hopening]
  rw [← text_eq, ← hcons, literal, List.drop_left, stripEnd?_append, Option.getD_some]

/-- Decoding a literal with letters in front of it, in which no quote stands. -/
theorem Quotes.decodeLiteral_append (q : Quotes) (lead : List Char)
    (hlead : ∀ c ∈ lead, isQuote c = false) (value : List Char) :
    decodeLiteral (String.ofList (lead ++ q.literal value)) =
      { value := String.ofList (if (lead.map Char.toLower).contains 'r' then q.escaped value
          else value)
        isBytes := (lead.map Char.toLower).contains 'b'
        isFormatted := (lead.map Char.toLower).contains 'f' } := by
  have hspan : (lead ++ q.literal value).span (fun c => !isQuote c) = (lead, q.literal value) := by
    rw [List.span_eq_takeWhile_dropWhile, List.takeWhile_append_of_pos (by simpa using hlead),
      List.dropWhile_append_of_pos (by simpa using hlead), literal, text, List.cons_append,
      List.takeWhile_cons_of_neg (by simp [q.isMark]), List.dropWhile_cons_of_neg (by simp [q.isMark]),
      List.append_nil]
  simp only [decodeLiteral, literalContent, String.toList_ofList, hspan, literalBody_literal, unescape_escaped]

/-- **Decoding a literal gives the text between its quotes.** -/
theorem decodeLiteral_quoted (q : Quotes) (value : String) :
    decodeLiteral (String.ofList (q.literal value.toList)) = ⟨value, false, false⟩ := by
  have hdecode := q.decodeLiteral_append [] (by simp) value.toList
  rw [List.nil_append] at hdecode
  simp [hdecode, String.ofList_toList]

/-- A raw literal is the literal behind an `r`. -/
theorem Quotes.raw_eq (q : Quotes) {cs : List Char} (h : q.Verbatim cs) :
    q.raw cs = 'r' :: q.literal cs := by
  rw [raw, literal, q.escaped_of_verbatim h]

/-- A raw literal is decoded without any escape, and needs none. -/
theorem decodeLiteral_raw (q : Quotes) {value : String} (h : q.Verbatim value.toList) :
    decodeLiteral (String.ofList (q.raw value.toList)) = ⟨value, false, false⟩ := by
  have hdecode := q.decodeLiteral_append ['r'] (by simp [isQuote]) value.toList
  rw [List.singleton_append, ← q.raw_eq h, q.escaped_of_verbatim h, ite_self,
    String.ofList_toList] at hdecode
  exact hdecode

end PackageDoc
