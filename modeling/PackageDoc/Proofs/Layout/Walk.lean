import Mathlib.Data.List.TakeDrop
import PackageDoc.Proofs.Layout.Lines

namespace PackageDoc

/-!
# The walk over a text

What each step of the lexer passes over and what it emits.

* `spanString_append` and the like — a text is cut in two without a loss;
* `Lexer.LiteralStep`, `Lexer.WordStep` and `Lexer.PunctuationStep` — what the readers can do;
* `Lexer.Emits` — a step that reads a part of a statement;
* `Lexer.TokenStep` and `Lexer.LineStep` — what a step inside a line can do, and one at the beginning
  of a line;
* `Lexer.MarksBlocks` — how blocks are opened and closed;
* `Lexer.run_induction` — what every step preserves holds behind the walk;
* `Lexer.Reads` and `Lexer.reads_token` — what a step inside a line does where nothing is reported;
* `Lexer.Reads.measure_lt` — the walk comes to an end where nothing is reported.
-/

/-! ### Cuts -/

/-- A line break that is cut off and the rest are the text. -/
theorem spanLineBreak_append (cs : List Char) :
    (spanLineBreak cs).1 ++ (spanLineBreak cs).2 = cs := by
  unfold spanLineBreak
  split <;> rfl

/-- A character that ends a line begins a line terminator. -/
theorem spanLineBreak_of_isLineBreak {c : Char} (cs : List Char) (h : isLineBreak c = true) :
    ∃ more, (spanLineBreak (c :: cs)).1 = c :: more := by
  simp only [isLineBreak, Bool.or_eq_true, beq_iff_eq] at h
  rcases h with rfl | rfl
  · exact ⟨[], by simp [spanLineBreak]⟩
  · cases cs with
    | nil => exact ⟨[], by simp [spanLineBreak]⟩
    | cons d cs =>
      by_cases hd : d = '\n'
      · subst hd
        exact ⟨['\n'], by simp [spanLineBreak]⟩
      · exact ⟨[], by simp [spanLineBreak, hd]⟩

/-- What is cut off as a line break is one. -/
theorem spanLineBreak_isLineBreak (cs : List Char) :
    ∀ d ∈ (spanLineBreak cs).1, isLineBreak d = true := by
  unfold spanLineBreak
  split <;> simp [isLineBreak]

/-- Cutting a line break off leaves no more than there was. -/
theorem length_spanLineBreak_le (cs : List Char) : (spanLineBreak cs).2.length ≤ cs.length := by
  have hlength := congrArg List.length (spanLineBreak_append cs)
  rw [List.length_append] at hlength
  omega

/-- A line that is cut off and the rest are the text. -/
theorem spanLine_append (cs : List Char) : (spanLine cs).1 ++ (spanLine cs).2 = cs := by
  rw [spanLine, List.span_eq_takeWhile_dropWhile, List.takeWhile_append_dropWhile]

/-- So are a run of characters and the rest. -/
theorem span_append_self (p : Char → Bool) (cs : List Char) : (cs.span p).1 ++ (cs.span p).2 = cs := by
  rw [List.span_eq_takeWhile_dropWhile, List.takeWhile_append_dropWhile]

/-- So are a number and the rest. -/
theorem spanNumber_append (hex : Bool) (prev : Char) (cs : List Char) :
    (spanNumber hex prev cs).1 ++ (spanNumber hex prev cs).2 = cs := by
  induction cs generalizing prev with
  | nil => rfl
  | cons c cs ih =>
    rw [spanNumber]
    dsimp only
    split
    · rw [List.cons_append, ih]
    · rfl

/-- So are a string and the rest. -/
theorem spanString_append (quote : Char) (triple : Bool) (cs : List Char) :
    (spanString quote triple cs).text ++ (spanString quote triple cs).rest = cs := by
  fun_induction spanString quote triple cs <;> simp_all [StringBody.after]

/-- The column behind a blank, if the character is one. -/
theorem spanIndent_cons (column : Nat) (c : Char) (cs : List Char) :
    (isGap c = true ∧ ∃ column', ∀ ds, spanIndent column (c :: ds) =
        ((spanIndent column' ds).1, c :: (spanIndent column' ds).2.1, (spanIndent column' ds).2.2)) ∨
      (isGap c = false ∧ spanIndent column (c :: cs) = (column, [], c :: cs)) := by
  by_cases hspace : c = ' '
  · exact .inl ⟨by simp [isGap, hspace], column + 1, fun ds => by simp [spanIndent, hspace]⟩
  · by_cases htab : c = '\t'
    · exact .inl ⟨by simp [isGap, htab], (column / tabSize + 1) * tabSize,
        fun ds => by simp [spanIndent, htab]⟩
    · by_cases hfeed : c = '\x0c'
      · exact .inl ⟨by simp [isGap, hfeed], 0, fun ds => by simp [spanIndent, hfeed]⟩
      · exact .inr ⟨by simp [isGap, hspace, htab, hfeed],
          by simp [spanIndent, hspace, htab, hfeed]⟩

/-- The blanks at the beginning of a line lead to a column, whatever stands behind them. -/
theorem spanIndent_spec (column : Nat) (cs : List Char) :
    (spanIndent column cs).2.1 ++ (spanIndent column cs).2.2 = cs ∧
      (∀ c ∈ (spanIndent column cs).2.1, isGap c = true) ∧
      (∀ c ∈ (spanIndent column cs).2.2.head?, isGap c = false) ∧
      (spanIndent column (spanIndent column cs).2.1).1 = (spanIndent column cs).1 := by
  induction cs generalizing column with
  | nil => simp [spanIndent]
  | cons c cs ih =>
    rcases spanIndent_cons column c cs with ⟨hc, column', heq⟩ | ⟨hc, heq⟩
    · obtain ⟨happend, hgap, hhead, hcolumn⟩ := ih column'
      rw [heq]
      refine ⟨by rw [List.cons_append, happend], List.forall_mem_cons.mpr ⟨hc, hgap⟩, hhead, ?_⟩
      rw [heq]
      exact hcolumn
    · rw [heq]
      simp [hc, spanIndent]

/-! ### Readers -/

namespace Lexer

variable {s s' : Lexer} {text rest : List Char} {kind : TokenKind} {c quote : Char} {cs : List Char}

/-- What reading the string literal `text` can do: it is reported if nothing closes it. -/
inductive LiteralStep (s : Lexer) (text rest : List Char) : Lexer → Prop
  | closed : LiteralStep s text rest (s.emit .string text rest)
  | unclosed (error : SyntaxError)
    (herror : error = .unterminatedString ∨ error = .unterminatedTripleString) :
    LiteralStep s text rest ((s.report error text).emit .string text rest)

/-- **A string literal** begins with the letters in front of its quote. -/
theorem exists_literalStep (s : Lexer) (lead : List Char) (quote : Char) (cs : List Char) :
    ∃ text rest, lead ++ quote :: cs = text ++ rest ∧ text ≠ [] ∧
      LiteralStep s text rest (s.stringLiteral lead quote cs) := by
  unfold stringLiteral
  dsimp only
  generalize htriple : [quote, quote].isPrefixOf cs = triple
  generalize hopening : (if triple = true then [quote, quote, quote] else [quote]) = opening
  generalize hbody : spanString quote triple (if triple = true then cs.drop 2 else cs) = body
  refine ⟨lead ++ opening ++ body.text, body.rest, ?_, ?_, ?_⟩
  · have hparts := spanString_append quote triple (if triple = true then cs.drop 2 else cs)
    rw [hbody] at hparts
    rw [List.append_assoc _ body.text, hparts, List.append_assoc, ← hopening]
    cases triple with
    | false => rfl
    | true =>
      obtain ⟨cs, rfl⟩ := List.isPrefixOf_iff_prefix.mp htriple
      rfl
  · rw [← hopening]
    cases triple <;> simp
  · split
    · exact .closed
    · split
      · exact .unclosed _ (.inr rfl)
      · exact .unclosed _ (.inl rfl)

/-- What a word is that is no string literal. -/
def wordKind (text : List Char) : TokenKind :=
  match Keyword.ofText? (String.ofList text) with
  | some keyword => .keyword keyword
  | none => .name

/-- A word is a part of a statement, and neither a bracket nor a literal. -/
theorem wordKind_spec (text : List Char) :
    (wordKind text).isContent = true ∧ (wordKind text).isOpenBracket = false ∧
      (wordKind text).isCloseBracket = false ∧ wordKind text ≠ .string := by
  unfold wordKind
  split <;> exact ⟨rfl, rfl, rfl, TokenKind.noConfusion⟩

/-- Do letters and a quote behind them begin a string literal? -/
def beginsLiteral (text more : List Char) : Bool :=
  more.head?.any fun c => (c = '"' || c = '\'') && isStringLead text

/-- A literal begins with a prefix and a quote. -/
theorem exists_of_beginsLiteral {more : List Char} (h : beginsLiteral text more = true) :
    ∃ quote cs, more = quote :: cs ∧ (quote = '"' ∨ quote = '\'') ∧ isStringLead text = true := by
  cases more with
  | nil => cases h
  | cons quote cs =>
    obtain ⟨hquote, hlead⟩ : (quote = '"' ∨ quote = '\'') ∧ isStringLead text = true := by
      simpa [beginsLiteral] using h
    exact ⟨quote, cs, rfl, hquote, hlead⟩

/-- A word that is a prefix in front of a quote is read as a literal. -/
theorem word_literal (hspan : s.rest.span isNamePart = (text, quote :: cs))
    (h : beginsLiteral text (quote :: cs) = true) : s.word = s.stringLiteral text quote cs := by
  unfold word
  rw [hspan]
  exact if_pos h

/-- Any other is read as a name or a keyword. -/
theorem word_name {more : List Char} (hspan : s.rest.span isNamePart = (text, more))
    (h : beginsLiteral text more = false) : s.word = s.emit (wordKind text) text more := by
  unfold word wordKind
  rw [hspan]
  dsimp only
  cases Keyword.ofText? (String.ofList text) with
  | none =>
    cases more with
    | nil => rfl
    | cons c more => exact if_neg (Bool.eq_false_iff.mp h)
  | some keyword =>
    cases more with
    | nil => rfl
    | cons c more => exact if_neg (Bool.eq_false_iff.mp h)

/-- What reading a word can do. -/
inductive WordStep (s : Lexer) : Lexer → Prop
  | literal {text cs : List Char} {quote : Char}
    (hspan : s.rest.span isNamePart = (text, quote :: cs)) (hquote : quote = '"' ∨ quote = '\'')
    (hlead : isStringLead text = true) : WordStep s (s.stringLiteral text quote cs)
  | letters {text rest : List Char} (hspan : s.rest.span isNamePart = (text, rest)) :
    WordStep s (s.emit (wordKind text) text rest)

/-- **A word** is a name or a keyword, unless it is the letters in front of a string literal. -/
theorem wordStep (s : Lexer) : WordStep s s.word := by
  obtain ⟨text, more, hspan⟩ : ∃ text more, s.rest.span isNamePart = (text, more) := ⟨_, _, rfl⟩
  cases hliteral : beginsLiteral text more with
  | true =>
    obtain ⟨quote, cs, rfl, hquote, hlead⟩ := exists_of_beginsLiteral hliteral
    exact word_literal hspan hliteral ▸ .literal hspan hquote hlead
  | false => exact word_name hspan hliteral ▸ .letters hspan

/-- The operator or delimiter that some characters begin with, and what stands behind it. -/
structure BeginsWith (cs text : List Char) (kind : TokenKind) (rest : List Char) : Prop where
  found : operators.find? (fun op => op.1.isPrefixOf cs) = some (text, kind)
  cut : cs = text ++ rest

/-- Every operator has characters and is a part of a statement, and none is a literal. -/
theorem operators_spec : ∀ op ∈ operators, op.1 ≠ [] ∧ op.2.isContent = true ∧ op.2 ≠ .string := by
  decide

/-- An operator has characters, and is content other than a string. -/
theorem BeginsWith.spec (h : BeginsWith cs text kind rest) :
    text ≠ [] ∧ kind.isContent = true ∧ kind ≠ .string :=
  operators_spec _ (List.mem_of_find?_eq_some h.found)

/-- The operator that is found is the one that begins the text. -/
theorem beginsWith_of_find? (h : operators.find? (fun op => op.1.isPrefixOf cs) = some (text, kind)) :
    BeginsWith cs text kind (cs.drop text.length) := by
  have hfits : text.isPrefixOf cs = true := by simpa using List.find?_some h
  obtain ⟨rest, hprefix⟩ := List.isPrefixOf_iff_prefix.mp hfits
  exact ⟨h, by rw [← hprefix, List.drop_left]⟩

/-- A text begins with one operator at most. -/
theorem BeginsWith.unique {text' rest' : List Char} {kind' : TokenKind}
    (h : BeginsWith cs text kind rest) (h' : BeginsWith cs text' kind' rest') :
    text = text' ∧ kind = kind' ∧ rest = rest' := by
  obtain ⟨rfl, rfl⟩ := Prod.mk.inj (Option.some.inj (h.found.symm.trans h'.found))
  exact ⟨rfl, rfl, List.append_cancel_left (h.cut.symm.trans h'.cut)⟩

/-- What reading an operator or a delimiter at `c` can do, with `cs` behind it. -/
inductive PunctuationStep (s : Lexer) (c : Char) (cs : List Char) : Lexer → Prop
  | invalid (hnone : operators.find? (fun op => op.1.isPrefixOf (c :: cs)) = none) :
    PunctuationStep s c cs ((s.report (.invalidCharacter c) [c]).emit .error [c] cs)
  | opens {text rest : List Char} {kind : TokenKind} (h : BeginsWith (c :: cs) text kind rest)
    (hopen : kind.isOpenBracket = true) :
    PunctuationStep s c cs ({ s with depth := s.depth + 1 }.emit kind text rest)
  | stray {text rest : List Char} {kind : TokenKind} (h : BeginsWith (c :: cs) text kind rest)
    (hopen : kind.isOpenBracket = false) (hclose : kind.isCloseBracket = true)
    (hdepth : s.depth = 0) :
    PunctuationStep s c cs ((s.report .unmatchedBracket text).emit kind text rest)
  | closes {text rest : List Char} {kind : TokenKind} (h : BeginsWith (c :: cs) text kind rest)
    (hopen : kind.isOpenBracket = false) (hclose : kind.isCloseBracket = true)
    (hdepth : s.depth ≠ 0) :
    PunctuationStep s c cs ({ s with depth := s.depth - 1 }.emit kind text rest)
  | plain {text rest : List Char} {kind : TokenKind} (h : BeginsWith (c :: cs) text kind rest)
    (hopen : kind.isOpenBracket = false) (hclose : kind.isCloseBracket = false) :
    PunctuationStep s c cs (s.emit kind text rest)

/-- **An operator or a delimiter** is read, with the open brackets counted. -/
theorem punctuationStep (s : Lexer) (c : Char) (cs : List Char) :
    PunctuationStep s c cs (s.punctuation c cs) := by
  unfold punctuation
  split
  · exact .invalid ‹_›
  · rename_i text kind hfind
    have hbegins := beginsWith_of_find? hfind
    dsimp only
    split
    · exact .opens hbegins ‹_›
    · rename_i hopen
      have hopen := Bool.eq_false_iff.mpr hopen
      split
      · split
        · exact .stray hbegins hopen ‹_› ‹_›
        · exact .closes hbegins hopen ‹_› ‹_›
      · rename_i hclose
        exact .plain hbegins hopen (Bool.eq_false_iff.mpr hclose)

/-! ### Reading a part of a statement -/

/-- The step reads `text`, which is not empty, as a part of a statement. -/
structure Emits (s s' : Lexer) (text : List Char) : Prop where
  rest : s.rest = text ++ s'.rest
  ne_nil : text ≠ []
  offset : s'.offset = s.offset + Text.byteLength text
  indents : s'.indents = s.indents
  atLineStart : s'.atLineStart = s.atLineStart
  tokens : ∃ kind : TokenKind, kind.isContent = true ∧
    s'.tokens = ⟨kind, ⟨s.offset, s'.offset⟩, String.ofList text⟩ :: s.tokens
  issues : s'.issues = [] → s.issues = []

/-- Making a token of characters emits it. -/
theorem emits_emit (depth : Nat) (hrest : s.rest = text ++ rest) (hne : text ≠ [])
    (hkind : kind.isContent = true) :
    Emits s ({ s with depth := depth }.emit kind text rest) text :=
  ⟨hrest, hne, rfl, rfl, rfl, ⟨kind, hkind, rfl⟩, id⟩

/-- So it does when something is reported of them. -/
theorem emits_report (error : SyntaxError) (hrest : s.rest = text ++ rest) (hne : text ≠ [])
    (hkind : kind.isContent = true) : Emits s ((s.report error text).emit kind text rest) text :=
  ⟨hrest, hne, rfl, rfl, rfl, ⟨kind, hkind, rfl⟩, fun hnil => absurd hnil (by simp [emit, skip, report])⟩

/-- A string literal emits a token. -/
theorem LiteralStep.emits (h : LiteralStep s text rest s') (hrest : s.rest = text ++ rest)
    (hne : text ≠ []) : Emits s s' text := by
  cases h with
  | closed => exact emits_emit s.depth hrest hne rfl
  | unclosed error => exact emits_report error hrest hne rfl

/-- So does reading one. -/
theorem emits_stringLiteral (lead : List Char) (hrest : s.rest = lead ++ quote :: cs) :
    ∃ text, Emits s (s.stringLiteral lead quote cs) text := by
  obtain ⟨text, rest, hcut, hne, hstep⟩ := exists_literalStep s lead quote cs
  exact ⟨text, hstep.emits (hrest.trans hcut) hne⟩

/-- So does reading a number. -/
theorem emits_number (hrest : s.rest = c :: cs) : ∃ text, Emits s (s.number c cs) text := by
  refine ⟨_, emits_emit s.depth ?_ (List.cons_ne_nil _ _) rfl⟩
  rw [hrest, List.cons_append, spanNumber_append]

/-- A run and what is behind it make up the text. -/
theorem append_of_span {p : Char → Bool} (h : cs.span p = (text, rest)) : cs = text ++ rest := by
  have happend := span_append_self p cs
  rwa [h, eq_comm] at happend

/-- A word emits a token. -/
theorem WordStep.emits (h : WordStep s s') (hrest : s.rest = c :: cs) (hc : isNameStart c = true) :
    ∃ text, Emits s s' text := by
  cases h with
  | literal hspan => exact emits_stringLiteral _ (append_of_span hspan)
  | @letters text rest hspan =>
    have hne : text ≠ [] := by
      rw [hrest, List.span_eq_takeWhile_dropWhile] at hspan
      rw [← (Prod.mk.inj hspan).1]
      simp [isNamePart, hc]
    exact ⟨text, emits_emit s.depth (append_of_span hspan) hne (wordKind_spec text).1⟩

/-- So does a punctuation mark. -/
theorem PunctuationStep.emits (h : PunctuationStep s c cs s') (hrest : s.rest = c :: cs) :
    ∃ text, Emits s s' text := by
  cases h with
  | invalid => exact ⟨[c], emits_report _ hrest (List.cons_ne_nil _ _) rfl⟩
  | opens h | closes h | plain h =>
    exact ⟨_, emits_emit _ (hrest.trans h.cut) h.spec.1 h.spec.2.1⟩
  | stray h => exact ⟨_, emits_report _ (hrest.trans h.cut) h.spec.1 h.spec.2.1⟩

/-! ### What a step can do -/

/-- A part of a statement is read that begins with `c`, with `cs` behind it. -/
inductive ReadsPart (s : Lexer) (c : Char) (cs : List Char) : Lexer → Prop
  | string (hquote : c = '"' ∨ c = '\'') : ReadsPart s c cs (s.stringLiteral [] c cs)
  | number : ReadsPart s c cs (s.number c cs)
  | word (hname : isNameStart c = true) : ReadsPart s c cs s.word
  | punctuation : ReadsPart s c cs (s.punctuation c cs)

/-- A step inside a line that is taken at `c`, with `cs` behind it. -/
inductive TokenStep (s : Lexer) (c : Char) (cs : List Char) : Lexer → Prop
  | newline (hbreak : isLineBreak c = true) (hdepth : s.depth = 0) :
    TokenStep s c cs { s.emit .newline (spanLineBreak (c :: cs)).1 (spanLineBreak (c :: cs)).2 with
      atLineStart := true }
  | bracketedLineEnd (hbreak : isLineBreak c = true) (hdepth : 0 < s.depth) :
    TokenStep s c cs (s.skip (spanLineBreak (c :: cs)).1 (spanLineBreak (c :: cs)).2)
  | comment (hhash : c = '#') (hdepth : s.depth = 0) : TokenStep s c cs s.comment
  | bracketedComment (hhash : c = '#') (hdepth : 0 < s.depth) :
    TokenStep s c cs (s.skip (spanLine (c :: cs)).1 (spanLine (c :: cs)).2)
  | backslash (hslash : c = '\\') :
    TokenStep s c cs ((if (spanLineBreak cs).1.isEmpty then s.report .strayBackslash [c] else s).skip
      (c :: (spanLineBreak cs).1) (spanLineBreak cs).2)
  | part {s' : Lexer} (h : ReadsPart s c cs s') : TokenStep s c cs s'

/-- A step at the beginning of a line that is taken at `c`, which stands in `column`, with `cs` behind
    it. -/
inductive LineStep (s : Lexer) (column : Nat) (c : Char) (cs : List Char) : Lexer → Prop
  | blank (hbreak : isLineBreak c = true) : LineStep s column c cs s.blankLine
  | comment (hhash : c = '#') : LineStep s column c cs s.comment.blankLine
  | joined (hslash : c = '\\') (hbroken : (spanLineBreak cs).1 ≠ []) :
    LineStep s column c cs (s.skip (c :: (spanLineBreak cs).1) (spanLineBreak cs).2)
  | first (hbreak : isLineBreak c = false) (hhash : c ≠ '#')
    (hslash : c = '\\' → (spanLineBreak cs).1 = []) :
    LineStep s column c cs (Lexer.indentTo { s with atLineStart := false } column)

/-- Any part of a line emits a token. -/
theorem ReadsPart.emits (h : ReadsPart s c cs s') (hrest : s.rest = c :: cs) :
    ∃ text, Emits s s' text := by
  cases h with
  | string => exact emits_stringLiteral [] hrest
  | number => exact emits_number hrest
  | word hname => exact (wordStep s).emits hrest hname
  | punctuation => exact (punctuationStep s c cs).emits hrest

/-- **A step inside a line** passes over blanks and does one of the things above behind them. -/
theorem exists_tokenStep (h : s.token = some s') :
    ∃ gap c cs, s.rest = gap ++ c :: cs ∧ (∀ d ∈ gap, isGap d = true) ∧ isGap c = false ∧
      TokenStep (s.skip gap (c :: cs)) c cs s' := by
  unfold token at h
  dsimp only at h
  have hrest := (span_append_self isGap s.rest).symm
  have hgap : ∀ c ∈ (s.rest.span isGap).1, isGap c = true := by
    rw [List.span_eq_takeWhile_dropWhile]
    exact fun c hc => List.mem_takeWhile_imp hc
  have hhead : ∀ c ∈ (s.rest.span isGap).2.head?, isGap c = false := by
    rw [List.span_eq_takeWhile_dropWhile]
    intro c hc
    have hnot := List.head?_dropWhile_not isGap s.rest
    rw [hc] at hnot
    simpa using hnot
  generalize (s.rest.span isGap).1 = gap at h hrest hgap
  generalize (s.rest.span isGap).2 = behind at h hrest hhead
  split at h
  · cases h
  · rename_i c cs hbehind
    obtain rfl : behind = c :: cs := hbehind
    refine ⟨gap, c, cs, hrest, hgap, hhead c rfl, ?_⟩
    -- the tests of `token`, each of which stands for one or two of the steps
    split at h
    · rename_i hbreak
      split at h
      · exact Option.some.inj h ▸ .newline hbreak ‹_›
      · exact Option.some.inj h ▸ .bracketedLineEnd hbreak (Nat.pos_of_ne_zero ‹_›)
    · split at h
      · rename_i hhash
        split at h
        · exact Option.some.inj h ▸ .comment hhash ‹_›
        · exact Option.some.inj h ▸ .bracketedComment hhash (Nat.pos_of_ne_zero ‹_›)
      · split at h
        · exact Option.some.inj h ▸ .backslash ‹_›
        · split at h
          · rename_i hquote
            exact Option.some.inj h ▸ .part (.string (by simpa using hquote))
          · split at h
            · exact Option.some.inj h ▸ .part .number
            · split at h
              · exact Option.some.inj h ▸ .part (.word ‹_›)
              · exact Option.some.inj h ▸ .part .punctuation

/-- **A step at the beginning of a line** passes over blanks and does one of the things above behind
    them. -/
theorem exists_lineStep (h : s.lineStart = some s') :
    ∃ blanks c cs, s.rest = blanks ++ c :: cs ∧ (∀ d ∈ blanks, isGap d = true) ∧ isGap c = false ∧
      LineStep (s.skip blanks (c :: cs)) (spanIndent 0 blanks).1 c cs s' := by
  obtain ⟨hcut, hgap, hhead, hcolumn⟩ := spanIndent_spec 0 s.rest
  unfold lineStart at h
  dsimp only at h
  generalize spanIndent 0 s.rest = indent at h hcut hgap hhead hcolumn
  obtain ⟨column, blanks, behind⟩ := indent
  dsimp only at h hcut hgap hhead hcolumn
  split at h
  · cases h
  · rename_i c cs hbehind
    obtain rfl : behind = c :: cs := hbehind
    refine ⟨blanks, c, cs, hcut.symm, hgap, hhead c rfl, ?_⟩
    rw [hcolumn]
    split at h
    · exact Option.some.inj h ▸ .blank ‹_›
    · rename_i hbreak
      split at h
      · exact Option.some.inj h ▸ .comment ‹_›
      · rename_i hhash
        split at h
        · rename_i hjoined
          simp only [Bool.and_eq_true, decide_eq_true_eq, Bool.not_eq_true',
            List.isEmpty_eq_false_iff] at hjoined
          exact Option.some.inj h ▸ .joined hjoined.1 hjoined.2
        · rename_i hjoined
          refine Option.some.inj h ▸ .first (by simpa using hbreak) hhash ?_
          rintro rfl
          simpa using hjoined

/-! ### Blocks -/

/-- Blocks are opened and closed: their beginnings and ends are marked, columns are put down, and a
    column of no block is reported. -/
inductive MarksBlocks (s : Lexer) : Lexer → Prop
  | refl : MarksBlocks s s
  | mark {s' : Lexer} {kind : TokenKind} (hkind : kind = .indent ∨ kind = .dedent)
    (h : MarksBlocks s s') : MarksBlocks s (s'.mark kind)
  | columns {s' : Lexer} (indents : List Nat) (h : MarksBlocks s s') :
    MarksBlocks s { s' with indents := indents }
  | mismatch {s' : Lexer} (h : MarksBlocks s s') : MarksBlocks s (s'.report .unindentMismatch [])

/-- Closing blocks only marks blocks. -/
theorem MarksBlocks.closeBlocks (h : MarksBlocks s s') (column : Nat) (indents : List Nat) :
    MarksBlocks s (closeBlocks column indents s') := by
  induction indents generalizing s' with
  | nil => exact h.columns []
  | cons c cs ih =>
    rw [Lexer.closeBlocks]
    split
    · exact ih (h.mark (.inr rfl))
    · exact h.columns (c :: cs)

/-- So does going to a column. -/
theorem marksBlocks_indentTo (s : Lexer) (column : Nat) : MarksBlocks s (s.indentTo column) := by
  unfold indentTo
  dsimp only
  split
  · exact (MarksBlocks.refl.mark (.inl rfl)).columns _
  · split
    · have hclose := MarksBlocks.refl.closeBlocks (s := s) column s.indents
      split
      · exact hclose
      · exact hclose.mismatch.columns _
    · exact .refl

/-- Marking the ends of some blocks. -/
theorem marksBlocks_foldl (columns : List Nat) (s : Lexer) :
    MarksBlocks s (columns.foldl (fun s _ => s.mark .dedent) s) := by
  have hfrom {s' : Lexer} (h : MarksBlocks s s') :
      MarksBlocks s (columns.foldl (fun s _ => s.mark .dedent) s') := by
    induction columns generalizing s' with
    | nil => exact h
    | cons c cs ih => exact ih (h.mark (.inr rfl))
  exact hfrom .refl

/-! ### The walk -/

/-- What every step preserves holds behind the walk. -/
theorem run_induction {P : Lexer → Prop} (hstep : ∀ s s', P s → s.step = some s' → P s') (n : Nat)
    (h : P s) : P (run n s) := by
  induction n generalizing s with
  | zero => exact h
  | succ n ih =>
    rw [run]
    split
    · exact h
    · exact ih (hstep _ _ h ‹_›)

/-! ### Steps inside a line -/

/-- What a step makes of the characters that it passes over behind the blanks; `start` is where they
    begin. -/
inductive Effect (s s' : Lexer) (start : Nat) (text : List Char) : Prop
  /-- They are a part of a statement. -/
  | content (kind : TokenKind) (hkind : kind.isContent = true)
    (tokens : s'.tokens = ⟨kind, ⟨start, s'.offset⟩, String.ofList text⟩ :: s.tokens)
    (atLineStart : s'.atLineStart = s.atLineStart)
  /-- They are a comment. -/
  | comment (depth : s.depth = 0) (head : text.head? = some '#')
    (tokens : s'.tokens = ⟨.comment, ⟨start, s'.offset⟩, String.ofList text⟩ :: s.tokens)
    (atLineStart : s'.atLineStart = s.atLineStart)
  /-- They end the line. -/
  | newline (depth : s'.depth = 0) (breaks : ∀ c ∈ text, isLineBreak c = true)
    (tokens : s'.tokens = ⟨.newline, ⟨start, s'.offset⟩, String.ofList text⟩ :: s.tokens)
    (atLineStart : s'.atLineStart = true)
  /-- They are passed over, in brackets or as the end of a line that goes on. -/
  | nothing (joined : 0 < s.depth ∨
      ∃ cs, text ++ s'.rest = '\\' :: cs ∧ (spanLineBreak cs).1 ≠ [])
    (tokens : s'.tokens = s.tokens) (atLineStart : s'.atLineStart = s.atLineStart)

/-- What a step inside a line does. -/
structure Reads (s s' : Lexer) (gap text : List Char) : Prop where
  rest : s.rest = gap ++ (text ++ s'.rest)
  blanks : ∀ c ∈ gap, isGap c = true
  head : ∀ c ∈ (text ++ s'.rest).head?, isGap c = false
  ne_nil : text ≠ []
  offset : s'.offset = s.offset + Text.byteLength gap + Text.byteLength text
  indents : s'.indents = s.indents
  effect : Effect s s' (s.offset + Text.byteLength gap) text

/-- A gap and a part that are cut off are read as such. -/
theorem reads_of_cut {gap behind : List Char} (hrest : s.rest = gap ++ behind)
    (hgap : ∀ c ∈ gap, isGap c = true) (hhead : ∀ c ∈ behind.head?, isGap c = false)
    (hcut : text ++ s'.rest = behind) (hne : text ≠ [])
    (hoffset : s'.offset = s.offset + Text.byteLength gap + Text.byteLength text)
    (hindents : s'.indents = s.indents)
    (heffect : Effect s s' (s.offset + Text.byteLength gap) text) : Reads s s' gap text :=
  ⟨by rw [hrest, hcut], hgap, by rwa [hcut], hne, hoffset, hindents, heffect⟩

/-- Where a comment begins, its text is not empty. -/
theorem spanLine_hash (cs : List Char) : ∃ more, (spanLine ('#' :: cs)).1 = '#' :: more := by
  have hhash : (!isLineBreak '#') = true := rfl
  rw [spanLine, List.span_eq_takeWhile_dropWhile]
  exact ⟨cs.takeWhile fun c => !isLineBreak c, by rw [List.takeWhile_cons, hhash]; rfl⟩

/-- Every token is read with the gap in front of it. -/
theorem reads_token (h : s.token = some s') (hissues : s'.issues = []) :
    s.issues = [] ∧ ∃ gap text, Reads s s' gap text := by
  obtain ⟨gap, c, cs, hrest, hgap, hc, hstep⟩ := exists_tokenStep h
  have hhead : ∀ d ∈ (c :: cs).head?, isGap d = false := by simpa using hc
  cases hstep with
  | newline hbreak hdepth =>
    obtain ⟨more, htext⟩ := spanLineBreak_of_isLineBreak cs hbreak
    have hne : (spanLineBreak (c :: cs)).1 ≠ [] := by simp [htext]
    exact ⟨hissues, gap, _, reads_of_cut hrest hgap hhead (spanLineBreak_append _) hne rfl rfl
      (.newline hdepth (spanLineBreak_isLineBreak _) rfl rfl)⟩
  | bracketedLineEnd hbreak hdepth =>
    obtain ⟨more, htext⟩ := spanLineBreak_of_isLineBreak cs hbreak
    have hne : (spanLineBreak (c :: cs)).1 ≠ [] := by simp [htext]
    exact ⟨hissues, gap, _, reads_of_cut hrest hgap hhead (spanLineBreak_append _) hne rfl rfl
      (.nothing (.inl hdepth) rfl rfl)⟩
  | comment hhash hdepth =>
    subst hhash
    obtain ⟨more, htext⟩ := spanLine_hash cs
    have hne : (spanLine ('#' :: cs)).1 ≠ [] := by simp [htext]
    exact ⟨hissues, gap, (spanLine ('#' :: cs)).1,
      reads_of_cut hrest hgap hhead (spanLine_append _) hne rfl rfl
        (.comment hdepth (by simp [htext]) rfl rfl)⟩
  | bracketedComment hhash hdepth =>
    subst hhash
    obtain ⟨more, htext⟩ := spanLine_hash cs
    have hne : (spanLine ('#' :: cs)).1 ≠ [] := by simp [htext]
    exact ⟨hissues, gap, _, reads_of_cut hrest hgap hhead (spanLine_append _) hne rfl rfl
      (.nothing (.inl hdepth) rfl rfl)⟩
  | backslash hslash =>
    -- it must stand at the end of the physical line
    subst hslash
    by_cases hmore : (spanLineBreak cs).1 = []
    · simp [hmore, report, skip] at hissues
    · have hbroken : (spanLineBreak cs).1.isEmpty = false := by simpa using hmore
      simp only [hbroken, Bool.false_eq_true, if_false] at hissues ⊢
      have hjoined : ('\\' :: (spanLineBreak cs).1) ++ (spanLineBreak cs).2 = '\\' :: cs :=
        congrArg ('\\' :: ·) (spanLineBreak_append cs)
      exact ⟨hissues, gap, '\\' :: (spanLineBreak cs).1,
        reads_of_cut hrest hgap hhead hjoined (List.cons_ne_nil _ _) rfl rfl
          (.nothing (.inr ⟨cs, hjoined, hmore⟩) rfl rfl)⟩
  | part hpart =>
    obtain ⟨text, hemits⟩ := hpart.emits rfl
    obtain ⟨kind, hkind, htokens⟩ := hemits.tokens
    exact ⟨hemits.issues hissues, gap, text, reads_of_cut hrest hgap hhead hemits.rest.symm
      hemits.ne_nil hemits.offset hemits.indents
      (.content kind hkind htokens hemits.atLineStart)⟩

/-- Inside a line the walk goes on as long as there are characters that are no blanks. -/
theorem token_ne_none {c : Char} {cs : List Char} (hrest : s.rest = c :: cs)
    (hgap : isGap c = false) : s.token ≠ none := by
  have hspan : s.rest.span isGap = ([], c :: cs) := by
    rw [hrest, List.span_eq_takeWhile_dropWhile]
    simp [hgap]
  unfold token
  simp only [hspan, skip]
  split_ifs <;> simp

/-! ### Enough steps -/

/-- What every step makes smaller. -/
def measure (s : Lexer) : Nat :=
  2 * s.rest.length + s.atLineStart.toNat

/-- Where fewer characters are left, it does not matter whether a line begins there. -/
theorem measure_lt_of_rest (h : s'.rest.length < s.rest.length) : s'.measure < s.measure := by
  have hline := Bool.toNat_le s'.atLineStart
  simp only [measure]
  omega

/-- Reading a part brings the end nearer. -/
theorem Reads.measure_lt {gap : List Char} (h : Reads s s' gap text) : s'.measure < s.measure := by
  have hne := List.length_pos_of_ne_nil h.ne_nil
  refine measure_lt_of_rest ?_
  rw [h.rest, List.length_append, List.length_append]
  omega

end Lexer

end PackageDoc
