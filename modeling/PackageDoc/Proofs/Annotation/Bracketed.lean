import PackageDoc.Analysis.TypeEval
import PackageDoc.Proofs.Signature.Rendering

namespace PackageDoc

/-!
# Quotes and brackets around an annotation

How a text is read in quotes, and as the argument of a subscription.

* `Quotes.quote`, `subscription` — the texts;
* `PlainEnds` — a text whose ends are read alike on its own and in brackets;
* `Expr.parse?_of_walks` — a text that is read as one expression from its first character on;
* `ReadAs.base` — a dotted name in front of a bracket;
* `exists_parse?_subscription` — a subscription, given how its argument is read in brackets;
* `readInBrackets_quote` and `readInBrackets_of_plainEnds` — arguments with quotes and without them;
* `parse?_quote` — a text in quotes on its own.
-/

/-- The text of a subscription of a dotted name. -/
def subscription (path : List String) (argument : String) : String :=
  dotted path ++ ("[" ++ (argument ++ "]"))

/-- The text between quotes. -/
def Quotes.quote (q : Quotes) (text : String) : String :=
  String.ofList (q.text ++ (text.toList ++ q.text))

/-- The parts of a name that can stand at the beginning of a text. -/
structure LeadingPath (path : List String) : Prop where
  ne_nil : path ≠ []
  plain : ∀ name ∈ path, isPlainName name = true
  first : ∀ c ∈ (dotted path).toList.head?, Text.isSpace c = false ∧ c.toNat ≠ 0xfeff

/-- The blanks at the ends of the text are blanks between tokens, and what stands between them does
    not begin with a byte order mark. -/
def PlainEnds (text : String) : Prop :=
  (∃ left right, text.toList = left ++ (trimmed text).toList ++ right ∧
    ∀ c ∈ left ++ right, isGap c = true) ∧
  ∀ c ∈ (trimmed text).toList.head?, c.toNat ≠ 0xfeff

/-! ### Texts that are one expression -/

/-- Is the token one of the alternate syntax of types? -/
def Token.isAlternate (t : Token) : Bool :=
  t.kind == .pipe || t.kind == .arrow

/-- A text that is read as one expression from its first character on. -/
theorem Expr.parse?_of_walks {text : String} {c : Char} {cs : List Char} (htext : text.toList = c :: cs)
    (hc : Lexeme.startsToken c = true) (hmark : c.toNat ≠ 0xfeff) {ts : List Token} {s : Lexer}
    (hwalks : Lexer.Walks { rest := text.toList, atLineStart := false } ts [] 0 s) {e : Expr}
    (h : Parses (.read e) ts) :
    parse? text = some e ∧ isAlternateSyntax text = ts.any Token.isAlternate := by
  have hstart : (Lexer.start text.toList).step = some { rest := text.toList, atLineStart := false } := by
    rw [htext]
    exact Lexer.start_step cs hc hmark
  have hend : s.step = Option.none := Lexer.step_of_rest_eq_nil hwalks.rest
  have hto : Lexer.Steps (Lexer.walked text.toList) s :=
    Lexer.Steps.to_last (.head hstart hwalks.steps) hend (Lexer.Steps.run _ _)
  have hwalked : s = Lexer.walked text.toList :=
    Lexer.Steps.eq_of_last hto (Lexer.laid_walked (Lexer.Steps.issues hto hwalks.issues)).2
  -- the last token leaves the line open, so the end of the line is added
  obtain ⟨last, others, hlast, hopen⟩ : ∃ last others, ts.reverse = last :: others ∧
      last.kind.closesLine = false := by
    obtain ⟨t, more, rfl, -⟩ := h.begins
    obtain ⟨last, others, hlast⟩ := List.exists_cons_of_ne_nil
      (List.reverse_ne_nil_iff.mpr (List.cons_ne_nil t more))
    refine ⟨last, others, hlast, TokenKind.closesLine_of_isContent (h.isContent last ?_)⟩
    rw [← List.mem_reverse, hlast]
    exact List.mem_cons_self
  let stop := Text.byteLength text.toList
  have htokens : tokenize text =
      (ts ++ [⟨.newline, ⟨stop, stop⟩, ""⟩, ⟨.eof, ⟨stop, stop⟩, ""⟩], []) := by
    have hread := hwalks.tokens
    rw [hlast, List.append_nil] at hread
    have hts : ts = others.reverse ++ [last] := by
      rw [← List.reverse_reverse ts, hlast, List.reverse_cons]
    rw [tokenize_eq, ← hwalked, hts]
    simp [Lexer.finish, Lexer.mark, Lexer.emit, Lexer.skip, hwalks.depth, hwalks.indents,
      hwalks.issues, hread, hopen, Text.byteLength, stop]
  refine ⟨parse?_of_tokens h (by rw [htokens]) (by rw [htokens]), ?_⟩
  rw [isAlternateSyntax, htokens, List.any_append]
  exact Bool.or_false (ts.any Token.isAlternate)

/-! ### Dotted names -/

/-- The tokens are read as a base with the dotted name, to which more may be applied. -/
def IsBase (name : String) (ts : List Token) : Prop :=
  ts.any Token.isAlternate = false ∧ ∃ b : Expr, b.dottedName? = some name ∧
    ∀ e us, Expr.Parses (.trailers b e) us → Expr.Parses (.operand e) (ts ++ us)

/-- A single name is a base. -/
theorem isBase_singleton {t : Token} (ht : t.kind = .name) : IsBase t.text [t] := by
  have hatom : Expr.Parses (.atom (.name ⟨t.text, t.span⟩)) [t] := .single (by simp [Expr.ofToken?, ht])
  exact ⟨by simp [Token.isAlternate, ht], _, rfl, fun e us htail => .applied hatom htail⟩

/-- A base with a dot and a name behind it is one. -/
theorem IsBase.attr {name : String} {ts : List Token} {d t : Token} (h : IsBase name ts)
    (hd : d.kind = .dot) (ht : t.kind = .name) : IsBase (name ++ "." ++ t.text) (ts ++ [d, t]) := by
  obtain ⟨halternate, b, hname, hbase⟩ := h
  refine ⟨by simp [halternate, Token.isAlternate, hd, ht],
    .attr b ⟨t.text, t.span⟩ (b.span.cover t.span), by rw [Expr.dottedName?, hname]; rfl, ?_⟩
  intro e us htail
  rw [List.append_assoc]
  exact hbase e _ (.attr hd ht htail)

/-- A path of one name is the name. -/
theorem dotted_singleton (name : String) : dotted [name] = name :=
  String.ofList_toList

/-- **A dotted name is read as a base.** -/
theorem ReadAs.base {path : List String} (hne : path ≠ [])
    (hplain : ∀ name ∈ path, isPlainName name = true) {cs : List Char} (hcs : Lexeme.EndsWord cs)
    {depth : Nat} : ReadAs (dotted path).toList cs depth depth (IsBase (dotted path)) := by
  -- from the back, since a field is read behind what the names in front of it are
  induction path using List.reverseRecOn generalizing cs with
  | nil => exact absurd rfl hne
  | append_singleton path name ih =>
    obtain ⟨hpath, hname⟩ := List.forall_mem_append.mp hplain
    have hname : isPlainName name = true := hname name (by simp)
    have hlast {cs : List Char} (hcs : Lexeme.EndsWord cs) : ReadAs name.toList cs depth depth
        fun ts => ∃ t : Token, ts = [t] ∧ t.kind = .name ∧ t.text = name :=
      .name hname hcs fun t hkind htext => ⟨t, rfl, hkind, htext⟩
    cases path with
    | nil =>
      rw [List.nil_append, dotted_singleton]
      refine (hlast hcs).imp ?_
      rintro _ ⟨t, rfl, hkind, rfl⟩
      exact isBase_singleton hkind
    | cons first path =>
      obtain ⟨c, more, hletters, hc, -⟩ := exists_of_isPlainName hname
      have hdot : ReadAs ['.'] (name.toList ++ cs) depth depth (IsMark .dot) := by
        rw [hletters]
        exact .mark (Lexeme.isRead_dot hc) rfl
      have hfield : ReadAs (['.'] ++ name.toList) cs depth depth fun ts =>
          ∃ d t : Token, ts = [d, t] ∧ d.kind = .dot ∧ t.kind = .name ∧ t.text = name := by
        refine hdot.append (hlast hcs) ?_
        rintro _ _ ⟨d, rfl, hd⟩ ⟨t, rfl, ht, htext⟩
        exact ⟨d, t, rfl, hd, ht, htext⟩
      have hends : Lexeme.EndsWord (['.'] ++ name.toList ++ cs) := by
        rintro d ⟨⟩
        decide
      rw [dotted_append (List.cons_ne_nil first path) (List.cons_ne_nil name []), dotted_singleton,
        String.toList_append, String.toList_append, List.append_assoc]
      refine (ih (List.cons_ne_nil first path) hpath hends).append hfield ?_
      rintro us _ hus ⟨d, t, rfl, hd, ht, rfl⟩
      exact hus.attr hd ht

/-- A path of plain names begins with the start of a name. -/
theorem exists_dotted_cons {path : List String} (hne : path ≠ [])
    (hplain : ∀ name ∈ path, isPlainName name = true) :
    ∃ c cs, (dotted path).toList = c :: cs ∧ isNameStart c = true := by
  obtain ⟨name, more, rfl⟩ := List.exists_cons_of_ne_nil hne
  obtain ⟨c, cs, hname, hc, -⟩ := exists_of_isPlainName (hplain name List.mem_cons_self)
  cases more with
  | nil => exact ⟨c, cs, by rw [dotted_singleton, hname], hc⟩
  | cons other more =>
    have hdotted : dotted (name :: other :: more) = name ++ "." ++ dotted (other :: more) := by
      rw [← List.singleton_append, dotted_append (List.cons_ne_nil name [])
        (List.cons_ne_nil other more), dotted_singleton]
    refine ⟨c, cs ++ (".".toList ++ (dotted (other :: more)).toList), ?_, hc⟩
    rw [hdotted, String.toList_append, String.toList_append, hname, List.append_assoc]
    rfl

/-! ### Subscriptions -/

/-- The characters of a subscription: the path, and the argument in brackets. -/
theorem toList_subscription (path : List String) (argument : String) :
    (subscription path argument).toList =
      (dotted path).toList ++ ['['] ++ (argument.toList ++ [']']) := by
  rw [subscription, String.toList_append, String.toList_append, String.toList_append,
    List.append_assoc]
  rfl

/-- A subscription has no blanks at its ends. -/
theorem trimmed_subscription {path : List String} (h : LeadingPath path) (argument : String) :
    trimmed (subscription path argument) = subscription path argument := by
  obtain ⟨c, cs, hhead, -⟩ := exists_dotted_cons h.ne_nil h.plain
  rw [trimmed, Text.trim_eq_self_iff.mpr ⟨fun d hd => ?_, fun d hd => ?_⟩, String.ofList_toList]
  · refine (h.first d ?_).1
    rw [toList_subscription, hhead] at hd
    rw [hhead]
    exact hd
  · rw [toList_subscription, ← List.append_assoc, List.getLast?_append] at hd
    obtain rfl : ']' = d := by simpa using hd
    decide

/-- In brackets behind `offset` bytes, the text is read as an expression of which `p` holds. -/
def ReadInBrackets (argument : String) (offset : Nat) (p : Expr → Prop) : Prop :=
  ∀ s : Lexer, s.rest = argument.toList ++ [']'] → s.atLineStart = false → s.issues = [] →
    s.offset = offset → ∃ ts s' right e, s.Walks ts (right ++ [']']) s.depth s' ∧
      (∀ c ∈ right, isGap c = true) ∧ ts.any Token.isAlternate = false ∧
      Expr.Parses (.read e) ts ∧ p e

/-- The number of bytes in front of the argument of a subscription. -/
def argumentOffset (path : List String) : Nat :=
  Text.byteLength ((dotted path).toList ++ ['['])

/-- **A subscription is read as one**, if its argument is read as an expression. -/
theorem exists_parse?_subscription {path : List String} (h : LeadingPath path) {argument : String}
    {p : Expr → Prop} (hargument : ReadInBrackets argument (argumentOffset path) p) :
    ∃ b i span, Expr.parse? (subscription path argument) = some (.subscript b i span) ∧
      isAlternateSyntax (subscription path argument) = false ∧
      b.dottedName? = some (dotted path) ∧ p i := by
  obtain ⟨c, cs, hhead, hc⟩ := exists_dotted_cons h.ne_nil h.plain
  have htext := toList_subscription path argument
  -- the base and the opening bracket, the argument, and the closing bracket behind blanks
  have hopen : ReadAs ((dotted path).toList ++ ['[']) (argument.toList ++ [']']) 0 1 fun ts =>
      ∃ us o, ts = us ++ [o] ∧ IsBase (dotted path) us ∧ o.kind = .lbracket := by
    have hbracket : ReadAs ['['] (argument.toList ++ [']']) 0 1 (IsMark .lbracket) :=
      .mark (Lexeme.isRead_alone (by simp) _) rfl
    have hends : Lexeme.EndsWord (['['] ++ (argument.toList ++ [']'])) := by
      rintro d ⟨⟩
      decide
    refine (ReadAs.base h.ne_nil h.plain hends).append hbracket ?_
    rintro us _ hus ⟨o, rfl, ho⟩
    exact ⟨us, o, rfl, hus, ho⟩
  obtain ⟨_, s₁, hwalks₁, us, o, rfl, ⟨hplain, b, hname, hbase⟩, ho⟩ :=
    hopen { rest := (subscription path argument).toList, atLineStart := false } htext rfl rfl rfl
  obtain ⟨ts, s₂, right, i, hwalks₂, hright, hno, hparses, hi⟩ :=
    hargument s₁ hwalks₁.rest hwalks₁.inLine hwalks₁.issues
      ((hwalks₁.offset_eq htext).trans (Nat.zero_add _))
  rw [hwalks₁.depth] at hwalks₂
  have hclose : ReadAs (right ++ [']']) [] 1 0 (IsMark .rbracket) :=
    (ReadAs.mark (Lexeme.isRead_alone (by simp) _) rfl).gap right hright ⟨']', [], rfl, rfl⟩
  obtain ⟨_, s₃, hwalks₃, t, rfl, ht⟩ := hclose s₂ (by rw [hwalks₂.rest, List.append_nil])
    hwalks₂.inLine hwalks₂.issues hwalks₂.depth
  have hread : Expr.Parses (.read (.subscript b i (b.span.cover t.span)))
      (us ++ [o] ++ (ts ++ [t])) := by
    have hoperand := hbase _ _ (.subscript ho (.index hparses) ht (.trailersEnd _))
    have hall := Expr.Parses.read hoperand (.unionEnd _)
    rwa [List.append_nil, ← List.singleton_append, ← List.append_assoc] at hall
  obtain ⟨hparse, halternate⟩ := Expr.parse?_of_walks (by rw [htext, hhead]; rfl)
    (Lexeme.startsToken_of_nameStart hc).1 (h.first c (by rw [hhead]; rfl)).2
    (hwalks₁.trans (hwalks₂.trans hwalks₃)) hread
  refine ⟨b, i, _, hparse, ?_, hname, hi⟩
  rw [halternate]
  simp [hplain, hno, Token.isAlternate, ho, ht]

/-! ### Arguments -/

/-- A text that needs no escape is written in quotes as its literal. -/
theorem Quotes.quote_eq (q : Quotes) {text : String} (h : q.Verbatim text.toList) :
    q.quote text = String.ofList (q.literal text.toList) := by
  rw [quote, literal, q.escaped_of_verbatim h]

/-- A quoted text has no blanks at its ends. -/
theorem Quotes.trimmed_quote (q : Quotes) (text : String) :
    trimmed (q.quote text) = q.quote text := by
  have hmark : Text.isSpace q.mark = false := by
    rcases q.mark_eq with h | h <;> · rw [h]; decide
  have hall : ∀ c ∈ q.text, c = q.mark := by
    intro c hc
    rw [q.text_eq] at hc
    split at hc <;> simpa using hc
  rw [trimmed, Text.trim_eq_self_iff.mpr ⟨fun c hc => ?_, fun c hc => ?_⟩, String.ofList_toList]
  all_goals rw [quote, String.toList_ofList] at hc
  · obtain rfl : q.mark = c := Option.some.inj hc
    exact hmark
  · have hne : q.text ≠ [] := List.cons_ne_nil q.mark q.others
    rw [← List.append_assoc, List.getLast?_append_of_ne_nil _ hne] at hc
    rw [hall c (List.mem_of_getLast? hc), hmark]

/-- A text in quotes is read as a string, if no quote follows. -/
theorem ReadAs.quote (q : Quotes) {text : String} (h : q.Verbatim text.toList) {cs : List Char}
    (hcs : cs.head? ≠ some q.mark) {depth : Nat} :
    ReadAs (q.quote text).toList cs depth depth fun ts => ts.any Token.isAlternate = false ∧
      ∃ span, Expr.Parses (.read (.str text false false span)) ts := by
  rw [q.quote_eq h, String.toList_ofList]
  have hread : (Lexeme.delimiter .string (q.literal text.toList)).IsRead cs :=
    Lexeme.isRead_literal q rfl rfl hcs
  refine .lexeme hread rfl fun t ht => ?_
  have hkind : t.kind = .string := ht.1
  have hstring : ∀ u ∈ [t], u.kind = .string := by simpa using hkind
  have hparses : Expr.Parses (.read (Expr.ofLiterals t [])) ([t] ++ [] ++ []) :=
    .read (.applied (.literals hstring) (.trailersEnd _)) (.unionEnd _)
  have hvalue : (Expr.joinLiterals ⟨"", false, false⟩ t.span t [t]).1 = ⟨text, false, false⟩ := by
    have htext : t.text = String.ofList (q.literal text.toList) := ht.2
    rw [Expr.joinLiterals_string hkind, htext, decodeLiteral_quoted]
    simp [Expr.joinLiterals]
  rw [Expr.ofLiterals, hvalue] at hparses
  exact ⟨by simp [Token.isAlternate, hkind], _, hparses⟩

/-- A quoted text is read in brackets as the string that it quotes. -/
theorem readInBrackets_quote (q : Quotes) {text : String} (h : q.Verbatim text.toList)
    (offset : Nat) :
    ReadInBrackets (q.quote text) offset fun e => ∃ span, e = .str text false false span := by
  intro s hrest hinLine hissues _
  have hcs : [']'].head? ≠ some q.mark := by
    rcases q.mark_eq with h | h <;> · rw [h]; decide
  obtain ⟨ts, s', hwalks, hno, span, hparses⟩ :=
    ReadAs.quote q h hcs s hrest hinLine hissues rfl
  exact ⟨ts, s', [], _, hwalks, by simp, hno, hparses, span, rfl⟩

/-- A text in quotes is a string. -/
theorem parse?_quote (q : Quotes) {text : String} (h : q.Verbatim text.toList) :
    ∃ span, Expr.parse? (q.quote text) = some (.str text false false span) ∧
      isAlternateSyntax (q.quote text) = false := by
  have hhead : (q.quote text).toList = q.mark :: (q.others ++ (text.toList ++ q.text)) := by
    rw [Quotes.quote, String.toList_ofList]
    rfl
  have hstart : Lexeme.startsToken q.mark = true ∧ q.mark.toNat ≠ 0xfeff := by
    rcases q.mark_eq with h | h <;> · rw [h]; decide
  have hcs : ([] : List Char).head? ≠ some q.mark := by simp
  obtain ⟨ts, s, hwalks, hno, span, hparses⟩ := ReadAs.quote q h hcs
    { rest := (q.quote text).toList, atLineStart := false } (List.append_nil _).symm rfl rfl rfl
  obtain ⟨hparse, halternate⟩ := Expr.parse?_of_walks hhead hstart.1 hstart.2 hwalks hparses
  exact ⟨span, hparse, halternate.trans hno⟩

/-- Gaps between tokens are made of spaces, tabs and form feeds. -/
theorem mem_of_isGap {c : Char} (h : isGap c = true) : c ∈ [' ', '\t', '\x0c'] := by
  simpa [isGap, or_assoc] using h

/-- A text with plain ends is an expression between blanks, if it is one without them. -/
theorem PlainEnds.isExpression {text : String} (h : PlainEnds text)
    (hline : ∀ c ∈ text.toList, isLineBreak c = false)
    (hread : (Expr.parse? (trimmed text)).isSome = true) : IsExpression (trimmed text) := by
  obtain ⟨⟨left, right, htext, -⟩, hmark⟩ := h
  have hspace {c : Char} (hc : Text.isSpace c = false) : isGap c = false := by
    by_contra hgap
    have hall : ([' ', '\t', '\x0c'].all Text.isSpace) = true := by decide
    rw [List.all_eq_true.mp hall c (mem_of_isGap (by simpa using hgap))] at hc
    cases hc
  have htrim : Text.trim (trimmed text).toList = (trimmed text).toList := by
    rw [trimmed, String.toList_ofList, Text.trim_trim]
  obtain ⟨hfirst, hlast⟩ := Text.trim_eq_self_iff.mp htrim
  refine ⟨hread, fun c hc => hline c ?_, fun c hc => ⟨hspace (hfirst c hc), hmark c hc⟩,
    fun c hc => hspace (hlast c hc)⟩
  rw [htext]
  simp [hc]

/-- **A text with plain ends is read in brackets as it is on its own.** -/
theorem readInBrackets_of_plainEnds {text : String} {e : Expr} {left right : List Char}
    (htext : text.toList = left ++ (trimmed text).toList ++ right)
    (hgap : ∀ c ∈ left ++ right, isGap c = true) (h : IsExpression (trimmed text))
    (hparse : Expr.parse? (trimmed text) = some e)
    (halternate : isAlternateSyntax (trimmed text) = false) (offset : Nat) :
    ReadInBrackets text offset (· = e.shift (offset + Text.byteLength left)) := by
  intro s hrest hinLine hissues hoffset
  obtain ⟨hleft, hright⟩ := List.forall_mem_append.mp hgap
  obtain ⟨us, hparses, hmem, hwalks⟩ := Lexer.exists_walks_of_parse? h hparse
  obtain ⟨c, cs, hcore⟩ := List.exists_cons_of_ne_nil h.ne_nil
  -- the text ends at the gap behind it or, where there is none, at the closing bracket
  have hsevers : Severs (right ++ [']']) := by
    cases right with
    | nil => exact severs_cons (by decide) []
    | cons d right =>
      have hblanks : [' ', '\t', '\x0c'] ⊆ severing := by simp
      exact severs_cons (hblanks (mem_of_isGap (hright d List.mem_cons_self))) _
  rw [htext, List.append_assoc, List.append_assoc, hcore] at hrest
  obtain ⟨s', hwalk⟩ := hwalks (s := s.skip left (c :: cs ++ (right ++ [']']))) hsevers
    (by rw [hcore]; rfl) hinLine hissues
  have hne : right ++ [']'] ≠ c :: cs ++ (right ++ [']']) := fun heq => by
    cases List.append_left_eq_self.mp heq.symm
  refine ⟨_, s', right, _, .of_skip hrest hinLine hleft (h.first c (by rw [hcore]; rfl)).1 hwalk hne,
    hright, ?_, hparses.mapSpan (Span.shift_cover _), ?_⟩
  · rw [List.any_map, List.any_eq_false]
    intro u hu
    exact List.any_eq_false.mp halternate u (hmem u hu)
  · show e.shift (s.offset + Text.byteLength left) = _
    rw [hoffset]

end PackageDoc
