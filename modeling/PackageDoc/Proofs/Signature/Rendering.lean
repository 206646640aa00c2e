import PackageDoc.Proofs.Annotation.Embedding
import PackageDoc.Proofs.Signature.Items

namespace PackageDoc

/-!
# Signatures as texts

A signature is rendered with a comma and a blank between its items, and its tokens are those of its
items.

* `SignatureText.text` — the text of a signature;
* `SignatureText.WellFormed` — names are plain, and every other text is an expression;
* `ReadAs` — a text is read as some tokens, in front of some characters;
* `SignatureParam.readAs`, `SignatureItem.readAs` and `SignatureItem.readAs_all` — a parameter, an
  item, and all of them;
* `SignatureText.readAs_definition` — a function whose body is an ellipsis.
-/

/-! ### Texts -/

namespace SignatureParam

/-- The text of an annotation. -/
def hintText (p : SignatureParam) : String :=
  match p.hint with
  | none => ""
  | some hint => ": " ++ hint

/-- The text of a default.  The `=` has blanks around it behind an annotation only. -/
def defaultText (p : SignatureParam) : String :=
  match p.default with
  | none => ""
  | some value => (if p.hint.isSome then " = " else "=") ++ value

/-- The text of a parameter. -/
def text (p : SignatureParam) : String :=
  p.name ++ (p.hintText ++ p.defaultText)

end SignatureParam

/-- The text of an item. -/
def SignatureItem.text : SignatureItem → String
  | slash => "/"
  | bareStar => "*"
  | plain p => p.text
  | variadic p => "*" ++ p.text
  | keywords p => "**" ++ p.text

namespace SignatureText

/-- The text of the type that is returned. -/
def returnsText (sig : SignatureText) : String :=
  match sig.returns with
  | none => ""
  | some returns => " -> " ++ returns

/-- The text of a signature. -/
def text (sig : SignatureText) : String :=
  "(" ++ (String.intercalate ", " (sig.items.map SignatureItem.text) ++ (")" ++ sig.returnsText))

end SignatureText

/-- Is the text a name, and no keyword? -/
def isPlainName (name : String) : Bool :=
  (match name.toList with
    | [] => false
    | c :: cs => isNameStart c && cs.all isNamePart) && (Keyword.ofText? name).isNone

/-- A plain name begins with the start of one and is no keyword. -/
theorem exists_of_isPlainName {name : String} (h : isPlainName name = true) :
    ∃ c cs, name.toList = c :: cs ∧ isNameStart c = true ∧ cs.all isNamePart = true ∧
      Keyword.ofText? name = none := by
  rw [isPlainName, Bool.and_eq_true, Option.isNone_iff_eq_none] at h
  obtain ⟨hletters, hkeyword⟩ := h
  cases hname : name.toList with
  | nil => simp [hname] at hletters
  | cons c cs =>
    rw [hname] at hletters
    obtain ⟨hc, hcs⟩ := Bool.and_eq_true_iff.mp hletters
    exact ⟨c, cs, rfl, hc, hcs, hkeyword⟩

/-- The start of a name is no gap. -/
theorem isGap_of_nameStart {c : Char} (hc : isNameStart c = true) : isGap c = false := by
  have hstarts := (Lexeme.startsToken_of_nameStart hc).1
  by_contra hgap
  simp [Lexeme.startsToken, hgap] at hstarts

/-- The name of a parameter is plain, and its annotation and its default are expressions. -/
structure SignatureParam.WellFormed (p : SignatureParam) : Prop where
  name : isPlainName p.name = true
  hint : ∀ hint ∈ p.hint, IsExpression hint
  default : ∀ value ∈ p.default, IsExpression value

instance (p : SignatureParam) : Decidable p.WellFormed :=
  decidable_of_iff (isPlainName p.name = true ∧ (∀ hint ∈ p.hint, IsExpression hint) ∧
      ∀ value ∈ p.default, IsExpression value)
    ⟨fun h => ⟨h.1, h.2.1, h.2.2⟩, fun h => ⟨h.name, h.hint, h.default⟩⟩

/-- All parameters of a signature are well-formed, and the type that it returns is an expression. -/
structure SignatureText.WellFormed (sig : SignatureText) : Prop where
  positionalOnly : ∀ p ∈ sig.positionalOnly, p.WellFormed
  positional : ∀ p ∈ sig.positional, p.WellFormed
  variadic : ∀ p ∈ sig.variadic, p.WellFormed
  keywordOnly : ∀ p ∈ sig.keywordOnly, p.WellFormed
  keywords : ∀ p ∈ sig.keywords, p.WellFormed
  returns : ∀ returns ∈ sig.returns, IsExpression returns

instance (sig : SignatureText) : Decidable sig.WellFormed :=
  decidable_of_iff ((∀ p ∈ sig.positionalOnly, p.WellFormed) ∧ (∀ p ∈ sig.positional, p.WellFormed) ∧
      (∀ p ∈ sig.variadic, p.WellFormed) ∧ (∀ p ∈ sig.keywordOnly, p.WellFormed) ∧
      (∀ p ∈ sig.keywords, p.WellFormed) ∧ ∀ returns ∈ sig.returns, IsExpression returns)
    ⟨fun h => ⟨h.1, h.2.1, h.2.2.1, h.2.2.2.1, h.2.2.2.2.1, h.2.2.2.2.2⟩,
      fun h => ⟨h.positionalOnly, h.positional, h.variadic, h.keywordOnly, h.keywords, h.returns⟩⟩

/-! ### Reading a part of a text -/

/-- In front of `cs` the text is read as tokens of which `P` holds, where `depth` brackets are open
    before them and `depth'` behind them. -/
def ReadAs (text cs : List Char) (depth depth' : Nat) (P : List Token → Prop) : Prop :=
  ∀ s : Lexer, s.rest = text ++ cs → s.atLineStart = false → s.issues = [] → s.depth = depth →
    ∃ ts s', s.Walks ts cs depth' s' ∧ P ts

/-- The tokens are one of some kind. -/
def IsMark (kind : TokenKind) (ts : List Token) : Prop :=
  ∃ t, ts = [t] ∧ t.kind = kind

namespace ReadAs

variable {text text' cs : List Char} {depth depth' depth'' : Nat} {P Q R : List Token → Prop}

/-- What holds of the tokens of a text is weakened. -/
theorem imp (h : ReadAs text cs depth depth' P) (hP : ∀ ts, P ts → Q ts) :
    ReadAs text cs depth depth' Q := by
  intro s hrest hinLine hissues hdepth
  obtain ⟨ts, s', hwalks, hts⟩ := h s hrest hinLine hissues hdepth
  exact ⟨ts, s', hwalks, hP ts hts⟩

theorem nil (hP : P []) : ReadAs [] cs depth depth P :=
  fun s hrest hinLine hissues hdepth =>
    ⟨[], s, ⟨.refl, hrest, hdepth, rfl, hinLine, hissues, rfl⟩, hP⟩

/-- Two parts, one behind the other. -/
theorem append (h : ReadAs text (text' ++ cs) depth depth' P) (h' : ReadAs text' cs depth' depth'' Q)
    (hR : ∀ ts us, P ts → Q us → R (ts ++ us)) : ReadAs (text ++ text') cs depth depth'' R := by
  intro s hrest hinLine hissues hdepth
  rw [List.append_assoc] at hrest
  obtain ⟨ts, s₁, hfirst, hts⟩ := h s hrest hinLine hissues hdepth
  obtain ⟨us, s₂, hsecond, hus⟩ := h' s₁ hfirst.rest hfirst.inLine hfirst.issues hfirst.depth
  exact ⟨ts ++ us, s₂, hfirst.trans hsecond, hR ts us hts hus⟩

/-- Blanks before a text that begins with none are passed over with its first token. -/
theorem gap (h : ReadAs text cs depth depth' P) (blanks : List Char)
    (hgap : ∀ c ∈ blanks, isGap c = true)
    (htext : ∃ c cs, text = c :: cs ∧ isGap c = false) :
    ReadAs (blanks ++ text) cs depth depth' P := by
  intro s hrest hinLine hissues hdepth
  obtain ⟨c, more, rfl, hc⟩ := htext
  rw [List.append_assoc] at hrest
  obtain ⟨ts, s', hwalks, hts⟩ := h (s.skip blanks (c :: more ++ cs)) rfl hinLine hissues hdepth
  have hne : cs ≠ c :: more ++ cs := fun heq => by cases List.append_left_eq_self.mp heq.symm
  exact ⟨ts, s', .of_skip hrest hinLine hgap hc hwalks hne, hts⟩

/-- A lexeme is read as one token that spells it. -/
theorem lexeme {l : Lexeme} (h : l.IsRead cs) (hdepth : l.depthAfter? depth = some depth')
    (hP : ∀ t : Token, t.Spells l → P [t]) : ReadAs l.text cs depth depth' P := by
  intro s hrest hinLine hissues hs
  obtain ⟨s', hstep, hpassed⟩ := h.step s depth' [] (by simp) hinLine hrest (by rw [hs, hdepth])
  obtain ⟨ts, htokens, hspells⟩ := hpassed.tokens
  obtain ⟨t, ht, rfl⟩ : ∃ t : Token, t.Spells l ∧ ts = [t] := by
    cases hspells with
    | cons hspell hnil =>
      cases hnil
      exact ⟨_, hspell, rfl⟩
  exact ⟨[t], s', ⟨.single hstep, hpassed.rest, hpassed.depth, hpassed.indents, hpassed.atLineStart,
    hpassed.issues.trans hissues, htokens⟩, hP t ht⟩

/-- A delimiter is read as one token. -/
theorem mark {kind : TokenKind} {text : List Char} (h : (Lexeme.delimiter kind text).IsRead cs)
    (hdepth : (Lexeme.delimiter kind text).depthAfter? depth = some depth') :
    ReadAs text cs depth depth' (IsMark kind) :=
  lexeme h hdepth fun t ht => ⟨t, rfl, ht.1⟩

theorem name {name : String} (h : isPlainName name = true) (hcs : Lexeme.EndsWord cs)
    (hP : ∀ t : Token, t.kind = .name → t.text = name → P [t]) :
    ReadAs name.toList cs depth depth P := by
  obtain ⟨c, more, hname, hc, hmore, hkeyword⟩ := exists_of_isPlainName h
  have hread : (Lexeme.ofName name).IsRead cs :=
    Lexeme.isRead_word hname hc hmore (by simp [Lexeme.ofName, hkeyword]) hcs
  exact lexeme hread rfl fun t ht => hP t ht.1 (by rw [ht.2]; exact String.ofList_toList)

/-- An expression is read as tokens that are parsed. -/
theorem expression {x : String} (h : IsExpression x) (hcs : Severs cs)
    (hP : ∀ (e : Expr) (ts : List Token), Expr.Parses (.read e) ts → P ts) :
    ReadAs x.toList cs depth depth P := by
  intro s hrest hinLine hissues hdepth
  obtain ⟨ts, s', e, hwalks, hparses⟩ :=
    Lexer.exists_walks_of_isExpression h hcs hrest hinLine hissues
  rw [hdepth] at hwalks
  exact ⟨ts, s', hwalks, hP e ts hparses⟩

end ReadAs

/-- The tokens of a text of one line. -/
theorem tokenize_of_readAs {source : String} {line : List Char} {P : List Token → Prop} {c : Char}
    {cs : List Char} (hsource : source.toList = line ++ ['\n']) (hline : line = c :: cs)
    (hc : Lexeme.startsToken c = true) (hmark : c.toNat ≠ 0xfeff)
    (hread : ReadAs line ['\n'] 0 0 P) :
    ∃ ts newline eof, tokenize source = (ts ++ [newline, eof], []) ∧ P ts ∧
      newline.kind = .newline ∧ eof.kind = .eof := by
  have hstart : (Lexer.start source.toList).step =
      some { rest := source.toList, atLineStart := false } := by
    rw [hsource, hline]
    exact Lexer.start_step _ hc hmark
  obtain ⟨ts, s, hwalks, hts⟩ := hread { rest := source.toList, atLineStart := false } hsource rfl rfl rfl
  -- behind the line the end of the line is read, and then nothing is left
  have hnewline : s.step = some { s.emit .newline ['\n'] [] with atLineStart := true } := by
    rw [Lexeme.step_of_line hwalks.inLine, Lexer.token_cons hwalks.rest rfl]
    simp [isLineBreak, hwalks.depth, spanLineBreak]
  generalize hs' : { s.emit .newline ['\n'] [] with atLineStart := true } = s' at hnewline
  have hend : s'.step = none := Lexer.step_of_rest_eq_nil (by rw [← hs']; rfl)
  have hissues : s'.issues = [] := by rw [← hs']; exact hwalks.issues
  have hall : Lexer.Steps (Lexer.start source.toList) s' :=
    .head hstart (hwalks.steps.tail hnewline)
  have hto : Lexer.Steps (Lexer.walked source.toList) s' := hall.to_last hend (Lexer.Steps.run _ _)
  have hwalked : s' = Lexer.walked source.toList :=
    Lexer.Steps.eq_of_last hto (Lexer.laid_walked (Lexer.Steps.issues hto hissues)).2
  refine ⟨ts, ⟨.newline, ⟨s.offset, s.offset + Text.byteLength ['\n']⟩, "\n"⟩,
    ⟨.eof, ⟨Text.byteLength source.toList, Text.byteLength source.toList⟩, ""⟩, ?_, hts, rfl, rfl⟩
  rw [tokenize_eq, ← hwalked, ← hs']
  simp [Lexer.finish, Lexer.mark, Lexer.emit, Lexer.skip, hwalks.depth, hwalks.indents,
    hwalks.issues, hwalks.tokens, TokenKind.closesLine, Text.byteLength]

/-! ### Reading annotations and defaults -/

/-- Tokens that are an annotation, a default or the like, if there is one: a mark, and an
    expression behind it. -/
def ValueWritten (kind : TokenKind) (text : Option String) (ts : List Token) : Prop :=
  ∃ w : Option WrittenValue, ts = WrittenValue.tokensOf w ∧ w.isSome = text.isSome ∧
    ∀ v ∈ w, v.mark.kind = kind ∧ Expr.Parses (.read v.value) v.tokens

/-- No value is written with no tokens. -/
theorem valueWritten_none (kind : TokenKind) : ValueWritten kind none [] :=
  ⟨none, rfl, rfl, by simp⟩

/-- A value is written with its mark and the tokens of its expression. -/
theorem valueWritten_some {kind : TokenKind} {t : Token} {ts : List Token} {e : Expr}
    (ht : t.kind = kind) (h : Expr.Parses (.read e) ts) (text : String) :
    ValueWritten kind (some text) (t :: ts) := by
  refine ⟨some ⟨t, ts, e⟩, rfl, rfl, ?_⟩
  rintro v ⟨⟩
  exact ⟨ht, h⟩

namespace ReadAs

variable {cs : List Char} {depth : Nat} {kind : TokenKind} {x : String}

/-- A mark, and an expression behind some blanks. -/
theorem value (mark blanks : List Char)
    (hmark : (Lexeme.delimiter kind mark).IsRead (blanks ++ x.toList ++ cs))
    (hkind : kind.isOpenBracket = false ∧ kind.isCloseBracket = false)
    (hblanks : ∀ c ∈ blanks, isGap c = true) (hx : IsExpression x) (hcs : Severs cs) :
    ReadAs (mark ++ (blanks ++ x.toList)) cs depth depth (ValueWritten kind (some x)) := by
  have hexpr : ReadAs (blanks ++ x.toList) cs depth depth
      fun ts => ∃ e, Expr.Parses (.read e) ts := by
    obtain ⟨c, more, hmore⟩ := List.exists_cons_of_ne_nil hx.ne_nil
    exact (expression hx hcs fun e ts h => ⟨e, h⟩).gap blanks hblanks
      ⟨c, more, hmore, (hx.first c (by rw [hmore]; rfl)).1⟩
  have hdepth : (Lexeme.delimiter kind mark).depthAfter? depth = some depth := by
    simp [Lexeme.depthAfter?, Lexeme.delimiter, hkind]
  refine (ReadAs.mark hmark hdepth).append hexpr ?_
  rintro _ ts ⟨t, rfl, ht⟩ ⟨e, he⟩
  exact valueWritten_some ht he x

end ReadAs

/-- An expression does not begin with an equals sign. -/
theorem IsExpression.head?_append_ne_equals {x : String} (h : IsExpression x) (cs : List Char) :
    (x.toList ++ cs).head? ≠ some '=' := by
  obtain ⟨c, more, hmore⟩ := List.exists_cons_of_ne_nil h.ne_nil
  have hne := h.head?_ne_equals
  rw [hmore] at hne ⊢
  exact hne

namespace SignatureParam

variable {p : SignatureParam} {cs : List Char} {depth : Nat}

/-- What is behind an annotation goes on with no lexeme. -/
theorem severs_defaultText (hhint : p.hint.isSome = true) (hcs : Severs cs) :
    Severs (p.defaultText.toList ++ cs) := by
  unfold defaultText
  cases p.default with
  | none => exact hcs
  | some value =>
    rw [if_pos hhint, String.toList_append]
    exact severs_cons (c := ' ') (by simp) _

/-- The annotation is read, whatever stands behind the default. -/
theorem readAs_hintText (h : p.WellFormed) (hcs : Severs cs) :
    ReadAs p.hintText.toList (p.defaultText.toList ++ cs) depth depth
      (ValueWritten .colon p.hint) := by
  cases hhint : p.hint with
  | none =>
    rw [hintText, hhint]
    exact .nil (valueWritten_none .colon)
  | some hint =>
    have hsevers := severs_defaultText (p := p) (by rw [hhint]; rfl) hcs
    rw [hintText, hhint, String.toList_append]
    exact .value [':'] [' '] (Lexeme.isRead_before_equals (by simp) (by simp))
      ⟨rfl, rfl⟩ (by simp [isGap]) (h.hint hint hhint) hsevers

/-- The default is read. -/
theorem readAs_defaultText (h : p.WellFormed) (hcs : Severs cs) :
    ReadAs p.defaultText.toList cs depth depth (ValueWritten .equals p.default) := by
  cases hdefault : p.default with
  | none =>
    rw [defaultText, hdefault]
    exact .nil (valueWritten_none .equals)
  | some value =>
    have hvalue := h.default value hdefault
    rw [defaultText, hdefault, String.toList_append]
    -- behind a type the equals sign has spaces around it
    cases p.hint.isSome with
    | false =>
      exact .value ['='] []
        (Lexeme.isRead_before_equals (by simp) (hvalue.head?_append_ne_equals cs)) ⟨rfl, rfl⟩
        (by simp) hvalue hcs
    | true =>
      have hread : ReadAs (['='] ++ ([' '] ++ value.toList)) cs depth depth
          (ValueWritten .equals (some value)) :=
        .value ['='] [' '] (Lexeme.isRead_before_equals (by simp) (by simp)) ⟨rfl, rfl⟩
          (by simp [isGap]) hvalue hcs
      exact hread.gap [' '] (by simp [isGap]) ⟨'=', _, rfl, rfl⟩

/-- Behind the name stands what does not go on with it. -/
theorem endsWord_hintText (hcs : Severs cs) :
    Lexeme.EndsWord (p.hintText.toList ++ (p.defaultText.toList ++ cs)) := by
  cases hhint : p.hint with
  | some hint =>
    rw [hintText, hhint, String.toList_append]
    exact (severs_cons (c := ':') (by simp) _).endsWord
  | none =>
    cases hdefault : p.default with
    | none =>
      simp only [hintText, defaultText, hhint, hdefault]
      exact hcs.endsWord
    | some value =>
      simp only [hintText, defaultText, hhint, hdefault, Option.isSome_none, Bool.false_eq_true,
        if_false, String.toList_append]
      rintro d ⟨⟩
      decide

/-- **A parameter is read as it is written.** -/
theorem readAs (h : p.WellFormed) (hcs : Severs cs) :
    ReadAs p.text.toList cs depth depth fun ts => ∃ w : WrittenParam, ts = w.tokens ∧ w.IsOf p := by
  have hname : ReadAs p.name.toList (p.hintText.toList ++ p.defaultText.toList ++ cs) depth depth
      fun ts => ∃ t : Token, ts = [t] ∧ t.kind = .name ∧ t.text = p.name := by
    rw [List.append_assoc]
    exact .name h.name (endsWord_hintText hcs) fun t hkind htext => ⟨t, rfl, hkind, htext⟩
  have hvalues : ReadAs (p.hintText.toList ++ p.defaultText.toList) cs depth depth fun ts =>
      ∃ us vs, ts = us ++ vs ∧ ValueWritten .colon p.hint us ∧ ValueWritten .equals p.default vs :=
    (readAs_hintText h hcs).append (readAs_defaultText h hcs)
      fun us vs hus hvs => ⟨us, vs, rfl, hus, hvs⟩
  rw [text, String.toList_append, String.toList_append]
  refine hname.append hvalues ?_
  rintro _ _ ⟨t, rfl, hkind, htext⟩
    ⟨_, _, rfl, ⟨hint, rfl, hhint, hhints⟩, ⟨value, rfl, hvalue, hvalues⟩⟩
  exact ⟨⟨t, hint, value⟩, rfl,
    ⟨hkind, fun v hv => ⟨(hhints v hv).1, (hhints v hv).2.readsAs (by decide)⟩,
      fun v hv => ⟨(hvalues v hv).1, (hvalues v hv).2.readsAs (by decide)⟩⟩, htext, hhint, hvalue⟩

/-- A parameter begins with the start of a name. -/
theorem exists_text_cons (h : p.WellFormed) :
    ∃ c cs, p.text.toList = c :: cs ∧ isNameStart c = true := by
  obtain ⟨c, cs, hname, hc, -⟩ := exists_of_isPlainName h.name
  rw [text, String.toList_append, hname]
  exact ⟨c, _, rfl, hc⟩

end SignatureParam

/-! ### Reading items -/

namespace Lexeme

/-- A slash or a star of its own. -/
theorem isRead_mark {kind : TokenKind} {c : Char}
    (h : (kind, c) ∈ [(TokenKind.slash, '/'), (.star, '*')]) {cs : List Char}
    (hcs : ∀ d ∈ cs.head?, d ≠ c ∧ d ≠ '=') : (delimiter kind [c]).IsRead cs := by
  simp only [List.mem_cons, Prod.mk.injEq, List.not_mem_nil, or_false] at h
  rcases h with ⟨rfl, rfl⟩ | ⟨rfl, rfl⟩
  all_goals
    refine isRead_delimiter rfl rfl (by simp) ?_
    cases cs with
    | nil => rfl
    | cons d ds =>
      obtain ⟨hne, hequals⟩ := hcs d rfl
      simp [operators, List.isPrefixOf, delimiter, Ne.symm hne, Ne.symm hequals]

end Lexeme

namespace SignatureItem

variable {cs : List Char} {depth : Nat}

/-- The parameter of an item is well-formed. -/
def WellFormed : SignatureItem → Prop
  | slash | bareStar => True
  | plain p | variadic p | keywords p => p.WellFormed

/-- **An item is read as it is written.** -/
theorem readAs {item : SignatureItem} (h : item.WellFormed) (hcs : Severs cs) :
    ReadAs item.text.toList cs depth depth item.Written := by
  have hends {c : Char} (hc : c ∈ ['/', '*']) : ∀ d ∈ cs.head?, d ≠ c ∧ d ≠ '=' := by
    have hall : ∀ c ∈ ['/', '*'], ∀ d ∈ severing, d ≠ c ∧ d ≠ '=' := by simp
    exact fun d hd => hall c hc d (hcs d hd)
  have hstart {p : SignatureParam} (hp : p.WellFormed) :
      ∀ d ∈ (p.text.toList ++ cs).head?, d ≠ '*' ∧ d ≠ '=' := by
    obtain ⟨c, more, htext, hc⟩ := p.exists_text_cons hp
    rw [htext]
    rintro d ⟨⟩
    constructor <;>
      · rintro rfl
        exact absurd hc (by decide)
  cases item with
  | slash =>
    have hread : (Lexeme.delimiter .slash ['/']).IsRead cs :=
      Lexeme.isRead_mark (by simp) (hends (by simp))
    refine (ReadAs.mark hread rfl).imp ?_
    rintro _ ⟨t, rfl, ht⟩
    exact .slash ht
  | bareStar =>
    have hread : (Lexeme.delimiter .star ['*']).IsRead cs :=
      Lexeme.isRead_mark (by simp) (hends (by simp))
    refine (ReadAs.mark hread rfl).imp ?_
    rintro _ ⟨t, rfl, ht⟩
    exact .bareStar ht
  | plain p =>
    -- the parameter carries its tokens, and the item has no others
    refine (p.readAs h hcs).imp ?_
    rintro _ ⟨w, rfl, hw⟩
    exact .plain hw
  | variadic p =>
    have hread : (Lexeme.delimiter .star ['*']).IsRead (p.text.toList ++ cs) :=
      Lexeme.isRead_mark (by simp) (hstart h)
    rw [text, String.toList_append]
    refine (ReadAs.mark hread rfl).append (p.readAs h hcs) ?_
    rintro _ _ ⟨t, rfl, ht⟩ ⟨w, rfl, hw⟩
    exact .variadic ht hw
  | keywords p =>
    have hread : (Lexeme.delimiter .doubleStar ['*', '*']).IsRead (p.text.toList ++ cs) :=
      Lexeme.isRead_before_equals (by simp) fun hhead => (hstart h '=' hhead).2 rfl
    rw [text, String.toList_append]
    refine (ReadAs.mark hread rfl).append (p.readAs h hcs) ?_
    rintro _ _ ⟨t, rfl, ht⟩ ⟨w, rfl, hw⟩
    exact .keywords ht hw

/-- No item begins with a blank. -/
theorem exists_text_cons {item : SignatureItem} (h : item.WellFormed) :
    ∃ c cs, item.text.toList = c :: cs ∧ isGap c = false := by
  cases item with
  | slash => exact ⟨'/', [], rfl, rfl⟩
  | bareStar => exact ⟨'*', [], rfl, rfl⟩
  | plain p =>
    obtain ⟨c, cs, htext, hc⟩ := p.exists_text_cons h
    exact ⟨c, cs, htext, isGap_of_nameStart hc⟩
  | variadic p => exact ⟨'*', p.text.toList, by rw [text, String.toList_append]; rfl, rfl⟩
  | keywords p => exact ⟨'*', '*' :: p.text.toList, by rw [text, String.toList_append]; rfl, rfl⟩

/-- **Items with commas between them are read as they are written.** -/
theorem readAs_all {items : List SignatureItem} (h : ∀ item ∈ items, item.WellFormed)
    (hcs : Severs cs) :
    ReadAs (String.intercalate ", " (items.map text)).toList cs depth depth (WrittenAll items) := by
  rw [String.toList_intercalate, List.map_map]
  induction items with
  | nil => exact .nil .nil
  | cons item items ih =>
    obtain ⟨hitem, hitems⟩ := List.forall_mem_cons.mp h
    cases items with
    | nil =>
      rw [List.map_singleton, List.intercalate_singleton]
      exact (readAs hitem hcs).imp fun ts hts => .last hts
    | cons other items =>
      obtain ⟨c, more, htext, hc⟩ := exists_text_cons (hitems other List.mem_cons_self)
      -- the further items begin with no blank, so the one behind the comma is passed over
      have hothers := ih hitems
      generalize hjoined : ", ".toList.intercalate ((other :: items).map (String.toList ∘ text)) =
        joined at hothers
      have hhead : ∃ c cs, joined = c :: cs ∧ isGap c = false := by
        refine ⟨c, more ++ (joined.drop other.text.toList.length), ?_, hc⟩
        rw [← List.cons_append, ← htext, ← hjoined]
        cases items with
        | nil => simp
        | cons next items => simp [List.intercalate_cons_cons]
      have hcomma : ReadAs [','] ([' '] ++ joined ++ cs) depth depth (IsMark .comma) :=
        .mark (Lexeme.isRead_alone (by simp) _) rfl
      have hfurther : ReadAs ([','] ++ ([' '] ++ joined)) cs depth depth
          fun ts => ∃ t us, ts = t :: us ∧ t.kind = .comma ∧ WrittenAll (other :: items) us := by
        refine hcomma.append (hothers.gap [' '] (by simp [isGap]) hhead) ?_
        rintro _ us ⟨t, rfl, ht⟩ hus
        exact ⟨t, us, rfl, ht, hus⟩
      have hsevers : Severs ([','] ++ ([' '] ++ joined) ++ cs) := severs_cons (c := ',') (by simp) _
      rw [List.map_cons, List.map_cons, List.intercalate_cons_cons, ← List.map_cons, hjoined,
        List.append_assoc]
      refine (readAs hitem hsevers).append hfurther ?_
      rintro ts _ hts ⟨t, us, rfl, ht, hus⟩
      exact .cons hts ht hus

end SignatureItem

/-! ### Reading a definition -/

namespace SignatureText

variable {sig : SignatureText} {name : String} {cs : List Char}

/-- The items of a well-formed signature are well formed. -/
theorem WellFormed.items (h : sig.WellFormed) : ∀ item ∈ sig.items, item.WellFormed := by
  have hplain {ps : List SignatureParam} (hps : ∀ p ∈ ps, p.WellFormed) :
      ∀ item ∈ ps.map SignatureItem.plain, item.WellFormed := by
    intro item hitem
    obtain ⟨p, hp, rfl⟩ := List.mem_map.mp hitem
    exact hps p hp
  unfold SignatureText.items
  simp only [List.forall_mem_append]
  refine ⟨⟨⟨⟨?_, hplain h.positional⟩, ?_⟩, hplain h.keywordOnly⟩, ?_⟩
  · split
    · simp
    · exact List.forall_mem_append.mpr
        ⟨hplain h.positionalOnly, by simp [SignatureItem.WellFormed]⟩
  · split
    · rename_i p hp
      simpa [SignatureItem.WellFormed] using h.variadic p hp
    · split <;> simp [SignatureItem.WellFormed]
  · intro item hitem
    obtain ⟨p, hp, rfl⟩ := List.mem_map.mp hitem
    exact h.keywords p (Option.mem_toList.mp hp)

/-- The source text of a function with the signature that does nothing. -/
def source (sig : SignatureText) (name : String) : String :=
  "def " ++ name ++ sig.text ++ ": ...\n"

/-- The tokens of the signature, from its opening parenthesis up to the colon behind it. -/
structure Tokens (sig : SignatureText) where
  opening : Token
  items : List Token
  closing : Token
  returns : Option WrittenValue
  isOpening : opening.kind = .lparen
  isItems : SignatureItem.WrittenAll sig.items items
  isClosing : closing.kind = .rparen
  returned : returns.isSome = sig.returns.isSome
  isReturns : ∀ v ∈ returns, v.mark.kind = .arrow ∧ Expr.Parses (.read v.value) v.tokens

/-- The tokens themselves, in front of others. -/
def Tokens.before (w : sig.Tokens) (after : List Token) : List Token :=
  w.opening :: (w.items ++ w.closing :: (WrittenValue.tokensOf w.returns ++ after))

/-- The type that is returned is read. -/
theorem readAs_returnsText (h : sig.WellFormed) (hcs : Severs cs) :
    ReadAs sig.returnsText.toList cs 0 0 (ValueWritten .arrow sig.returns) := by
  cases hreturns : sig.returns with
  | none =>
    rw [returnsText, hreturns]
    exact .nil (valueWritten_none .arrow)
  | some returns =>
    have harrow (cs : List Char) : (Lexeme.delimiter .arrow ['-', '>']).IsRead cs :=
      Lexeme.isRead_delimiter rfl rfl (by simp) rfl
    have hread : ReadAs (['-', '>'] ++ ([' '] ++ returns.toList)) cs 0 0
        (ValueWritten .arrow (some returns)) :=
      .value ['-', '>'] [' '] (harrow _) ⟨rfl, rfl⟩ (by simp [isGap]) (h.returns returns hreturns) hcs
    rw [returnsText, hreturns, String.toList_append]
    exact hread.gap [' '] (by simp [isGap]) ⟨'-', _, rfl, rfl⟩

/-- **A signature is read as it is written.** -/
theorem readAs (h : sig.WellFormed) (hcs : Severs cs) :
    ReadAs sig.text.toList cs 0 0 fun ts => ∃ w : sig.Tokens, ts = w.before [] := by
  have hclose : ReadAs ([')'] ++ sig.returnsText.toList) cs 1 0 fun ts =>
      ∃ t us, ts = t :: us ∧ t.kind = .rparen ∧ ValueWritten .arrow sig.returns us := by
    have hmark : ReadAs [')'] (sig.returnsText.toList ++ cs) 1 0 (IsMark .rparen) :=
      .mark (Lexeme.isRead_alone (by simp) _) rfl
    refine hmark.append (readAs_returnsText h hcs) ?_
    rintro _ us ⟨t, rfl, ht⟩ hus
    exact ⟨t, us, rfl, ht, hus⟩
  have hitems : ReadAs (String.intercalate ", " (sig.items.map SignatureItem.text)).toList
      ([')'] ++ sig.returnsText.toList ++ cs) 1 1 (SignatureItem.WrittenAll sig.items) :=
    SignatureItem.readAs_all h.items (severs_cons (c := ')') (by simp) _)
  have hinner : ReadAs ((String.intercalate ", " (sig.items.map SignatureItem.text)).toList ++
      ([')'] ++ sig.returnsText.toList)) cs 1 0 fun ts => ∃ us t vs, ts = us ++ t :: vs ∧
        SignatureItem.WrittenAll sig.items us ∧ t.kind = .rparen ∧ ValueWritten .arrow sig.returns vs := by
    refine hitems.append hclose ?_
    rintro us _ hus ⟨t, vs, rfl, ht, hvs⟩
    exact ⟨us, t, vs, rfl, hus, ht, hvs⟩
  have hopen : ReadAs ['('] ((String.intercalate ", " (sig.items.map SignatureItem.text)).toList ++
      ([')'] ++ sig.returnsText.toList) ++ cs) 0 1 (IsMark .lparen) :=
    .mark (Lexeme.isRead_alone (by simp) _) rfl
  rw [text, String.toList_append, String.toList_append, String.toList_append]
  refine hopen.append hinner ?_
  rintro _ _ ⟨o, rfl, ho⟩ ⟨us, c, _, rfl, hus, hc, w, rfl, hsome, hw⟩
  exact ⟨⟨o, us, c, w, ho, hus, hc, hsome, hw⟩, by simp [Tokens.before]⟩

/-- The body of the function. -/
theorem readAs_body : ReadAs ([':'] ++ ([' '] ++ ['.', '.', '.'])) ['\n'] 0 0
    fun ts => ∃ colon dots : Token, ts = [colon, dots] ∧ colon.kind = .colon ∧
      dots.kind = .ellipsis := by
  have hcolon : ReadAs [':'] ([' '] ++ ['.', '.', '.'] ++ ['\n']) 0 0 (IsMark .colon) :=
    .mark (Lexeme.isRead_before_equals (by simp) (by simp)) rfl
  have hdots : ReadAs ['.', '.', '.'] ['\n'] 0 0 (IsMark .ellipsis) :=
    .mark (Lexeme.isRead_alone (by simp) _) rfl
  refine hcolon.append (hdots.gap [' '] (by simp [isGap]) ⟨'.', _, rfl, rfl⟩) ?_
  rintro _ _ ⟨c, rfl, hc⟩ ⟨d, rfl, hd⟩
  exact ⟨c, d, rfl, hc, hd⟩

/-- The line of a function with the signature, up to its end. -/
theorem readAs_definition (hname : isPlainName name = true) (h : sig.WellFormed) :
    ReadAs ("def " ++ name ++ sig.text ++ ": ...").toList ['\n'] 0 0 fun ts =>
      ∃ d n colon dots, ∃ w : sig.Tokens, ts = d :: n :: w.before [colon, dots] ∧
        d.kind = .keyword .Def ∧ n.kind = .name ∧ n.text = name ∧ colon.kind = .colon ∧
        dots.kind = .ellipsis := by
  have hsig : ReadAs (sig.text.toList ++ ([':'] ++ ([' '] ++ ['.', '.', '.']))) ['\n'] 0 0 fun ts =>
      ∃ colon dots, ∃ w : sig.Tokens, ts = w.before [colon, dots] ∧ colon.kind = .colon ∧
        dots.kind = .ellipsis := by
    refine (readAs h (severs_cons (c := ':') (by simp) _)).append readAs_body ?_
    rintro _ _ ⟨w, rfl⟩ ⟨c, d, rfl, hc, hd⟩
    exact ⟨c, d, w, by simp [Tokens.before], hc, hd⟩
  have hparen : Lexeme.EndsWord
      (sig.text.toList ++ ([':'] ++ ([' '] ++ ['.', '.', '.'])) ++ ['\n']) := by
    rw [text, String.toList_append]
    exact (Lexeme.closes_cons (c := '(') (by simp) _).endsWord
  have hfull : ReadAs ([' '] ++ (name.toList ++
      (sig.text.toList ++ ([':'] ++ ([' '] ++ ['.', '.', '.']))))) ['\n'] 0 0 fun ts =>
      ∃ n colon dots, ∃ w : sig.Tokens, ts = n :: w.before [colon, dots] ∧ n.kind = .name ∧
        n.text = name ∧ colon.kind = .colon ∧ dots.kind = .ellipsis := by
    have hword : ReadAs name.toList _ 0 0
        fun ts => ∃ t : Token, ts = [t] ∧ t.kind = .name ∧ t.text = name :=
      .name hname hparen fun t hkind htext => ⟨t, rfl, hkind, htext⟩
    refine ReadAs.gap (hword.append hsig ?_) [' '] (by simp [isGap]) ?_
    · rintro _ _ ⟨n, rfl, hn, htext⟩ ⟨c, d, w, rfl, hc, hd⟩
      exact ⟨n, c, d, w, rfl, hn, htext, hc, hd⟩
    · obtain ⟨c, cs, hc, hstart, -⟩ := exists_of_isPlainName hname
      rw [hc]
      exact ⟨c, _, rfl, isGap_of_nameStart hstart⟩
  have hdef (cs : List Char) :
      ReadAs (Lexeme.ofKeyword .Def).text (' ' :: cs) 0 0 (IsMark (.keyword .Def)) :=
    .lexeme (Lexeme.isRead_word rfl rfl rfl rfl (severs_cons (by simp) cs).endsWord) rfl
      fun t ht => ⟨t, rfl, ht.1⟩
  have hline : ("def " ++ name ++ sig.text ++ ": ...").toList = (Lexeme.ofKeyword .Def).text ++
      ([' '] ++ (name.toList ++ (sig.text.toList ++ ([':'] ++ ([' '] ++ ['.', '.', '.']))))) := by
    rw [String.toList_append, String.toList_append, String.toList_append, List.append_assoc,
      List.append_assoc]
    rfl
  rw [hline]
  refine (hdef _).append hfull ?_
  rintro _ _ ⟨d, rfl, hd⟩ ⟨n, c, dots, w, rfl, hn, htext, hc, hdots⟩
  exact ⟨d, n, c, dots, w, rfl, hd, hn, htext, hc, hdots⟩

/-- **The tokens of the source text of a function with a signature.** -/
theorem tokenize_source (hname : isPlainName name = true) (h : sig.WellFormed) :
    ∃ d n colon dots newline eof, ∃ w : sig.Tokens,
      tokenize (sig.source name) = (d :: n :: w.before [colon, dots, newline, eof], []) ∧
        d.kind = .keyword .Def ∧ n.kind = .name ∧ n.text = name ∧ colon.kind = .colon ∧
        dots.kind = .ellipsis ∧ newline.kind = .newline ∧ eof.kind = .eof := by
  have hsource : (sig.source name).toList =
      ("def " ++ name ++ sig.text ++ ": ...").toList ++ ['\n'] := by
    simp [source, String.toList_append]
  have hline : ("def " ++ name ++ sig.text ++ ": ...").toList =
      'd' :: ("ef " ++ name ++ sig.text ++ ": ...").toList := by
    rw [String.toList_append, String.toList_append, String.toList_append, String.toList_append,
      String.toList_append, String.toList_append]
    rfl
  obtain ⟨_, newline, eof, htokens, ⟨d, n, colon, dots, w, rfl, hkinds⟩, hnewline, heof⟩ :=
    tokenize_of_readAs hsource hline rfl (by decide) (readAs_definition hname h)
  refine ⟨d, n, colon, dots, newline, eof, w, ?_, hkinds.1, hkinds.2.1, hkinds.2.2.1,
    hkinds.2.2.2.1, hkinds.2.2.2.2, hnewline, heof⟩
  rw [htokens]
  simp [Tokens.before]

end SignatureText

end PackageDoc
