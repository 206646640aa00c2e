import PackageDoc.Proofs.Syntax.Lexing

namespace PackageDoc

/-!
# Printed expressions are read as their lexemes

In the text of an expression no lexeme runs into the next, and its brackets are balanced.

* `Lexeme.Balanced` — lexemes that leave the number of open brackets as it is;
* `Lexeme.Closes` — what may stand behind an expression;
* `Expr.begins_lexemes` — how an expression begins;
* `Expr.ReadAnywhere` — an expression is read in front of whatever may stand behind it;
* `Expr.balanced_lexemes` and `Expr.readAnywhere` — the two facts about its lexemes;
* `Expr.tokenize_print` — the tokens of the text of an expression.
-/

namespace Lexeme

/-! ### Brackets -/

/-- Behind the lexemes as many brackets are open as before them. -/
def Balanced (ls : List Lexeme) : Prop :=
  ∀ depth, depthsAfter? depth ls = some depth

theorem balanced_nil : Balanced [] := fun _ => rfl

theorem Balanced.append {ls ms : List Lexeme} (hls : Balanced ls) (hms : Balanced ms) :
    Balanced (ls ++ ms) := by
  intro depth
  rw [depthsAfter?_append, hls, Option.bind_some, hms]

/-- A lexeme that is no bracket is balanced. -/
theorem balanced_singleton {l : Lexeme} (hopen : l.kind.isOpenBracket = false)
    (hclose : l.kind.isCloseBracket = false) : Balanced [l] := by
  intro depth
  simp [depthsAfter?, depthAfter?, hopen, hclose]

theorem Balanced.cons {l : Lexeme} {ls : List Lexeme} (hl : Balanced [l]) (hls : Balanced ls) :
    Balanced (l :: ls) :=
  hl.append hls

/-- Lexemes between an opening and a closing bracket. -/
theorem Balanced.between {opening closing : Lexeme} {ls : List Lexeme} (hls : Balanced ls)
    (hopen : opening.kind.isOpenBracket = true) (hopen' : closing.kind.isOpenBracket = false)
    (hclose : closing.kind.isCloseBracket = true) :
    Balanced (opening :: (ls ++ [closing])) := by
  intro depth
  rw [depthsAfter?, depthAfter?, if_pos hopen, Option.bind_some, depthsAfter?_append, hls,
    Option.bind_some, depthsAfter?, depthAfter?, hopen', hclose]
  rfl

/-- A space in front changes nothing of that. -/
theorem Balanced.space {ls : List Lexeme} (hls : Balanced ls) : Balanced (space ls) := by
  cases ls with
  | nil => exact hls
  | cons l ls => exact hls

/-- Items with commas between them are balanced if each is. -/
theorem balanced_listed {items : List (List Lexeme)} (h : ∀ item ∈ items, Balanced item) :
    Balanced (listed items) := by
  have hfurther : ∀ others : List (List Lexeme), (∀ item ∈ others, Balanced item) →
      Balanced (further others) := by
    intro others hothers
    induction others with
    | nil => exact balanced_nil
    | cons item others ih =>
      obtain ⟨hitem, hothers⟩ := List.forall_mem_cons.mp hothers
      exact ((balanced_singleton rfl rfl).cons hitem.space).append (ih hothers)
  cases items with
  | nil => exact balanced_nil
  | cons item others =>
    obtain ⟨hitem, hothers⟩ := List.forall_mem_cons.mp h
    exact hitem.append (hfurther others hothers)

/-- A keyword argument is balanced if its value is. -/
theorem balanced_keywordItem (key : Option String) {value : List Lexeme} (h : Balanced value) :
    Balanced (keywordItem key value) := by
  cases key with
  | none => exact (balanced_singleton rfl rfl).cons h
  | some key => exact (balanced_singleton rfl rfl).cons ((balanced_singleton rfl rfl).cons h)

/-- An entry is balanced if its key and its value are. -/
theorem balanced_entryItem {key : Option (List Lexeme)} {value : List Lexeme}
    (hkey : ∀ k ∈ key, Balanced k) (hvalue : Balanced value) : Balanced (entryItem key value) := by
  cases key with
  | none => exact (balanced_singleton rfl rfl).cons hvalue
  | some key => exact (hkey key rfl).append ((balanced_singleton rfl rfl).cons hvalue.space)

end Lexeme

open Lexeme

namespace Expr

/-- A base is balanced, in parentheses or not. -/
theorem balanced_asBase (e : Expr) {ls : List Lexeme} (h : Balanced ls) : Balanced (asBase e ls) := by
  unfold asBase
  split
  · exact h.between rfl rfl rfl
  · exact h

/-- So is an operand. -/
theorem balanced_asOperand (e : Expr) {ls : List Lexeme} (h : Balanced ls) :
    Balanced (asOperand e ls) := by
  unfold asOperand
  split
  · exact h.between rfl rfl rfl
  · exact h

/-- So are listed expressions. -/
theorem balanced_each {es : List Expr} (h : ∀ e ∈ es, Balanced e.lexemes) :
    Balanced (listed (es.map lexemes)) := by
  refine balanced_listed fun item hitem => ?_
  obtain ⟨e, he, rfl⟩ := List.mem_map.mp hitem
  exact h e he

/-- So is a subscript. -/
theorem balanced_index {index : Expr} (h : Balanced index.lexemes)
    (hitems : ∀ items s, index = .tuple items s → ∀ e ∈ items, Balanced e.lexemes) :
    Balanced (indexLexemes index) := by
  unfold indexLexemes
  split
  · exact balanced_each (hitems _ _ rfl)
  · exact h

/-- So is the comma behind a single element. -/
theorem balanced_lastComma (items : List Expr) : Balanced (lastComma items) := by
  unfold lastComma
  split
  · exact balanced_singleton rfl rfl
  · exact balanced_nil

/-- So is a number. -/
theorem balanced_ofNumber (text : String) : Balanced (ofNumber text) := by
  unfold ofNumber
  split
  · exact (balanced_singleton rfl rfl).cons (balanced_singleton rfl rfl)
  · exact balanced_singleton rfl rfl

/-- The brackets of an expression are balanced. -/
theorem balanced_lexemes (e : Expr) : Balanced e.lexemes := by
  induction e using deepInduction with
  | name ident => exact balanced_singleton rfl rfl
  | attr value field span hvalue =>
    exact (balanced_asBase value hvalue).append
      ((balanced_singleton rfl rfl).cons (balanced_singleton rfl rfl))
  | subscript value index span hvalue hindex hitems =>
    rw [lexemes_subscript]
    exact (balanced_asBase value hvalue).append
      ((balanced_index hindex hitems).between rfl rfl rfl)
  | call func args keywords span hfunc hargs hkeywords =>
    rw [lexemes, lexemesEach_eq, lexemesKeywords_eq]
    refine (balanced_asBase func hfunc).append ((balanced_listed fun item hitem => ?_).between rfl
      rfl rfl)
    -- an item is an argument or a keyword argument
    rcases List.mem_append.mp hitem with hitem | hitem
    · obtain ⟨e, he, rfl⟩ := List.mem_map.mp hitem
      exact hargs e he
    · obtain ⟨⟨key, value⟩, hk, rfl⟩ := List.mem_map.mp hitem
      exact balanced_keywordItem key (hkeywords _ hk)
  | str value isBytes isFormatted span => exact balanced_singleton rfl rfl
  | num text span => exact balanced_ofNumber text
  | bool value span => cases value <;> exact balanced_singleton rfl rfl
  | none span => exact balanced_singleton rfl rfl
  | ellipsis span => exact balanced_singleton rfl rfl
  | tuple items span hitems =>
    rw [lexemes_tuple]
    exact ((balanced_each hitems).append (balanced_lastComma items)).between rfl rfl rfl
  | list items span hitems =>
    rw [lexemes, lexemesEach_eq]
    exact (balanced_each hitems).between rfl rfl rfl
  | dict entries span hentries =>
    rw [lexemes, lexemesEntries_eq]
    refine (balanced_listed fun item hitem => ?_).between rfl rfl rfl
    obtain ⟨⟨key, value⟩, hk, rfl⟩ := List.mem_map.mp hitem
    obtain ⟨hkey, hvalue⟩ := hentries _ hk
    refine balanced_entryItem (fun ls hls => ?_) hvalue
    obtain ⟨key, rfl, rfl⟩ := Option.map_eq_some_iff.mp hls
    exact hkey key rfl
  | union left right span hleft hright =>
    exact (hleft.append (balanced_singleton rfl rfl)).append (balanced_asOperand right hright).space
  | unmodelled span => exact balanced_nil

end Expr

/-! ### Beginnings -/

/-- The kinds of tokens that an expression begins with. -/
def TokenKind.startsExpr : TokenKind → Bool
  | name | number | string | minus | ellipsis | lparen | lbracket | lbrace => true
  | keyword .None | keyword .True | keyword .False => true
  | _ => false

/-- A lexeme with which an expression begins. -/
structure Lexeme.StartsExpr (l : Lexeme) : Prop where
  spaced : l.spaced = false
  kind : l.kind.startsExpr = true
  text : ∃ c t, l.text = c :: t ∧ startsToken c = true ∧ c ≠ '=' ∧ c.toNat ≠ 0xfeff

/-- The lexemes begin like an expression, and not like a keyword argument. -/
def Lexeme.Begins (ls : List Lexeme) : Prop :=
  ∃ l rest, ls = l :: rest ∧ l.StartsExpr ∧
    (l.kind = .name → ∀ l' ∈ rest.head?, l'.kind ≠ .equals)

namespace Lexeme

theorem Begins.append {ls ms : List Lexeme} (h : Begins ls)
    (hms : ∀ m ∈ ms.head?, m.kind ≠ .equals) : Begins (ls ++ ms) := by
  obtain ⟨l, rest, rfl, hl, hnext⟩ := h
  refine ⟨l, rest ++ ms, rfl, hl, fun hname => ?_⟩
  cases rest with
  | nil => exact hms
  | cons l' rest => exact hnext hname

/-- A lexeme that starts an expression begins one. -/
theorem begins_singleton {l : Lexeme} (h : l.StartsExpr) : Begins [l] :=
  ⟨l, [], rfl, h, by simp⟩

/-- Lexemes that begin with a bracket or the like. -/
theorem begins_cons {l : Lexeme} (h : l.StartsExpr) (hname : l.kind ≠ .name) (ls : List Lexeme) :
    Begins (l :: ls) :=
  ⟨l, ls, rfl, h, fun h => absurd h hname⟩

/-- A bracket that opens starts one. -/
theorem startsExpr_delimiter {kind : TokenKind} {text : List Char} {c : Char} {t : List Char}
    (hkind : kind.startsExpr = true) (htext : text = c :: t)
    (hc : (startsToken c && c != '=' && c.toNat != 0xfeff) = true) :
    (delimiter kind text).StartsExpr := by
  simp only [Bool.and_eq_true, bne_iff_ne] at hc
  exact ⟨rfl, hkind, c, t, htext, hc.1.1, hc.1.2, hc.2⟩

/-- A word that begins with a letter. -/
theorem startsExpr_word {l : Lexeme} {c : Char} {t : List Char} (hspaced : l.spaced = false)
    (hkind : l.kind.startsExpr = true) (htext : l.text = c :: t)
    (hc : (c.isAlpha || c == '_') = true) : l.StartsExpr := by
  refine ⟨hspaced, hkind, c, t, htext, (startsToken_of_nameStart (isNameStart_of_letter hc)).1, ?_, ?_⟩
  · rintro rfl
    exact absurd hc (by decide)
  · intro hmark
    obtain rfl : c = Char.ofNat 0xfeff := by rw [← hmark, Char.ofNat_toNat]
    exact absurd hc (by decide)

/-- Digits start an expression. -/
theorem startsExpr_ofDigits {digits : List Char} (h : Expr.isDigits digits = true) :
    (ofDigits digits).StartsExpr := by
  cases digits with
  | nil => exact absurd h (by decide)
  | cons c t =>
    obtain ⟨hc, -⟩ : c.isDigit = true ∧ t.all Char.isDigit = true := by
      simpa [Expr.isDigits] using h
    refine ⟨rfl, rfl, c, t, rfl, (startsToken_of_digit hc).1, ?_, ?_⟩
    · rintro rfl
      exact absurd hc (by decide)
    · intro hmark
      obtain rfl : c = Char.ofNat 0xfeff := by rw [← hmark, Char.ofNat_toNat]
      exact absurd hc (by decide)

end Lexeme

namespace Expr

/-- The first letter of an identifier. -/
theorem exists_letter_of_isIdentifier {name : String} (h : isIdentifier name = true) :
    ∃ c t, name.toList = c :: t ∧ (c.isAlpha || c == '_') = true ∧
      t.all (fun c => c.isAlphanum || c == '_') = true ∧ Keyword.ofText? name = Option.none := by
  rw [isIdentifier, Bool.and_eq_true, Option.isNone_iff_eq_none] at h
  obtain ⟨hletters, hkeyword⟩ := h
  cases hname : name.toList with
  | nil => simp [hname] at hletters
  | cons c t =>
    rw [hname] at hletters
    obtain ⟨hc, ht⟩ := Bool.and_eq_true_iff.mp hletters
    exact ⟨c, t, rfl, hc, ht, hkeyword⟩

/-- How an expression begins. -/
theorem begins_lexemes (e : Expr) (h : e.Printable) : Begins e.lexemes := by
  have hbase : ∀ (e : Expr), Begins e.lexemes → Begins (asBase e e.lexemes) := by
    intro e he
    unfold asBase
    split
    · exact begins_cons (startsExpr_delimiter rfl rfl rfl) (by simp [delimiter]) _
    · exact he
  induction e using deepInduction with
  | name ident =>
    obtain ⟨c, t, htext, hc, -⟩ := exists_letter_of_isIdentifier h
    exact begins_singleton (startsExpr_word rfl rfl htext hc)
  | attr value field span hvalue =>
    exact (hbase value (hvalue h.1)).append (by simp [delimiter])
  | subscript value index span hvalue _ _ =>
    rw [lexemes_subscript]
    exact (hbase value (hvalue h.1)).append (by simp [brackets, delimiter])
  | call func args keywords span hfunc _ _ =>
    exact (hbase func (hfunc h.1)).append (by simp [parens, delimiter])
  | str value isBytes isFormatted span =>
    exact begins_cons ⟨rfl, rfl, '"', _, rfl, rfl, by decide, by decide⟩ (by simp [ofText]) _
  | num text span =>
    rw [lexemes]
    obtain ⟨digits, -, -, hnumber⟩ | ⟨hdigits, hnumber⟩ := isInteger_cases h
    · rw [hnumber]
      exact begins_cons (startsExpr_delimiter rfl rfl rfl) (by simp [delimiter]) _
    · rw [hnumber]
      exact begins_singleton (startsExpr_ofDigits hdigits)
  | bool value span =>
    cases value <;> exact begins_singleton (startsExpr_word rfl rfl rfl rfl)
  | none span => exact begins_singleton (startsExpr_word rfl rfl rfl rfl)
  | ellipsis span => exact begins_singleton (startsExpr_delimiter rfl rfl rfl)
  | tuple items span _ =>
    rw [lexemes_tuple]
    exact begins_cons (startsExpr_delimiter rfl rfl rfl) (by simp [delimiter]) _
  | list items span _ =>
    exact begins_cons (startsExpr_delimiter rfl rfl rfl) (by simp [delimiter]) _
  | dict entries span _ =>
    exact begins_cons (startsExpr_delimiter rfl rfl rfl) (by simp [delimiter]) _
  | union left right span hleft _ =>
    rw [lexemes, List.append_assoc]
    exact (hleft h.1).append (by simp [space, delimiter])
  | unmodelled span => exact absurd h id

end Expr
/-! ### Lexemes in front of each other -/

namespace Lexeme

/-- What may stand behind an expression: nothing, or one of a few characters. -/
def Closes (cs : List Char) : Prop :=
  ∀ c ∈ cs.head?, c ∈ [' ', ',', ')', ']', '\x7d', ':', '(', '[', '.']

theorem closes_nil : Closes [] := by simp [Closes]

/-- A space, a comma, a colon, a dot or a bracket ends what is in front. -/
theorem closes_cons {c : Char} (hc : c ∈ [' ', ',', ')', ']', '\x7d', ':', '(', '[', '.'])
    (cs : List Char) : Closes (c :: cs) := by
  intro d hd
  obtain rfl := Option.some.inj hd
  exact hc

/-- What closes ends a word. -/
theorem Closes.endsWord {cs : List Char} (h : Closes cs) : EndsWord cs := by
  have hall : [' ', ',', ')', ']', '\x7d', ':', '(', '[', '.'].all
      (fun c => !isNamePart c && c != '"' && c != '\'') = true := by decide
  intro d hd
  have hd := List.all_eq_true.mp hall d (h d hd)
  simpa [and_assoc] using hd

/-- It ends a number unless it is a dot. -/
theorem Closes.endsNumber {cs : List Char} (h : Closes cs) (hdot : cs.head? ≠ some '.') :
    EndsNumber cs := by
  have hall : [' ', ',', ')', ']', '\x7d', ':', '(', '[', '.'].all
      (fun c => c == '.' || (!c.isAlphanum && c != '_' && c != '.')) = true := by decide
  intro d hd
  have hne : d ≠ '.' := fun hd' => hdot (hd' ▸ hd)
  have hd := List.all_eq_true.mp hall d (h d hd)
  simpa [hne, and_assoc] using hd

/-- It is no quote. -/
theorem Closes.head?_ne_quote {cs : List Char} (h : Closes cs) : cs.head? ≠ some '"' :=
  fun hquote => absurd (h '"' hquote) (by decide)

/-- Delimiters with which no other operator begins. -/
theorem isRead_alone {kind : TokenKind} {text : List Char}
    (h : (kind, text) ∈ [(.lparen, ['(']), (.rparen, [')']), (.lbracket, ['[']), (.rbracket, [']']),
      (.lbrace, ['\x7b']), (.rbrace, ['\x7d']), (.comma, [',']), (.ellipsis, ['.', '.', '.'])])
    (cs : List Char) : (delimiter kind text).IsRead cs := by
  simp only [List.mem_cons, Prod.mk.injEq, List.not_mem_nil, or_false] at h
  rcases h with ⟨rfl, rfl⟩ | ⟨rfl, rfl⟩ | ⟨rfl, rfl⟩ | ⟨rfl, rfl⟩ | ⟨rfl, rfl⟩ | ⟨rfl, rfl⟩ |
    ⟨rfl, rfl⟩ | ⟨rfl, rfl⟩
  all_goals exact isRead_delimiter rfl rfl (by simp) rfl

/-- A character other than the first is not found in front. -/
theorem beq_eq_false_of_head {c d : Char} {ds : List Char} (h : (d :: ds).head? ≠ some c) :
    (c == d) = false :=
  beq_eq_false_iff_ne.mpr fun hc => h (by rw [hc]; rfl)

/-- Delimiters with which an operator begins that goes on with `=`. -/
theorem isRead_before_equals {kind : TokenKind} {text : List Char}
    (h : (kind, text) ∈ [(.equals, ['=']), (.pipe, ['|']), (.colon, [':']),
      (.doubleStar, ['*', '*'])])
    {cs : List Char} (hcs : cs.head? ≠ some '=') : (delimiter kind text).IsRead cs := by
  simp only [List.mem_cons, Prod.mk.injEq, List.not_mem_nil, or_false] at h
  have hnext : ∀ d ds, cs = d :: ds → ('=' == d) = false :=
    fun d ds hd => beq_eq_false_of_head (hd ▸ hcs)
  rcases h with ⟨rfl, rfl⟩ | ⟨rfl, rfl⟩ | ⟨rfl, rfl⟩ | ⟨rfl, rfl⟩
  all_goals
    refine isRead_delimiter rfl rfl (by simp) ?_
    cases cs with
    | nil => rfl
    | cons d ds => simp [operators, List.isPrefixOf, delimiter, hnext d ds rfl]

/-- A dot is read as one in front of a name. -/
theorem isRead_dot {c : Char} {cs : List Char} (hc : isNameStart c = true) :
    (delimiter .dot ['.']).IsRead (c :: cs) := by
  obtain ⟨-, -, -, hdot, hdigit⟩ := startsToken_of_nameStart hc
  have hdot' : ('.' == c) = false := beq_eq_false_iff_ne.mpr (Ne.symm hdot)
  refine isRead_delimiter rfl rfl (fun _ d hd => ?_) ?_
  · obtain rfl := Option.some.inj hd
    exact hdigit
  · simp [operators, List.isPrefixOf, delimiter, hdot']

/-- A minus is read as one in front of a digit. -/
theorem isRead_minus {c : Char} {cs : List Char} (hc : c.isDigit = true) :
    (delimiter .minus ['-']).IsRead (c :: cs) := by
  have hne : ∀ d : Char, d.isDigit = false → (d == c) = false := by
    intro d hd
    refine beq_eq_false_iff_ne.mpr ?_
    rintro rfl
    exact absurd hc (by simp [hd])
  refine isRead_delimiter rfl rfl (by simp) ?_
  simp [operators, List.isPrefixOf, delimiter, hne '>' rfl, hne '=' rfl]

/-- A name is read as one where words end. -/
theorem isRead_ofName {name : String} (h : Expr.isIdentifier name = true) {cs : List Char}
    (hends : EndsWord cs) : (ofName name).IsRead cs := by
  obtain ⟨c, t, htext, hc, ht, hkeyword⟩ := Expr.exists_letter_of_isIdentifier h
  have hparts : t.all isNamePart = true := List.all_eq_true.mpr fun x hx =>
    isNamePart_of_alphanum (List.all_eq_true.mp ht x hx)
  refine isRead_word htext (isNameStart_of_letter hc) hparts ?_ hends
  rw [show (ofName name).text = name.toList from rfl, String.ofList_toList, hkeyword]
  rfl

/-- So is a keyword. -/
theorem isRead_ofKeyword {word : Keyword} (h : word ∈ [.None, .True, .False]) {cs : List Char}
    (hends : EndsWord cs) : (ofKeyword word).IsRead cs := by
  simp only [List.mem_cons, List.not_mem_nil, or_false] at h
  rcases h with rfl | rfl | rfl
  all_goals exact isRead_word rfl rfl rfl rfl hends

/-- A single lexeme is read where it is read alone. -/
theorem allRead_singleton {l : Lexeme} {cs : List Char} (h : l.IsRead cs) : AllRead [l] cs :=
  ⟨h, trivial⟩

/-- Blanks before a lexeme make no difference. -/
theorem IsRead.space {l : Lexeme} {cs : List Char} (h : l.IsRead cs) :
    ({ l with spaced := true } : Lexeme).IsRead cs := by
  refine ⟨h.nonempty, h.inLine, fun s depth gap hgap hline hrest hdepth => ?_⟩
  obtain ⟨s', hstep, hpassed⟩ := h.step s depth gap hgap hline hrest hdepth
  obtain ⟨ts, htokens, hspells⟩ := hpassed.tokens
  refine ⟨s', hstep, hpassed.rest, hpassed.depth, hpassed.indents, hpassed.atLineStart,
    hpassed.issues, ts, htokens, ?_⟩
  cases hspells with
  | cons ht hnil =>
    cases hnil
    exact .cons ht .nil

/-- A space in front changes nothing of what is read. -/
theorem allRead_space {ls : List Lexeme} {cs : List Char} (h : AllRead ls cs) :
    AllRead (space ls) cs := by
  cases ls with
  | nil => exact h
  | cons l ls => exact ⟨h.1.space, h.2⟩

/-- It is spelled in front of the first lexeme. -/
theorem spell_space {ls : List Lexeme} (h : Begins ls) : spell (space ls) = ' ' :: spell ls := by
  obtain ⟨l, rest, rfl, hl, -⟩ := h
  simp [space, spell_cons, gap, hl.spaced]

/-- Lexemes between brackets of any kind. -/
theorem allRead_between {opening closing : Lexeme} {ls : List Lexeme} {c : Char} {cs : List Char}
    (hopen : ∀ cs, opening.IsRead cs) (hclose : ∀ cs, closing.IsRead cs)
    (hspell : spell [closing] = [c]) (h : AllRead ls (c :: cs)) :
    AllRead (opening :: (ls ++ [closing])) cs := by
  refine ⟨hopen _, (allRead_append _ _ _).mpr ⟨?_, allRead_singleton (hclose cs)⟩⟩
  rwa [hspell]

/-- The lexemes are read in front of all that may stand behind an item of a list.  That is no dot, so
    that the item may end in a number. -/
def ReadAsItem (ls : List Lexeme) : Prop :=
  ∀ cs, Closes cs → cs.head? ≠ some '.' → AllRead ls cs

/-- An item is read in parentheses. -/
theorem ReadAsItem.parens {ls : List Lexeme} (h : ReadAsItem ls) (cs : List Char) :
    AllRead (parens ls) cs :=
  allRead_between (isRead_alone (by simp)) (isRead_alone (by simp)) rfl
    (h _ (closes_cons (by simp) _) (by simp))

/-- It is read in brackets. -/
theorem ReadAsItem.brackets {ls : List Lexeme} (h : ReadAsItem ls) (cs : List Char) :
    AllRead (brackets ls) cs :=
  allRead_between (isRead_alone (by simp)) (isRead_alone (by simp)) rfl
    (h _ (closes_cons (by simp) _) (by simp))

/-- It is read in braces. -/
theorem ReadAsItem.braces {ls : List Lexeme} (h : ReadAsItem ls) (cs : List Char) :
    AllRead (braces ls) cs :=
  allRead_between (isRead_alone (by simp)) (isRead_alone (by simp)) rfl
    (h _ (closes_cons (by simp) _) (by simp))

/-- Items with commas between them. -/
theorem readAsItem_listed {items : List (List Lexeme)} (h : ∀ item ∈ items, ReadAsItem item) :
    ReadAsItem (listed items) := by
  intro cs hcs hdot
  -- from behind: the items that follow are read, and they begin with a comma or are none
  have hfurther : ∀ others : List (List Lexeme), (∀ item ∈ others, ReadAsItem item) →
      AllRead (further others) cs ∧ Closes (spell (further others) ++ cs) ∧
        (spell (further others) ++ cs).head? ≠ some '.' := by
    intro others h
    induction others with
    | nil => exact ⟨trivial, hcs, hdot⟩
    | cons item others ih =>
      obtain ⟨hitem, h⟩ := List.forall_mem_cons.mp h
      obtain ⟨hread, hcloses, hdot'⟩ := ih h
      refine ⟨⟨isRead_alone (by simp) _, (allRead_append _ _ _).mpr
        ⟨allRead_space (hitem _ hcloses hdot'), hread⟩⟩, ?_, ?_⟩
      · exact closes_cons (by simp) _
      · simp [further, spell, delimiter, gap]
  cases items with
  | nil => trivial
  | cons item others =>
    obtain ⟨hitem, h⟩ := List.forall_mem_cons.mp h
    obtain ⟨hread, hcloses, hdot'⟩ := hfurther others h
    exact (allRead_append _ _ _).mpr ⟨hitem _ hcloses hdot', hread⟩

/-- What begins an expression is spelled without an equals sign in front. -/
theorem head?_spell_ne_equals {ls : List Lexeme} (h : Begins ls) (cs : List Char) :
    (spell ls ++ cs).head? ≠ some '=' := by
  obtain ⟨l, rest, rfl, hl, -⟩ := h
  obtain ⟨c, t, htext, -, hc, -⟩ := hl.text
  simpa [spell_cons, gap, hl.spaced, htext] using hc

/-- A `**` in front of an expression. -/
theorem allRead_doubleStar {ls : List Lexeme} {cs : List Char} (hbegins : Begins ls)
    (h : AllRead ls cs) : AllRead (delimiter .doubleStar ['*', '*'] :: ls) cs :=
  ⟨isRead_before_equals (by simp) (head?_spell_ne_equals hbegins cs), h⟩

/-- A keyword argument is read as an item if its value is. -/
theorem readAsItem_keywordItem {key : Option String} {value : List Lexeme}
    (hkey : ∀ name ∈ key, Expr.isIdentifier name) (hbegins : Begins value)
    (hvalue : ReadAsItem value) : ReadAsItem (keywordItem key value) := by
  intro cs hcs hdot
  have hread := hvalue cs hcs hdot
  cases key with
  | none => exact allRead_doubleStar hbegins hread
  | some key =>
    have hends : EndsWord ('=' :: (spell value ++ cs)) := by
      intro d hd
      obtain rfl := Option.some.inj hd
      decide
    exact ⟨isRead_ofName (hkey key rfl) hends,
      isRead_before_equals (by simp) (head?_spell_ne_equals hbegins cs), hread⟩

/-- So is an entry, if its key and its value are. -/
theorem readAsItem_entryItem {key : Option (List Lexeme)} {value : List Lexeme}
    (hkey : ∀ k ∈ key, ReadAsItem k) (hbegins : Begins value) (hvalue : ReadAsItem value) :
    ReadAsItem (entryItem key value) := by
  intro cs hcs hdot
  have hread := hvalue cs hcs hdot
  cases key with
  | none => exact allRead_doubleStar hbegins hread
  | some key =>
    refine (allRead_append _ _ _).mpr ⟨hkey key rfl _ (closes_cons (by simp) _)
      (by simp [delimiter, gap]), ?_, allRead_space hread⟩
    rw [spell_space hbegins]
    exact isRead_before_equals (by simp) (by simp)

end Lexeme

namespace Expr

/-- The expression is read wherever it may stand.  A dot stands behind it only if it takes no
    parentheses there. -/
def ReadAnywhere (e : Expr) : Prop :=
  ∀ cs, Closes cs → (cs.head? = some '.' → e.isOpenBase = false) → AllRead e.lexemes cs

namespace ReadAnywhere

variable {e : Expr}

/-- What is read anywhere is read as an item. -/
theorem readAsItem (h : e.ReadAnywhere) : ReadAsItem e.lexemes :=
  fun cs hcs hdot => h cs hcs fun hdot' => absurd hdot' hdot

/-- As a base an expression is read in front of a dot as well. -/
theorem asBase (h : e.ReadAnywhere) {cs : List Char} (hcs : Closes cs) :
    AllRead (asBase e e.lexemes) cs := by
  unfold Expr.asBase
  split
  · exact h.readAsItem.parens cs
  · rename_i hopen
    exact h cs hcs fun _ => by simpa using hopen

/-- What is read anywhere is read as an item where it is an operand, in parentheses or not. -/
theorem asOperand (h : e.ReadAnywhere) : ReadAsItem (asOperand e e.lexemes) := by
  unfold Expr.asOperand
  split
  · exact fun cs _ _ => h.readAsItem.parens cs
  · exact h.readAsItem

end ReadAnywhere

/-- Listed expressions are read as an item. -/
theorem readAsItem_each {es : List Expr} (h : ∀ e ∈ es, e.ReadAnywhere) :
    ReadAsItem (listed (es.map lexemes)) := by
  refine readAsItem_listed fun item hitem => ?_
  obtain ⟨e, he, rfl⟩ := List.mem_map.mp hitem
  exact (h e he).readAsItem

/-- So is a subscript. -/
theorem readAsItem_index {index : Expr} (h : index.ReadAnywhere)
    (hitems : ∀ items s, index = .tuple items s → ∀ e ∈ items, e.ReadAnywhere) :
    ReadAsItem (indexLexemes index) := by
  unfold indexLexemes
  split
  · exact readAsItem_each (hitems _ _ rfl)
  · exact h.readAsItem

/-- The comma behind the only item of a tuple ends the item as the parenthesis does. -/
theorem readAsItem_lastComma {ls : List Lexeme} (h : ReadAsItem ls) (items : List Expr) :
    ReadAsItem (ls ++ lastComma items) := by
  unfold lastComma
  split
  · intro cs _ _
    exact (allRead_append _ _ _).mpr ⟨h _ (closes_cons (by simp) _)
      (by simp [delimiter, gap]), allRead_singleton (isRead_alone (by simp) _)⟩
  · rwa [List.append_nil]

/-- An attribute is read anywhere if its base is. -/
theorem readAnywhere_attr {value : Expr} {field : Ident} (hvalue : value.ReadAnywhere)
    (hfield : isIdentifier field.name = true) (span : Span) :
    (attr value field span).ReadAnywhere := by
  intro cs hcs _
  obtain ⟨c, t, htext, hc, -⟩ := exists_letter_of_isIdentifier hfield
  rw [lexemes, allRead_append]
  refine ⟨hvalue.asBase (closes_cons (by simp) _), ?_,
    allRead_singleton (isRead_ofName hfield hcs.endsWord)⟩
  -- a dot before a letter begins neither `...` nor a number
  rw [spell_cons, show (ofName field.name).text = c :: t from htext]
  exact isRead_dot (isNameStart_of_letter hc)

/-- So is a call, if its function and its arguments are. -/
theorem readAnywhere_call {func : Expr} {args : List Expr} {keywords : List (Option String × Expr)}
    (hfunc : func.ReadAnywhere) (hargs : ∀ e ∈ args, e.ReadAnywhere)
    (hnames : ∀ k ∈ keywords, ∀ name ∈ k.1, isIdentifier name)
    (hkeywords : ∀ k ∈ keywords, Begins k.2.lexemes ∧ k.2.ReadAnywhere) (span : Span) :
    (call func args keywords span).ReadAnywhere := by
  intro cs _ _
  rw [lexemes, lexemesEach_eq, lexemesKeywords_eq, allRead_append]
  refine ⟨hfunc.asBase (closes_cons (by simp) _),
    (readAsItem_listed fun item hitem => ?_).parens cs⟩
  rcases List.mem_append.mp hitem with hitem | hitem
  · obtain ⟨e, he, rfl⟩ := List.mem_map.mp hitem
    exact (hargs e he).readAsItem
  · obtain ⟨k, hk, rfl⟩ := List.mem_map.mp hitem
    obtain ⟨hbegins, hvalue⟩ := hkeywords k hk
    exact readAsItem_keywordItem (hnames k hk) hbegins hvalue.readAsItem

/-- A number would go on with a dot behind it, which is why it takes parentheses there. -/
theorem readAnywhere_num {text : String} (h : isInteger text = true) (span : Span) :
    (num text span).ReadAnywhere := by
  intro cs hcs hdot
  have hends : EndsNumber cs := hcs.endsNumber fun h => absurd (hdot h) (by simp [isOpenBase])
  rw [lexemes]
  obtain ⟨digits, hdigits, -, hnumber⟩ | ⟨hdigits, hnumber⟩ := isInteger_cases h
  · rw [hnumber]
    refine ⟨?_, allRead_singleton (isRead_number hdigits rfl hends)⟩
    cases digits with
    | nil => exact absurd hdigits (by decide)
    | cons c t => exact isRead_minus (by simpa [isDigits] using hdigits : _ ∧ _).1
  · rw [hnumber]
    exact allRead_singleton (isRead_number hdigits rfl hends)

/-- A dictionary is read anywhere if its keys and values are. -/
theorem readAnywhere_dict {entries : List (Option Expr × Expr)}
    (hkeys : ∀ k ∈ entries, ∀ key ∈ k.1, key.ReadAnywhere)
    (hvalues : ∀ k ∈ entries, Begins k.2.lexemes ∧ k.2.ReadAnywhere) (span : Span) :
    (dict entries span).ReadAnywhere := by
  intro cs _ _
  rw [lexemes, lexemesEntries_eq]
  refine (readAsItem_listed fun item hitem => ?_).braces cs
  obtain ⟨k, hk, rfl⟩ := List.mem_map.mp hitem
  obtain ⟨hbegins, hvalue⟩ := hvalues k hk
  refine readAsItem_entryItem (fun ls hls => ?_) hbegins hvalue.readAsItem
  obtain ⟨key, hkey, rfl⟩ := Option.map_eq_some_iff.mp hls
  exact (hkeys k hk key hkey).readAsItem

/-- An operand begins as its expression does, or with a parenthesis. -/
theorem begins_asOperand {e : Expr} (h : Begins e.lexemes) : Begins (asOperand e e.lexemes) := by
  unfold asOperand
  split
  · exact begins_cons (startsExpr_delimiter rfl rfl rfl) (by simp [delimiter]) _
  · exact h

/-- A union is read anywhere if both sides are. -/
theorem readAnywhere_union {left right : Expr} (hleft : left.ReadAnywhere)
    (hbegins : Begins right.lexemes) (hright : right.ReadAnywhere) (span : Span) :
    (union left right span).ReadAnywhere := by
  intro cs hcs hdot
  have hdot' : cs.head? ≠ some '.' := fun h => absurd (hdot h) (by simp [isOpenBase])
  rw [lexemes, List.append_assoc, allRead_append, allRead_append]
  refine ⟨hleft _ (closes_cons (by simp) _) (by simp [space, delimiter, gap]), ?_,
    allRead_space (hright.asOperand cs hcs hdot')⟩
  -- the blank behind the bar keeps it from going on with `=`
  rw [spell_space (begins_asOperand hbegins)]
  exact allRead_singleton (isRead_before_equals (by simp) (by simp)).space

/-- In the text of an expression no lexeme runs into what stands behind it. -/
theorem readAnywhere (e : Expr) (h : e.Printable) : e.ReadAnywhere := by
  induction e using deepInduction with
  | name ident => exact fun cs hcs _ => allRead_singleton (isRead_ofName h hcs.endsWord)
  | attr value field span hvalue => exact readAnywhere_attr (hvalue h.1) h.2 span
  | subscript value index span hvalue hindex hitems =>
    intro cs _ _
    rw [lexemes_subscript, allRead_append]
    refine ⟨(hvalue h.1).asBase (closes_cons (by simp) _),
      (readAsItem_index (hindex h.2) ?_).brackets cs⟩
    rintro items s rfl e he
    exact hitems _ _ rfl e he ((allPrintable_iff items).mp h.2 e he)
  | call func args keywords span hfunc hargs hkeywords =>
    obtain ⟨hp, hpargs, hpkeywords⟩ := h
    rw [allPrintable_iff] at hpargs
    rw [keywordsPrintable_iff] at hpkeywords
    exact readAnywhere_call (hfunc hp) (fun e he => hargs e he (hpargs e he))
      (fun k hk => (hpkeywords k hk).1)
      (fun k hk => ⟨begins_lexemes k.2 (hpkeywords k hk).2, hkeywords k hk (hpkeywords k hk).2⟩) span
  | str value isBytes isFormatted span =>
    exact fun cs hcs _ => allRead_singleton (isRead_text rfl rfl hcs.head?_ne_quote)
  | num text span => exact readAnywhere_num h span
  | bool value span =>
    intro cs hcs _
    cases value <;> exact allRead_singleton (isRead_ofKeyword (by simp) hcs.endsWord)
  | none span =>
    exact fun cs hcs _ => allRead_singleton (isRead_ofKeyword (by simp) hcs.endsWord)
  | ellipsis span => exact fun cs _ _ => allRead_singleton (isRead_alone (by simp) _)
  | tuple items span hitems =>
    intro cs _ _
    rw [lexemes_tuple]
    rw [Printable, allPrintable_iff] at h
    exact (readAsItem_lastComma (readAsItem_each fun e he => hitems e he (h e he)) items).parens cs
  | list items span hitems =>
    intro cs _ _
    rw [lexemes, lexemesEach_eq]
    rw [Printable, allPrintable_iff] at h
    exact (readAsItem_each fun e he => hitems e he (h e he)).brackets cs
  | dict entries span hentries =>
    rw [Printable, entriesPrintable_iff] at h
    exact readAnywhere_dict
      (fun k hk key hkey => (hentries k hk).1 key hkey ((h k hk).1 key hkey))
      (fun k hk => ⟨begins_lexemes k.2 (h k hk).2, (hentries k hk).2 (h k hk).2⟩) span
  | union left right span hleft hright =>
    exact readAnywhere_union (hleft h.1) (begins_lexemes right h.2) (hright h.2) span
  | unmodelled span => exact absurd h id

/-- The tokens of the text of an expression are those of its lexemes, with the ends of the line and
    of the text behind them. -/
theorem tokenize_print (e : Expr) (h : e.Printable) :
    ∃ ts newline eof, tokenize e.print = (ts ++ [newline, eof], []) ∧
      List.Forall₂ Token.Spells ts e.lexemes ∧ newline.kind = .newline ∧ eof.kind = .eof := by
  obtain ⟨l, ls, hlexemes, hl, -⟩ := begins_lexemes e h
  obtain ⟨c, t, htext, hc, -, hmark⟩ := hl.text
  have hread := readAnywhere e h [] closes_nil (by simp)
  have hbalanced := balanced_lexemes e 0
  rw [hlexemes] at hread hbalanced
  rw [print, hlexemes]
  exact tokenize_spell hl.spaced htext hc hmark hread hbalanced

end Expr
end PackageDoc
