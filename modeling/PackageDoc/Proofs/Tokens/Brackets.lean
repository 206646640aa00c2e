import PackageDoc.Proofs.Annotation.Slices
import PackageDoc.Proofs.Layout.Blocks
import PackageDoc.Proofs.Syntax.OneLine
import PackageDoc.Proofs.Syntax.Spelling
import PackageDoc.Proofs.Tokens.Balance

namespace PackageDoc

/-!
# Which bad nesting of brackets is reported

Brackets are counted, and their shapes are not compared wherever a statement is passed over.  So a
text is sure to be reported for its brackets just where they are badly nested even when all of them
are taken for brackets of one shape.

* `Bracket.WellNested` — brackets that close in the right order, each by one of its shape;
* `depthBehind?_tokenize` — the brackets of a text without lexical issues, all of one shape, are;
* `acceptedText` — a text with given brackets that are, in which nothing is reported;
* `reported_iff_not_wellNested_blind` — what is reported for any text with given brackets.
-/

/-! ### Brackets -/

/-- The shapes of brackets. -/
inductive BracketShape where
  | round | square | curly
  deriving Repr, DecidableEq

/-- A bracket, which opens or closes. -/
structure Bracket where
  shape : BracketShape
  opens : Bool
  deriving Repr, DecidableEq

/-- The bracket that a token is. -/
def TokenKind.bracket? : TokenKind → Option Bracket
  | lparen => some ⟨.round, true⟩
  | rparen => some ⟨.round, false⟩
  | lbracket => some ⟨.square, true⟩
  | rbracket => some ⟨.square, false⟩
  | lbrace => some ⟨.curly, true⟩
  | rbrace => some ⟨.curly, false⟩
  | _ => none

/-- The brackets among some tokens. -/
def brackets (tokens : List Token) : List Bracket :=
  tokens.filterMap (·.kind.bracket?)

namespace Bracket

/-- The shapes of the brackets that are open behind some brackets, the latest first, with some open
    in front of them; `none` where one closes another bracket than the latest, or none at all. -/
def openBehind? : List BracketShape → List Bracket → Option (List BracketShape)
  | shapes, [] => some shapes
  | shapes, ⟨shape, true⟩ :: bs => openBehind? (shape :: shapes) bs
  | [], ⟨_, false⟩ :: _ => none
  | latest :: shapes, ⟨shape, false⟩ :: bs => if latest = shape then openBehind? shapes bs else none

/-- Each closing bracket pairs with the latest open bracket, of the same shape, and none is left
    open. -/
def WellNested (bs : List Bracket) : Prop :=
  openBehind? [] bs = some []

instance (bs : List Bracket) : Decidable (WellNested bs) :=
  inferInstanceAs (Decidable (openBehind? [] bs = some []))

/-- The bracket taken for a round one. -/
def blind (b : Bracket) : Bracket :=
  { b with shape := .round }

/-- How a bracket is written. -/
def lexeme : Bracket → Lexeme
  | ⟨.round, true⟩ => .delimiter .lparen ['(']
  | ⟨.round, false⟩ => .delimiter .rparen [')']
  | ⟨.square, true⟩ => .delimiter .lbracket ['[']
  | ⟨.square, false⟩ => .delimiter .rbracket [']']
  | ⟨.curly, true⟩ => .delimiter .lbrace ['\x7b']
  | ⟨.curly, false⟩ => .delimiter .rbrace ['\x7d']

/-- A token is a bracket, or none. -/
theorem bracket?_cases (kind : TokenKind) :
    (kind.bracket? = none ∧ kind.isOpenBracket = false ∧ kind.isCloseBracket = false) ∨
      ∃ b, kind.bracket? = some b ∧ kind.isOpenBracket = b.opens ∧
        kind.isCloseBracket = !b.opens := by
  cases kind <;> first
    | exact .inl ⟨rfl, rfl, rfl⟩
    | exact .inr ⟨_, rfl, rfl, rfl⟩

/-- The lexeme of a bracket is that bracket. -/
theorem bracket?_lexeme (b : Bracket) : b.lexeme.kind.bracket? = some b := by
  obtain ⟨shape, opens⟩ := b
  cases shape <;> cases opens <;> rfl

/-- A bracket is read as one token, whatever stands behind it. -/
theorem isRead_lexeme (b : Bracket) (cs : List Char) : b.lexeme.IsRead cs := by
  obtain ⟨shape, opens⟩ := b
  cases shape <;> cases opens <;> exact Lexeme.isRead_alone (by decide) cs

/-! ### Counting -/

/-- Brackets of one shape behind each other only have to be counted. -/
theorem openBehind?_blind (n : Nat) (kinds : List TokenKind) :
    openBehind? (List.replicate n .round) ((kinds.filterMap TokenKind.bracket?).map blind) =
      (kinds.foldlM (fun d (kind : TokenKind) => kind.depthBehind? d) n).map
        (List.replicate · .round) := by
  induction kinds generalizing n with
  | nil => rfl
  | cons kind kinds ih =>
    rw [List.foldlM_cons]
    obtain ⟨hnone, hopen, hclose⟩ | ⟨⟨shape, opens⟩, hsome, hopen, hclose⟩ := bracket?_cases kind
    · rw [List.filterMap_cons_none hnone, TokenKind.depthBehind?, hopen, hclose]
      exact ih n
    · rw [List.filterMap_cons_some hsome, List.map_cons, TokenKind.depthBehind?, hopen, hclose]
      cases opens with
      | true => exact ih (n + 1)
      | false =>
        cases n with
        | zero => rfl
        | succ n => exact ih n

/-- Brackets of one kind are nested exactly when their count comes back to zero. -/
theorem wellNested_blind_iff (kinds : List TokenKind) :
    WellNested ((kinds.filterMap TokenKind.bracket?).map blind) ↔
      kinds.foldlM (fun d (kind : TokenKind) => kind.depthBehind? d) 0 = some 0 := by
  have hblind := openBehind?_blind 0 kinds
  rw [List.replicate_zero] at hblind
  rw [WellNested, hblind, Option.map_eq_some_iff]
  constructor
  · rintro ⟨n, hn, hnil⟩
    rwa [(List.replicate_eq_nil_iff _).mp hnil] at hn
  · exact fun h => ⟨0, h, rfl⟩

/-- What is well nested is so in one shape as well. -/
theorem WellNested.blind {bs : List Bracket} (h : WellNested bs) :
    WellNested (bs.map Bracket.blind) := by
  have hopen (shapes shapes' : List BracketShape) (h : openBehind? shapes bs = some shapes') :
      openBehind? (shapes.map fun _ => .round) (bs.map Bracket.blind) =
        some (shapes'.map fun _ => .round) := by
    clear * - h
    fun_induction openBehind? shapes bs with
    | case1 shapes =>
      obtain rfl := Option.some.inj h
      rfl
    | case2 shapes shape bs ih => exact ih h
    | case3 => cases h
    | case4 latest shapes bs ih => exact ih h
    | case5 => cases h
  exact hopen [] [] h

end Bracket

/-- Brackets are counted kind by kind. -/
theorem depthBehind?_eq_foldlM (depth : Nat) (ts : List Token) :
    depthBehind? depth ts = (ts.map (·.kind)).foldlM (fun d kind => kind.depthBehind? d) depth := by
  rw [depthBehind?, List.foldlM_map]

/-- The brackets among tokens come from the kinds. -/
theorem brackets_eq (ts : List Token) :
    brackets ts = (ts.map (·.kind)).filterMap TokenKind.bracket? := by
  rw [brackets, List.filterMap_map]
  rfl

/-! ### What is sure to be reported -/

/-- Where no bracket is closed that is not open, none is passed over in counting. -/
theorem depthBehind?_of_strayCount {depth : Nat} {ts : List Token} (h : strayCount depth ts = 0) :
    depthBehind? depth ts = some (depthBehind depth ts) := by
  induction ts generalizing depth with
  | nil => rfl
  | cons t ts ih =>
    rw [strayCount, Nat.add_eq_zero_iff, Bool.toNat_eq_zero] at h
    have hbehind : t.kind.depthBehind? depth = some (t.kind.depthBehind depth) := by
      have hstray := h.1
      rw [TokenKind.isStray, Bool.and_eq_false_iff, beq_eq_false_iff_ne] at hstray
      unfold TokenKind.depthBehind? TokenKind.depthBehind
      split
      · rfl
      · split
        · rename_i hclose
          rw [if_neg (hstray.resolve_left (by simp [hclose]))]
        · rfl
    rw [depthBehind?_cons, hbehind, Option.bind_some, ih h.2]
    rfl

/-- The brackets of a text without lexical issues are closed as often as they are opened. -/
theorem depthBehind?_tokenize {source : String} (h : (tokenize source).2 = []) :
    depthBehind? 0 (tokenize source).1 = some 0 := by
  have hsteady : (Lexer.walked source.toList).Steady := (Lexer.steady_start _).run _
  obtain ⟨-, -, hissues, marks, htokens, hmarks⟩ := Lexer.tokenize_walked h
  have hclosed : (Lexer.walked source.toList).depth = 0 := by
    rw [tokenize_eq, List.reverse_eq_nil_iff] at h
    exact (Lexer.finish_eq h).2.2
  have hbrackets := hsteady.brackets
  rw [hissues, hclosed] at hbrackets
  have hwalked := depthBehind?_of_strayCount (hbrackets.strays.trans rfl)
  have hplain : Balanced marks := Balanced.of_plain fun t ht => by
    have hcontent := (hmarks t ht).1
    generalize t.kind = kind at hcontent ⊢
    cases kind <;> first | exact ⟨rfl, rfl⟩ | cases hcontent
  rw [htokens, depthBehind?_append, hwalked, hbrackets.depth, Option.bind_some, hplain]

/-- An error is reported, so that the text counts as malformed. -/
def Reported (source : String) : Prop :=
  ∃ issue ∈ (Suite.parse source).issues, issue.severity = .error

/-- A text is reported when it is parsed with issues. -/
theorem reported_iff (source : String) : Reported source ↔ (Suite.parse source).issues ≠ [] := by
  constructor
  · rintro ⟨issue, hmem, -⟩
    exact List.ne_nil_of_mem hmem
  · intro hne
    obtain ⟨issue, hmem⟩ := List.exists_mem_of_ne_nil _ hne
    exact ⟨issue, hmem, rfl⟩

/-! ### What is accepted -/

/-- The brackets behind a word that begins a statement which is passed over. -/
def acceptedLexemes (bs : List Bracket) : List Lexeme :=
  .ofKeyword .Return :: bs.map Bracket.lexeme

/-- A text with these brackets. -/
def acceptedText (bs : List Bracket) : String :=
  String.ofList (Lexeme.spell (acceptedLexemes bs))

/-- Brackets in an accepted place are read as such. -/
theorem allRead_acceptedLexemes (bs : List Bracket) : Lexeme.AllRead (acceptedLexemes bs) [] := by
  have hbrackets : Lexeme.AllRead (bs.map Bracket.lexeme) [] := by
    induction bs with
    | nil => exact trivial
    | cons b bs ih => exact ⟨b.isRead_lexeme _, ih⟩
  refine ⟨Lexeme.isRead_word rfl rfl rfl rfl ?_, hbrackets⟩
  cases bs with
  | nil => simp [Lexeme.EndsWord]
  | cons b bs =>
    obtain ⟨shape, opens⟩ := b
    cases shape <;> cases opens <;> rintro _ ⟨⟩ <;> decide

/-- The brackets of lexemes are counted kind by kind. -/
theorem depthsAfter?_eq_foldlM (depth : Nat) (ls : List Lexeme) :
    Lexeme.depthsAfter? depth ls =
      (ls.map (·.kind)).foldlM (fun d kind => kind.depthBehind? d) depth := by
  induction ls generalizing depth with
  | nil => rfl
  | cons l ls ih =>
    rw [Lexeme.depthsAfter?, List.map_cons, List.foldlM_cons]
    exact Option.bind_congr fun d _ => ih d

/-- Tokens that spell lexemes have their kinds. -/
theorem kinds_of_spells {ts : List Token} {ls : List Lexeme}
    (h : List.Forall₂ Token.Spells ts ls) : ts.map (·.kind) = ls.map (·.kind) := by
  induction h with
  | nil => rfl
  | cons ht _ ih => rw [List.map_cons, List.map_cons, ht.1, ih]

/-- The brackets of the text are those that were put in. -/
theorem bracketKinds_acceptedLexemes (bs : List Bracket) :
    ((acceptedLexemes bs).map (·.kind)).filterMap TokenKind.bracket? = bs := by
  rw [acceptedLexemes, List.map_cons, List.filterMap_cons_none rfl, List.map_map, List.filterMap_map]
  exact (List.filterMap_congr fun b _ => b.bracket?_lexeme).trans List.filterMap_some

/-- Does the token end a statement that is passed over? -/
def TokenKind.endsStatement (kind : TokenKind) : Bool :=
  kind.isLineEnd || kind == .semicolon || kind == .comment

namespace StmtReader

variable {prev t : Token} {ts after : List Token} {issues : List SyntaxIssue}

/-- A statement is skipped up to what ends it. -/
theorem run_skipStatement (hts : ∀ u ∈ ts, u.kind.endsStatement = false)
    (ht : t.kind.endsStatement = true) :
    skipStatement.run ⟨⟨prev, ts ++ t :: after⟩, issues⟩ =
      .ok () ⟨⟨ts.getLastD prev, t :: after⟩, issues⟩ := by
  have hskip : Cursor.skipTokens (fun kind => !kind.endsStatement) prev (ts ++ t :: after) =
      ⟨ts.getLastD prev, t :: after⟩ := by
    induction ts generalizing prev with
    | nil => simp [Cursor.skipTokens, ht]
    | cons u us ih =>
      obtain ⟨hu, hus⟩ := List.forall_mem_cons.mp hts
      rw [List.cons_append, Cursor.skipTokens, if_pos (by simp [hu]), ih hus, List.getLastD_cons]
  exact congrArg (fun c => EStateM.Result.ok () (StmtState.mk c issues)) hskip

/-- A line with a statement that begins with `return` is passed over. -/
theorem run_statementLine_return {newline : Token} (ht : t.kind = .keyword .Return)
    (hts : ∀ u ∈ ts, u.kind.endsStatement = false) (hnewline : newline.kind = .newline) (n : Nat) :
    (statementLine (n + 1)).run ⟨⟨prev, t :: (ts ++ newline :: after)⟩, issues⟩ =
      .ok [{ stmt := .other, span := t.span.cover (ts.getLastD t).span }]
        ⟨⟨newline, after⟩, issues⟩ := by
  have hall : ∀ u ∈ t :: ts, u.kind.endsStatement = false :=
    List.forall_mem_cons.mpr ⟨by rw [ht]; rfl, hts⟩
  have hsmall : smallStatement.run ⟨⟨prev, t :: (ts ++ newline :: after)⟩, issues⟩ =
      .ok .other ⟨⟨ts.getLastD t, newline :: after⟩, issues⟩ := by
    have hend : newline.kind.endsStatement = true := by rw [hnewline]; rfl
    have hskip : skipStatement.run ⟨⟨prev, t :: (ts ++ newline :: after)⟩, issues⟩ =
        .ok () ⟨⟨(t :: ts).getLastD prev, newline :: after⟩, issues⟩ := run_skipStatement hall hend
    rw [smallStatement, run_bind_of_ok (show peek.run _ = .ok t _ from rfl), ht]
    dsimp only
    rw [run_bind_of_ok hskip, List.getLastD_cons]
    rfl
  have hsimple : (statementLine (n + 1)).run ⟨⟨prev, t :: (ts ++ newline :: after)⟩, issues⟩ =
      simpleLine.run ⟨⟨prev, t :: (ts ++ newline :: after)⟩, issues⟩ := by
    rw [statementLine, run_bind_of_ok (show cursor.run _ = .ok _ _ from rfl), if_neg]
    simp [Cursor.at?_cons, Cursor.kind_cons, ht, TokenKind.startsCompound, Keyword.startsCompound]
  rw [hsimple, run_simpleLine hsmall hnewline]
  rfl

end StmtReader

/-- **Nothing is reported where the brackets are well nested in one shape**, if they stand in a
    statement that is passed over. -/
theorem acceptedText_spec {bs : List Bracket} (h : Bracket.WellNested (bs.map Bracket.blind)) :
    brackets (tokenize (acceptedText bs)).1 = bs ∧ (Suite.parse (acceptedText bs)).issues = [] := by
  have hdepth : Lexeme.depthsAfter? 0 (acceptedLexemes bs) = some 0 := by
    rw [depthsAfter?_eq_foldlM, ← Bracket.wellNested_blind_iff, bracketKinds_acceptedLexemes]
    exact h
  obtain ⟨ts, newline, eof, htokens, hspells, hnewline, heof⟩ :=
    tokenize_spell rfl rfl rfl (by decide) (allRead_acceptedLexemes bs) hdepth
  change tokenize (acceptedText bs) = _ at htokens
  have hkinds : ts.map (·.kind) = (acceptedLexemes bs).map (·.kind) := kinds_of_spells hspells
  refine ⟨?_, ?_⟩
  · rw [htokens, brackets_eq, List.map_append, List.filterMap_append, hkinds,
      bracketKinds_acceptedLexemes]
    simp [hnewline, heof, TokenKind.bracket?]
  · obtain ⟨t, us, rfl⟩ := List.exists_cons_of_ne_nil
      (show ts ≠ [] by rintro rfl; exact absurd hkinds (by simp [acceptedLexemes]))
    obtain ⟨ht, hus⟩ := List.cons.inj hkinds
    have hpassed : ∀ u ∈ us, u.kind.endsStatement = false := by
      intro u hu
      have hkind : u.kind ∈ (bs.map Bracket.lexeme).map (·.kind) :=
        hus ▸ List.mem_map_of_mem (f := fun t : Token => t.kind) hu
      simp only [List.mem_map] at hkind
      obtain ⟨_, ⟨⟨shape, opens⟩, -, rfl⟩, heq⟩ := hkind
      rw [← heq]
      cases shape <;> cases opens <;> rfl
    have hcontent : t.kind.isContent = true := by
      rw [show t.kind = .keyword .Return from ht]
      rfl
    rw [Suite.parse_of_statementLine htokens hcontent heof fun prev n =>
      StmtReader.run_statementLine_return ht hpassed hnewline (n + 5)]

/-- **For given brackets, an error is sure to be reported just where they are badly nested even if all
    of them are taken for round ones.** -/
theorem reported_iff_not_wellNested_blind (bs : List Bracket) :
    (∀ source, brackets (tokenize source).1 = bs → Reported source) ↔
      ¬ Bracket.WellNested (bs.map Bracket.blind) := by
  constructor
  · intro hreported hnested
    obtain ⟨hbrackets, hissues⟩ := acceptedText_spec hnested
    exact (reported_iff _).mp (hreported _ hbrackets) hissues
  · rintro hbad source rfl
    rw [reported_iff]
    intro hissues
    refine hbad ?_
    rw [brackets_eq, Bracket.wellNested_blind_iff, ← depthBehind?_eq_foldlM]
    exact depthBehind?_tokenize (Suite.tokenize_issues hissues)

/-- A parenthesis that a square bracket closes is not reported. -/
theorem not_reported_mismatched :
    ¬ Bracket.WellNested (brackets (tokenize "x = (a]\n").1) ∧ ¬ Reported "x = (a]\n" := by
  rw [reported_iff]
  decide +kernel

end PackageDoc
