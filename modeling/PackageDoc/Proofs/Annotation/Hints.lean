import PackageDoc.Proofs.Annotation.Grammar
import PackageDoc.Proofs.Layout.Comments
import PackageDoc.Proofs.Layout.Tokens

namespace PackageDoc

/-!
# Where expressions are read

Whatever is wrong with a text, each expression in it is read at a place among its tokens.  So the
annotations that are modelled are each read from tokens that follow one another.

* `Stmt.singles` and `Stmt.values` — the expressions of a statement;
* `Stmt.hints` and `hintsIn` — the annotations of a statement and those of a body, at any depth;
* `Expr.ReadAmong` and `Expr.ValueAmong` — an expression that is read at a place among the tokens;
* `StmtReader.Gathers` — a reader that goes on among the tokens, also when it fails, and what is true
  of its result;
* `StmtReader.readersGather` — the expressions that the readers of statements gather are read there;
* `Suite.bodyRead` and `Suite.sourced_of_mem_hints` — those of a text are, and its annotations are
  unmodelled or read from some of its tokens.
-/

/-! ### Expressions of statements -/

/-- The expressions of a parameter: its annotation and its default. -/
def Param.exprs (p : Param) : List Expr :=
  p.hint.toList ++ p.default.toList

/-- The expressions in the header of a function. -/
def FunctionHeader.exprs (h : FunctionHeader) : List Expr :=
  h.decorators ++ h.params.flatMap Param.exprs ++ h.returns.toList

/-- The expressions in the header of a class. -/
def ClassHeader.exprs (h : ClassHeader) : List Expr :=
  h.decorators ++ h.bases ++ h.keywords.map Prod.snd

/-- The expressions of a statement that are no tuples unless in parentheses. -/
def Stmt.singles : Stmt → List Expr
  | .functionDef header _ => header.exprs
  | .classDef header _ => header.exprs
  | .assign a => a.hint.toList
  | .cond test _ _ => [test]
  | _ => []

/-- The expressions of a statement that may be tuples without parentheses. -/
def Stmt.values : Stmt → List Expr
  | .assign a => a.targets ++ a.value.toList
  | .expr value => [value]
  | _ => []

/-- The annotations of a statement: those of the parameters and the result of a function, the bases
    of a class and the annotation of an assignment. -/
def Stmt.hints : Stmt → List Expr
  | .functionDef header _ => header.params.filterMap Param.hint ++ header.returns.toList
  | .classDef header _ => header.bases
  | .assign a => a.hint.toList
  | _ => []

/-- The annotations in a body, at any depth. -/
def hintsIn (body : List (Placed Stmt)) : List Expr :=
  (statementsIn body).flatMap fun p => p.stmt.hints

/-- The annotations in a text. -/
def Suite.hints (suite : Suite) : List Expr :=
  hintsIn suite.body

/-- Annotations are no tuples without parentheses. -/
theorem Stmt.hints_subset_singles (stmt : Stmt) : stmt.hints ⊆ stmt.singles := by
  intro e he
  cases stmt with
  | functionDef header body =>
    rcases List.mem_append.mp he with he | he
    · obtain ⟨p, hp, hhint⟩ := List.mem_filterMap.mp he
      refine List.mem_append_left _ (List.mem_append_right _ (List.mem_flatMap.mpr ⟨p, hp, ?_⟩))
      simp [Param.exprs, hhint]
    · exact List.mem_append_right _ he
  | classDef header body => exact List.mem_append_left _ (List.mem_append_right _ he)
  | assign a => exact he
  | _ => cases he

/-- Is the expression one of which no more than the place is known? -/
def Expr.isUnmodelled : Expr → Bool
  | .unmodelled _ => true
  | _ => false

/-- The expression is read from some of the tokens, or it is unmodelled. -/
def Expr.Sourced (tokens : List Token) (e : Expr) : Prop :=
  e.isUnmodelled = true ∨
    ∃ before ts after, tokens = before ++ ts ++ after ∧ Parses (.read e) ts

variable {tokens : List Token}

/-! ### Places among tokens -/

namespace Cursor

/-- A place among the tokens, in front of the end of the text. -/
structure Amid (tokens : List Token) (c : Cursor) : Prop where
  suffix : c.rest <:+ tokens
  beforeEnd : c.BeforeEnd

namespace Amid

variable {c c' : Cursor}

/-- Reading a token leaves a cursor amid the tokens of the text. -/
theorem advance (h : c.Amid tokens) (hkind : c.kind ≠ .eof) : c.advance.Amid tokens := by
  obtain ⟨hend, hrest⟩ := h.beforeEnd.advance hkind
  exact ⟨(hrest ▸ List.suffix_cons _ _).trans h.suffix, hend⟩

theorem within (h : c.Amid tokens) (hwithin : c.Within c') : c'.Amid tokens := by
  refine ⟨?_, hwithin.ahead h.beforeEnd⟩
  obtain ⟨passed, hrest, -⟩ := hwithin
  exact List.IsSuffix.trans ⟨passed, hrest.symm⟩ h.suffix

/-- Skipping tokens stays amid them as long as the end of the text is not skipped. -/
theorem skipTokens {p : TokenKind → Bool} (hp : ∀ kind, p kind = true → kind ≠ .eof) {prev : Token}
    {ts : List Token} (h : Amid tokens ⟨prev, ts⟩) : (Cursor.skipTokens p prev ts).Amid tokens := by
  induction ts generalizing prev with
  | nil => exact h
  | cons t ts ih =>
    rw [Cursor.skipTokens]
    split
    · exact ih (h.advance (hp _ ‹_›))
    · exact h

/-- Taking up comments stays amid the tokens. -/
theorem pendingComments (pending : List Comment) {prev : Token} {ts : List Token}
    (h : Amid tokens ⟨prev, ts⟩) : (StmtReader.pendingComments pending prev ts).2.Amid tokens := by
  induction ts generalizing pending prev with
  | nil => exact h
  | cons t ts ih =>
    have hpass {kind : TokenKind} (hkind : t.kind = kind) (hend : kind ≠ .eof) :
        Amid tokens ⟨t, ts⟩ := by
      refine h.advance ?_
      change t.kind ≠ .eof
      rwa [hkind]
    rw [StmtReader.pendingComments]
    split
    · exact ih _ (hpass ‹_› (by simp))
    · split
      · exact ih _ (hpass ‹_› (by simp))
      · exact h

end Amid

/-- Looking for the end of a header stays within what is left. -/
theorem within_headerEnd (depth lambdas : Nat) (prev : Token) (ts : List Token) :
    Within ⟨prev, ts⟩ (StmtReader.headerEnd depth lambdas prev ts).2 := by
  induction ts generalizing depth lambdas prev with
  | nil => exact .refl _
  | cons t ts ih =>
    rw [StmtReader.headerEnd]
    split
    · exact .refl _
    · rename_i hend
      have hinner : t.kind.isLineEnd = false := by simp_all
      have hmore (depth lambdas : Nat) :
          Within ⟨prev, t :: ts⟩ (StmtReader.headerEnd depth lambdas t ts).2 :=
        .cons hinner (ih depth lambdas t)
      -- only the colon that ends the header is the last token that is passed
      split
      · exact hmore _ _
      · split
        · exact hmore _ _
        · split
          · exact hmore _ _
          · split
            · split
              · exact .cons hinner (.refl _)
              · exact hmore _ _
            · exact hmore _ _

end Cursor

/-- The expression is read at a place among the tokens. -/
def Expr.ReadAmong (tokens : List Token) (e : Expr) : Prop :=
  ∃ stops c, c.Amid tokens ∧ (Expr.readUntil stops c).1 = e

/-- The expression, perhaps a tuple without parentheses, is read at a place among the tokens. -/
def Expr.ValueAmong (tokens : List Token) (e : Expr) : Prop :=
  ∃ stops c, c.Amid tokens ∧ (Expr.readTupleUntil stops c).1 = e

/-- An expression of any shape is read from the tokens that are passed, or it is unmodelled. -/
theorem Expr.ReadAmong.sourced {e : Expr} (h : e.ReadAmong tokens) : e.Sourced tokens := by
  obtain ⟨stops, c, hc, rfl⟩ := h
  unfold Expr.readUntil
  split
  · rename_i e c' hread
    split
    · obtain ⟨-, ts, hrest, hparses⟩ := (Expr.readersYield _).read c e c' hread hc.beforeEnd
      obtain ⟨before, hbefore⟩ := hc.suffix
      refine .inr ⟨before, ts, c'.rest, ?_, hparses⟩
      rw [← hbefore, hrest, List.append_assoc]
    · exact .inl rfl
  · exact .inl rfl

/-- All the expressions are read among the tokens. -/
def EachRead (tokens : List Token) (es : List Expr) : Prop :=
  ∀ e ∈ es, e.ReadAmong tokens

theorem EachRead.nil : EachRead tokens [] := by simp [EachRead]

theorem EachRead.append {es es' : List Expr} (h : EachRead tokens es) (h' : EachRead tokens es') :
    EachRead tokens (es ++ es') :=
  List.forall_mem_append.mpr ⟨h, h'⟩

/-- The expressions of a statement are read among the tokens. -/
structure Stmt.ReadAmong (tokens : List Token) (stmt : Stmt) : Prop where
  singles : EachRead tokens stmt.singles
  values : ∀ e ∈ stmt.values, e.ValueAmong tokens

/-- Those of the statements in a body are, at any depth. -/
def BodyRead (tokens : List Token) (body : List (Placed Stmt)) : Prop :=
  ∀ p ∈ statementsIn body, p.stmt.ReadAmong tokens

/-- Those of a statement and of all inside it are. -/
structure Stmt.AllRead (tokens : List Token) (stmt : Stmt) : Prop extends stmt.ReadAmong tokens where
  inner : ∀ p ∈ stmt.inner, p.stmt.ReadAmong tokens

namespace BodyRead

variable {p : Placed Stmt} {ps body body' : List (Placed Stmt)}

theorem nil : BodyRead tokens [] := by simp [BodyRead, statementsIn]

/-- A body is read when its first statement is, and the others. -/
theorem cons_iff : BodyRead tokens (p :: ps) ↔ p.stmt.AllRead tokens ∧ BodyRead tokens ps := by
  rw [BodyRead, statementsIn, Placed.withInner_eq, List.forall_mem_append, List.forall_mem_cons]
  exact and_congr_left' ⟨fun h => ⟨h.1, h.2⟩, fun h => ⟨h.toReadAmong, h.inner⟩⟩

theorem single (h : p.stmt.AllRead tokens) : BodyRead tokens [p] :=
  cons_iff.mpr ⟨h, nil⟩

theorem append (h : BodyRead tokens body) (h' : BodyRead tokens body') :
    BodyRead tokens (body ++ body') := by
  rw [BodyRead, statementsIn_append]
  exact List.forall_mem_append.mpr ⟨h, h'⟩

/-- Comments above a body change nothing of what is read in it. -/
theorem withLeading (pending : List Comment) (h : BodyRead tokens body) :
    BodyRead tokens (StmtReader.withLeading pending body) := by
  cases body with
  | nil => exact h
  | cons p ps =>
    obtain ⟨hp, hmore⟩ := cons_iff.mp h
    exact cons_iff.mpr ⟨hp, hmore⟩

/-- Nor does a comment behind its last statement. -/
theorem withTrailing (comment : Comment) (h : BodyRead tokens body) :
    BodyRead tokens (modifyLast (Placed.withTrailing comment) body) := by
  have hone {p : Placed Stmt} (hp : p.stmt.AllRead tokens) :
      (p.withTrailing comment).stmt.AllRead tokens := by
    obtain ⟨stmt, span, leading, trailing⟩ := p
    cases stmt <;> exact ⟨⟨hp.singles, hp.values⟩, hp.inner⟩
  fun_induction modifyLast (Placed.withTrailing comment) body with
  | case1 => exact h
  | case2 p => exact single (hone (cons_iff.mp h).1)
  | case3 p ps hps ih =>
    obtain ⟨hp, hmore⟩ := cons_iff.mp h
    exact cons_iff.mpr ⟨hp, ih hmore⟩

end BodyRead

namespace Stmt.AllRead

variable {body orelse : List (Placed Stmt)}

/-- A statement without expressions and bodies. -/
theorem leaf {stmt : Stmt} (h : stmt.singles = [] ∧ stmt.values = [] ∧ stmt.inner = []) :
    stmt.AllRead tokens where
  singles := h.1 ▸ .nil
  values := by simp [h.2.1]
  inner := by simp [h.2.2]

/-- A conditional is read where its test and its two bodies are. -/
theorem cond {test : Expr} (htest : test.ReadAmong tokens) (hbody : BodyRead tokens body)
    (horelse : BodyRead tokens orelse) : (Stmt.cond test body orelse).AllRead tokens where
  singles := by simpa [EachRead, Stmt.singles] using htest
  values := by simp [Stmt.values]
  inner := List.forall_mem_append.mpr ⟨hbody, horelse⟩

/-- A block is read where all its bodies are. -/
theorem block {bodies : List (List (Placed Stmt))} (h : ∀ body ∈ bodies, BodyRead tokens body) :
    (Stmt.block bodies).AllRead tokens where
  singles := .nil
  values := by simp [Stmt.values]
  inner := by
    show ∀ p ∈ statementsInEach bodies, _
    induction bodies with
    | nil => simp [statementsInEach]
    | cons body bodies ih =>
      obtain ⟨hbody, hbodies⟩ := List.forall_mem_cons.mp h
      rw [statementsInEach]
      exact List.forall_mem_append.mpr ⟨hbody, ih hbodies⟩

end Stmt.AllRead

/-! ### Readers -/

namespace StmtReader

open Cursor

variable {α β : Type} {s s' : StmtState} {kind : TokenKind} {P : α → Prop} {Q : β → Prop}

/-- The reader goes on among the tokens, also when it fails, and `P` is true of its result. -/
def Gathers (tokens : List Token) (P : α → Prop) (m : StmtReader α) (s : StmtState) : Prop :=
  s.cursor.Amid tokens → match m.run s with
    | .ok a s' => s'.cursor.Amid tokens ∧ P a
    | .error _ s' => s'.cursor.Amid tokens

/-- The reader goes on among the tokens. -/
abbrev GoesOn (tokens : List Token) (m : StmtReader α) (s : StmtState) : Prop :=
  Gathers tokens (fun _ => True) m s

/-- The expressions of the statement are read among the tokens. -/
abbrev Reads (tokens : List Token) (m : StmtReader Stmt) (s : StmtState) : Prop :=
  Gathers tokens (Stmt.AllRead tokens) m s

/-- The expressions of the statements are read among the tokens. -/
abbrev ReadsAll (tokens : List Token) (m : StmtReader (List (Placed Stmt))) (s : StmtState) : Prop :=
  Gathers tokens (BodyRead tokens) m s

/-- The expressions of the parameters are read among the tokens. -/
abbrev ReadsParams (tokens : List Token) (m : StmtReader (List Param)) (s : StmtState) : Prop :=
  Gathers tokens (fun params => EachRead tokens (params.flatMap Param.exprs)) m s

namespace Gathers

theorem pure {a : α} (h : P a) : Gathers tokens P (pure a) s :=
  fun hs => ⟨hs, h⟩

theorem fail (error : SyntaxError) : Gathers tokens P (StmtReader.fail error) s :=
  fun hs => hs

/-- One reader after another, the second at the place where the first ends. -/
theorem bind_run {m : StmtReader α} {f : α → StmtReader β} (hm : Gathers tokens P m s)
    (hf : ∀ a s', m.run s = .ok a s' → P a → Gathers tokens Q (f a) s') :
    Gathers tokens Q (m >>= f) s := by
  intro hs
  have hfirst := hm hs
  change match EStateM.bind m f s with
    | .ok b s' => s'.cursor.Amid tokens ∧ Q b
    | .error _ s' => s'.cursor.Amid tokens
  unfold EStateM.bind
  unfold EStateM.run at hfirst
  split at hfirst
  · rename_i a s' hrun
    rw [hrun]
    exact hf a s' hrun hfirst.2 hfirst.1
  · rename_i hrun
    rw [hrun]
    exact hfirst

theorem bind {m : StmtReader α} {f : α → StmtReader β} (hm : Gathers tokens P m s)
    (hf : ∀ a s, P a → Gathers tokens Q (f a) s) : Gathers tokens Q (m >>= f) s :=
  hm.bind_run fun a s' _ => hf a s'

/-- A reader gathers anything weaker as well. -/
theorem mono {P' : α → Prop} {m : StmtReader α} (h : Gathers tokens P m s)
    (himp : ∀ a, P a → P' a) : Gathers tokens P' m s := by
  intro hs
  have hm := h hs
  split at hm
  · exact ⟨hm.1, himp _ hm.2⟩
  · exact hm

theorem map {m : StmtReader α} {f : α → β} (h : Gathers tokens (fun a => Q (f a)) m s) :
    Gathers tokens Q (f <$> m) s := by
  rw [map_eq_pure_bind]
  exact h.bind fun _ _ => .pure

theorem ite {p : Prop} [Decidable p] {m m' : StmtReader α} (hm : p → Gathers tokens P m s)
    (hm' : ¬p → Gathers tokens P m' s) : Gathers tokens P (if p then m else m') s := by
  split
  · exact hm ‹_›
  · exact hm' ‹_›

/-- A reader with recovery gathers what the recovery gathers too. -/
theorem tryCatch {m : StmtReader α} {f : SyntaxIssue → StmtReader α} (hm : Gathers tokens P m s)
    (hf : ∀ issue s, Gathers tokens P (f issue) s) : Gathers tokens P (tryCatch m f) s := by
  intro hs
  have hfirst := hm hs
  change match EStateM.tryCatch m f s with
    | .ok b s' => s'.cursor.Amid tokens ∧ P b
    | .error _ s' => s'.cursor.Amid tokens
  unfold EStateM.tryCatch
  unfold EStateM.run at hfirst
  split at hfirst
  · rename_i a s' hrun
    rw [hrun]
    exact hfirst
  · rename_i issue s' hrun
    rw [hrun]
    exact hf issue s' hfirst

/-! Looking at the present place changes nothing. -/

theorem cursor_bind {f : Cursor → StmtReader β} (h : Gathers tokens Q (f s.cursor) s) :
    Gathers tokens Q (cursor >>= f) s := h

theorem peek_bind {f : Token → StmtReader β} (h : Gathers tokens Q (f s.cursor.peek) s) :
    Gathers tokens Q (peek >>= f) s := h

theorem at_bind {f : Bool → StmtReader β} (h : Gathers tokens Q (f (s.cursor.at? kind)) s) :
    Gathers tokens Q (at? kind >>= f) s := h

theorem rounds_bind {f : Nat → StmtReader β}
    (h : Gathers tokens Q (f (s.cursor.rest.length + 1)) s) : Gathers tokens Q (rounds >>= f) s := h

/-- An issue that is reported in between changes nothing of what is gathered. -/
theorem report_bind {f : Unit → StmtReader β} {issue : SyntaxIssue}
    (h : Gathers tokens Q (f ()) { s with issues := issue :: s.issues }) :
    Gathers tokens Q (report issue >>= f) s := h

/-! Passing tokens. -/

theorem moveTo {c : Cursor} (h : s.cursor.Amid tokens → c.Amid tokens) :
    GoesOn tokens (moveTo c) s :=
  fun hs => ⟨h hs, trivial⟩

/-- A token that is read in between may be any but the end of the text. -/
theorem advance_bind {f : Token → StmtReader β} (hkind : s.cursor.kind ≠ .eof)
    (h : Gathers tokens Q (f s.cursor.peek) { s with cursor := s.cursor.advance }) :
    Gathers tokens Q (advance >>= f) s :=
  fun hs => h (hs.advance hkind)

/-- Reading a token of one kind if it stands there goes on amid the tokens. -/
theorem eat (hkind : kind ≠ .eof) : GoesOn tokens (eat kind) s := by
  refine at_bind (ite (fun hat => ?_) fun _ => pure trivial)
  exact advance_bind (by rwa [show s.cursor.kind = kind from eq_of_beq hat]) (pure trivial)

/-- So does expecting one. -/
theorem expect (hkind : kind ≠ .eof) : GoesOn tokens (expect kind) s := by
  refine at_bind (ite (fun hat hs => ?_) fun _ => peek_bind (fail _))
  exact ⟨hs.advance (by rwa [show s.cursor.kind = kind from eq_of_beq hat]), trivial⟩

/-- So does reading a name. -/
theorem ident : GoesOn tokens ident s :=
  bind (expect (by simp)) fun _ _ _ => pure trivial

/-- So does skipping tokens that are not the end. -/
theorem skipWhile {p : TokenKind → Bool} (hp : ∀ kind, p kind = true → kind ≠ .eof) :
    GoesOn tokens (skipWhile p) s :=
  cursor_bind (moveTo fun hs => hs.skipTokens hp)

/-- So does skipping the rest of a statement. -/
theorem skipStatement : GoesOn tokens skipStatement s :=
  skipWhile fun kind hkind => by
    rintro rfl
    cases hkind

/-- So does skipping a line. -/
theorem skipLine : GoesOn tokens skipLine s := by
  refine bind (skipWhile fun kind hkind => ?_) fun _ s _ => bind (eat (by simp)) fun _ _ _ => pure trivial
  rintro rfl
  cases hkind

/-! Expressions. -/

/-- An expression up to a stop is read among the tokens of the text. -/
theorem exprUntil (stops : List TokenKind) :
    Gathers tokens (Expr.ReadAmong tokens) (exprUntil stops) s :=
  fun hs => ⟨hs.within (Expr.within_readUntil stops s.cursor), stops, s.cursor, hs, rfl⟩

/-- So is the value of a statement, which may be a tuple without brackets. -/
theorem tupleUntil (stops : List TokenKind) :
    Gathers tokens (Expr.ValueAmong tokens) (tupleUntil stops) s :=
  fun hs => ⟨hs.within (Expr.within_readTupleUntil stops s.cursor), stops, s.cursor, hs, rfl⟩

/-- An expression that is there if a token is. -/
theorem optional (hkind : kind ≠ .eof) (stops : List TokenKind) {f : Option Expr → StmtReader β}
    (hf : ∀ e s, EachRead tokens e.toList → Gathers tokens Q (f e) s) : Gathers tokens Q (do
      let e ← if ← StmtReader.eat kind then some <$> StmtReader.exprUntil stops else Pure.pure none
      f e) s := by
  refine bind (eat hkind) fun found s _ => ite (fun _ => ?_) fun _ => hf none s .nil
  refine bind (map ((exprUntil stops).mono fun e he => ?_)) hf
  simpa [EachRead] using he

/-! ### Simple statements -/

/-- The rest of a dotted name is passed amid the tokens. -/
theorem dottedTail (n : Nat) (name : Ident) : GoesOn tokens (dottedTail n name) s := by
  induction n generalizing name s with
  | zero => exact pure trivial
  | succ n ih =>
    refine cursor_bind (ite (fun h => ?_) fun _ => pure trivial)
    have hkind : s.cursor.kind = .dot := eq_of_beq (Bool.and_eq_true_iff.mp h).1
    exact advance_bind (by simp [hkind]) (bind ident fun part s _ => ih _)

/-- So is a dotted name. -/
theorem dottedName : GoesOn tokens dottedName s :=
  bind ident fun first _ _ => rounds_bind (dottedTail _ first)

/-- So is what is imported, with its `as`. -/
theorem importedAs {name : StmtReader Ident} (hname : ∀ s, GoesOn tokens name s) :
    GoesOn tokens (importedAs name) s := by
  refine bind (hname s) fun name s _ => bind (eat (by simp)) fun found s _ => ite (fun _ => ?_) fun _ => ?_
  · exact bind ident fun other s _ => pure trivial
  · exact pure trivial

/-- So are the modules of an `import`. -/
theorem moduleAliases (n : Nat) : GoesOn tokens (moduleAliases n) s := by
  induction n generalizing s with
  | zero => exact pure trivial
  | succ n ih =>
    refine bind (importedAs fun _ => dottedName) fun first s _ =>
      bind (eat (by simp)) fun found s _ => ite (fun _ => ?_) fun _ => pure trivial
    exact bind ih fun others s _ => pure trivial

/-- So are the dots in front of a relative import. -/
theorem importLevel (n : Nat) : GoesOn tokens (importLevel n) s := by
  induction n generalizing s with
  | zero => exact pure trivial
  | succ n ih =>
    refine peek_bind ?_
    split
    · rename_i hkind
      exact advance_bind (by simp [Cursor.kind, hkind]) (bind ih fun level s _ => pure trivial)
    · rename_i hkind
      exact advance_bind (by simp [Cursor.kind, hkind]) (bind ih fun level s _ => pure trivial)
    · exact pure trivial

/-- So are the names of a `from` import. -/
theorem nameAliases (inParens : Bool) (n : Nat) : GoesOn tokens (nameAliases inParens n) s := by
  induction n generalizing s with
  | zero => exact pure trivial
  | succ n ih =>
    refine at_bind (ite (fun _ => pure trivial) fun _ => ?_)
    refine bind (importedAs fun _ => ident) fun first s _ =>
      bind (eat (by simp)) fun found s _ => ite (fun _ => ?_) fun _ => pure trivial
    exact bind ih fun others s _ => pure trivial

/-- So are they in parentheses. -/
theorem importedNames : GoesOn tokens importedNames s := by
  refine at_bind (ite (fun h => ?_) fun _ => ?_)
  · have hkind : s.cursor.kind = .star := eq_of_beq h
    exact advance_bind (by simp [hkind]) (pure trivial)
  · refine bind (eat (by simp)) fun inParens s _ => rounds_bind (bind (nameAliases _ _) ?_)
    exact fun names s _ => ite (fun _ => bind (expect (by simp)) fun _ _ _ => pure trivial)
      fun _ => pure trivial

/-- An `import` holds no expression that has to be read. -/
theorem importNames : Reads tokens importNames s :=
  bind (expect (by simp)) fun _ s _ => rounds_bind (bind (moduleAliases _) fun _ _ _ => pure (.leaf ⟨rfl, rfl, rfl⟩))

/-- Nor does a `from` import. -/
theorem importFrom : Reads tokens importFrom s := by
  have hnames (module : Option Ident) (level : Nat) (s : StmtState) : Reads tokens (do
      let _ ← StmtReader.expect (.keyword .Import)
      return Stmt.importFrom ⟨module.map Ident.name, level, ← StmtReader.importedNames⟩) s :=
    bind (expect (by simp)) fun _ s _ => bind importedNames fun _ _ _ => pure (.leaf ⟨rfl, rfl, rfl⟩)
  have hmodule (module : Option Ident) (level : Nat) (s : StmtState) : Reads tokens (do
      if module.isNone && level == 0 then
        StmtReader.fail .expectedModuleName
      let _ ← StmtReader.expect (.keyword .Import)
      return Stmt.importFrom ⟨module.map Ident.name, level, ← StmtReader.importedNames⟩) s :=
    ite (fun _ => bind (P := fun _ => True) (fail _) fun _ s _ => hnames _ level s)
      fun _ => hnames _ level s
  refine bind (expect (by simp)) fun _ s _ =>
    rounds_bind (bind (importLevel _) fun level s _ => at_bind (ite (fun _ => ?_) fun _ => ?_))
  · exact bind (map dottedName) fun module s (_ : True) => hmodule module level s
  · exact hmodule none level s

/-- The targets of an assignment and its value are read among the tokens. -/
theorem assignedValues (n : Nat) (h : s.cursor.kind ≠ .eof) : Gathers tokens
    (fun r => (∀ e ∈ r.1, e.ValueAmong tokens) ∧ r.2.ValueAmong tokens) (assignedValues n) s := by
  induction n generalizing s with
  | zero => exact bind (tupleUntil _) fun value s hvalue => pure ⟨by simp, hvalue⟩
  | succ n ih =>
    refine advance_bind h (bind (tupleUntil _) fun value s hvalue => at_bind (ite (fun h => ?_) fun _ => ?_))
    · have hkind : s.cursor.kind = .equals := eq_of_beq h
      exact bind (ih (by simp [hkind])) fun rest s hrest =>
        pure ⟨List.forall_mem_cons.mpr ⟨hvalue, hrest.1⟩, hrest.2⟩
    · exact pure ⟨by simp, hvalue⟩

/-- A statement that begins with an expression is read among the tokens. -/
theorem exprStatement : Reads tokens exprStatement s := by
  have hassign {a : Assignment} (htargets : ∀ e ∈ a.targets, e.ValueAmong tokens)
      (hhint : ∀ e ∈ a.hint, e.ReadAmong tokens) (hvalue : ∀ e ∈ a.value, e.ValueAmong tokens) :
      (Stmt.assign a).AllRead tokens :=
    ⟨⟨by simpa [EachRead, Stmt.singles] using hhint,
      List.forall_mem_append.mpr ⟨htargets, by simpa using hvalue⟩⟩, by simp [Stmt.inner]⟩
  refine bind (tupleUntil _) fun first s hfirst => peek_bind ?_
  split
  -- a hint, and perhaps a value
  · rename_i hkind
    refine advance_bind (by simp [Cursor.kind, hkind]) (bind (exprUntil _) fun hint s hhint => ?_)
    refine bind (eat (by simp)) fun found s _ => ite (fun _ => ?_) fun _ => ?_
    · refine bind (map (Q := fun value => ∀ e ∈ value, e.ValueAmong tokens)
        ((tupleUntil _).mono fun value hvalue => by simpa using hvalue)) fun value s hvalue => ?_
      exact pure (hassign (by simpa using hfirst) (by simpa using hhint) hvalue)
    · exact pure (hassign (by simpa using hfirst) (by simpa using hhint) (by simp))
  -- more targets, then a value
  · rename_i hkind
    refine rounds_bind (bind (assignedValues _ (by simp [Cursor.kind, hkind])) ?_)
    refine fun values s hvalues => pure (hassign ?_ (by simp) (by simpa using hvalues.2))
    exact List.forall_mem_cons.mpr ⟨hfirst, hvalues.1⟩
  -- an augmented assignment, or an expression on its own
  · exact bind skipStatement fun _ s _ => pure (.leaf ⟨rfl, rfl, rfl⟩)
  · exact pure ⟨⟨.nil, by simpa [Stmt.values] using hfirst⟩, by simp [Stmt.inner]⟩

/-- So is any small statement. -/
theorem smallStatement : Reads tokens smallStatement s := by
  refine peek_bind ?_
  split
  · exact importNames
  · exact importFrom
  iterate 3
    · rename_i hkind
      exact advance_bind (by simp [Cursor.kind, hkind]) (pure (.leaf ⟨rfl, rfl, rfl⟩))
  iterate 8
    · exact bind skipStatement fun _ s _ => pure (.leaf ⟨rfl, rfl, rfl⟩)
  · exact exprStatement

/-- So is one with recovery, because recovery only passes tokens. -/
theorem orReport {recover : StmtReader Unit} {read : StmtReader Stmt}
    (hrecover : ∀ s, GoesOn tokens recover s) (h : Reads tokens read s) :
    Reads tokens (orReport recover read) s :=
  tryCatch h fun _ _ => report_bind (bind (hrecover _) fun _ _ _ => pure (.leaf ⟨rfl, rfl, rfl⟩))

/-- Its place adds nothing to a statement. -/
theorem placed {read : StmtReader Stmt} (h : Reads tokens read s) :
    Gathers tokens (fun p => p.stmt.AllRead tokens) (placed read) s :=
  peek_bind (bind h fun _ _ hstmt => cursor_bind (pure hstmt))

/-- The small statements of a line are read among the tokens. -/
theorem smallStatements (n : Nat) : ReadsAll tokens (smallStatements n) s := by
  induction n generalizing s with
  | zero => exact pure .nil
  | succ n ih =>
    refine bind (placed (orReport (fun _ => skipStatement) smallStatement)) fun first s hfirst => ?_
    refine bind (eat (by simp)) fun found s _ => ite (fun _ => ?_) fun _ => pure (.single hfirst)
    refine peek_bind (ite (fun _ => pure (.single hfirst)) fun _ => ?_)
    exact bind ih fun others s hothers => pure (BodyRead.cons_iff.mpr ⟨hfirst, hothers⟩)

/-- So is a line of small statements. -/
theorem simpleLine : ReadsAll tokens simpleLine s := by
  have hend (stmts : List (Placed Stmt)) (h : BodyRead tokens stmts) (s : StmtState) :
      ReadsAll tokens (do
        unless ← StmtReader.eat .newline do
          unless ← StmtReader.at? .eof do
            StmtReader.report ⟨(← StmtReader.peek).span, .invalidSyntax⟩
            StmtReader.skipLine
        return stmts) s := by
    refine bind (eat (by simp)) fun found s _ => ite (fun _ => pure h) fun _ => at_bind ?_
    refine ite (fun _ => pure h) fun _ => peek_bind (report_bind ?_)
    exact bind skipLine fun _ s _ => pure h
  refine rounds_bind (bind (smallStatements _) fun stmts s hstmts => at_bind (ite (fun hat => ?_) fun _ => ?_))
  · have hkind : s.cursor.kind = .comment := eq_of_beq hat
    exact advance_bind (by simp [hkind]) (hend _ (hstmts.withTrailing _) _)
  · exact hend stmts hstmts s

/-! ### Headers -/

/-- The annotation and the default of a parameter are read among the tokens. -/
theorem param (kind : ParamKind) :
    Gathers tokens (fun p => EachRead tokens p.exprs) (param kind) s :=
  bind ident fun _ _ _ => optional (by simp) _ fun _ _ hhint => optional (by simp) _ fun _ _ hdefault =>
    pure (hhint.append hdefault)

/-- So are those of all parameters, with the ones that were read before. -/
theorem paramList (n : Nat) (kind : ParamKind) (params : List Param)
    (h : EachRead tokens (params.flatMap Param.exprs)) :
    ReadsParams tokens (paramList n kind params) s := by
  induction n generalizing kind params s with
  | zero => exact pure h
  | succ n ih =>
    have hagain (kind : ParamKind) (params : List Param)
        (h : EachRead tokens (params.flatMap Param.exprs)) (s : StmtState) :
        ReadsParams tokens (do
          if ← StmtReader.eat .comma then StmtReader.paramList n kind params else return params) s :=
      bind (eat (by simp)) fun found s _ => ite (fun _ => ih kind params h) fun _ => pure h
    have hone {p : Param} (hp : EachRead tokens p.exprs) :
        EachRead tokens ((params ++ [p]).flatMap Param.exprs) := by
      rw [List.flatMap_append, List.flatMap_singleton]
      exact h.append hp
    refine peek_bind ?_
    split
    -- the end of the list
    · exact pure h
    -- `/`, `*` with a name or alone, `**`
    · rename_i hkind
      refine advance_bind (by simp [Cursor.kind, hkind]) (hagain _ _ ?_ _)
      rwa [List.flatMap_map]
    · rename_i hkind
      refine advance_bind (by simp [Cursor.kind, hkind]) (at_bind (ite (fun _ => ?_) fun _ => ?_))
      · exact bind (param _) fun p s hp => hagain _ _ (hone hp) s
      · exact hagain _ _ h _
    · rename_i hkind
      refine advance_bind (by simp [Cursor.kind, hkind]) ?_
      exact bind (param _) fun p s hp => hagain _ _ (hone hp) s
    -- a parameter with nothing in front
    · exact bind (param kind) fun p s hp => hagain _ _ (hone hp) s
    · exact fail _

/-- Type parameters are passed amid the tokens. -/
theorem skipTypeParams : GoesOn tokens skipTypeParams s :=
  at_bind (ite (fun _ => cursor_bind (moveTo fun hs => hs.within (within_skipGroup ..)))
    fun _ => pure trivial)

/-- The expressions of a header are read among the tokens if the decorators in front are. -/
theorem functionHeader (decorators : List Expr) (isAsync : Bool) :
    Gathers tokens (fun h => EachRead tokens decorators → EachRead tokens h.exprs)
      (functionHeader decorators isAsync) s := by
  refine bind (expect (by simp)) fun _ s _ => bind ident fun name s _ => ?_
  refine bind skipTypeParams fun _ s _ => bind (expect (by simp)) fun _ s _ => rounds_bind ?_
  refine bind (paramList _ _ _ .nil) fun params s hparams => bind (expect (by simp)) fun _ s _ => ?_
  refine optional (by simp) _ fun returns s hreturns => bind (expect (by simp)) fun _ s _ => ?_
  exact peek_bind (pure fun hdecorators => (hdecorators.append hparams).append hreturns)

/-- An argument of a class header is read among the tokens. -/
theorem classArgument :
    Gathers tokens (fun arg => (arg.elim id Prod.snd).ReadAmong tokens) classArgument s := by
  refine cursor_bind (ite (fun h => ?_) fun _ => ?_)
  · obtain ⟨-, hequals⟩ := Bool.and_eq_true_iff.mp h
    have hafter : s.cursor.advance.kind = .equals := eq_of_beq hequals
    refine bind_run ident fun key s' hkey _ => ?_
    obtain ⟨-, -, rfl⟩ := ident_ok hkey
    exact advance_bind (by simp [hafter]) (bind (exprUntil _) fun value s hvalue => pure hvalue)
  · refine bind (eat (by simp)) fun found s _ => ite (fun _ => ?_) fun _ => ?_
    · exact bind (exprUntil _) fun value s hvalue => pure hvalue
    · exact bind (eat (by simp)) fun star s _ => bind (exprUntil _) fun value s hvalue => pure hvalue

/-- So are all of them, bases and keywords. -/
theorem classArguments (n : Nat) : Gathers tokens
    (fun args => EachRead tokens args.1 ∧ EachRead tokens (args.2.map Prod.snd))
    (classArguments n) s := by
  have hcons {arg : Expr ⊕ (Option String × Expr)} {args : List Expr × List (Option String × Expr)}
      (harg : (arg.elim id Prod.snd).ReadAmong tokens)
      (hargs : EachRead tokens args.1 ∧ EachRead tokens (args.2.map Prod.snd)) :
      EachRead tokens (Expr.consArgument arg args).1 ∧
        EachRead tokens ((Expr.consArgument arg args).2.map Prod.snd) := by
    cases arg with
    | inl e => exact ⟨List.forall_mem_cons.mpr ⟨harg, hargs.1⟩, hargs.2⟩
    | inr key => exact ⟨hargs.1, List.forall_mem_cons.mpr ⟨harg, hargs.2⟩⟩
  induction n generalizing s with
  | zero => exact pure ⟨.nil, .nil⟩
  | succ n ih =>
    refine at_bind (at_bind (ite (fun _ => pure ⟨.nil, .nil⟩) fun _ => ?_))
    refine bind classArgument fun first s hfirst =>
      bind (eat (by simp)) fun found s _ => ite (fun _ => ?_) fun _ => pure (hcons hfirst ⟨.nil, .nil⟩)
    exact bind ih fun others s hothers => pure (hcons hfirst hothers)

/-- The header of a class is read among the tokens if its decorators are. -/
theorem classHeader (decorators : List Expr) :
    Gathers tokens (fun h => EachRead tokens decorators → EachRead tokens h.exprs)
      (classHeader decorators) s := by
  have hexprs {args : List Expr × List (Option String × Expr)} (hargs : EachRead tokens args.1 ∧
      EachRead tokens (args.2.map Prod.snd)) (hdecorators : EachRead tokens decorators) :
      EachRead tokens (decorators ++ args.1 ++ args.2.map Prod.snd) :=
    (hdecorators.append hargs.1).append hargs.2
  refine bind (expect (by simp)) fun _ s _ => bind ident fun name s _ => ?_
  refine bind skipTypeParams fun _ s _ => bind (eat (by simp)) fun found s _ =>
    ite (fun _ => rounds_bind ?_) fun _ => ?_
  · refine bind (classArguments _) fun args s hargs => bind (expect (by simp)) fun _ s _ => ?_
    exact bind (pure hargs) fun args s hargs => bind (expect (by simp)) fun _ s _ => pure (hexprs hargs)
  · exact bind (P := fun args => EachRead tokens args.1 ∧ EachRead tokens (args.2.map Prod.snd))
      (pure ⟨.nil, .nil⟩) fun args s hargs => bind (expect (by simp)) fun _ s _ => pure (hexprs hargs)

/-- A header without an expression is passed amid the tokens. -/
theorem skipHeader : GoesOn tokens skipHeader s := by
  refine cursor_bind (bind (moveTo fun hs => hs.within (within_headerEnd ..)) fun _ s _ => ?_)
  exact ite (fun _ => pure trivial) fun _ => fail _

/-- Decorators are read among the tokens. -/
theorem decorators (n : Nat) : Gathers tokens (EachRead tokens) (decorators n) s := by
  induction n generalizing s with
  | zero => exact pure .nil
  | succ n ih =>
    have hmore (first : Expr) (hfirst : first.ReadAmong tokens) (s : StmtState) :
        Gathers tokens (EachRead tokens) (do
          StmtReader.skipWhile fun k => k == .comment || k == .blankLine
          let others ← StmtReader.decorators n
          return first :: others) s := by
      refine bind (skipWhile fun kind hkind => ?_) fun _ s _ =>
        bind ih fun others s hothers => pure (List.forall_mem_cons.mpr ⟨hfirst, hothers⟩)
      rintro rfl
      cases hkind
    refine bind (eat (by simp)) fun found s _ => ite (fun _ => ?_) fun _ => pure .nil
    refine bind (exprUntil _) fun first s hfirst => bind (eat (by simp)) fun found s _ => ?_
    exact ite (fun _ => hmore first hfirst s) fun _ =>
      bind (P := fun _ => True) (fail _) fun _ s _ => hmore first hfirst s

end Gathers

/-! ### Blocks and compound statements -/

/-- What the readers of statements gather that go `n` levels deep. -/
structure ReadersGather (tokens : List Token) (n : Nat) : Prop where
  statements : ∀ pending inBlock s, ReadsAll tokens (statements n pending inBlock) s
  statementLine : ∀ s, ReadsAll tokens (statementLine n) s
  compound : ∀ s, Reads tokens (compound n) s
  block : ∀ s, ReadsAll tokens (block n) s
  decorated : ∀ s, Reads tokens (decorated n) s
  function : ∀ decorators isAsync s, Gathers tokens
    (fun stmt => EachRead tokens decorators → stmt.AllRead tokens) (function n decorators isAsync) s
  classDef : ∀ decorators s, Gathers tokens
    (fun stmt => EachRead tokens decorators → stmt.AllRead tokens) (classDef n decorators) s
  conditional : ∀ s, s.cursor.kind ≠ .eof → Reads tokens (conditional n) s
  clauses : ∀ s, Gathers tokens (fun bodies => ∀ body ∈ bodies, BodyRead tokens body) (clauses n) s

namespace ReadersGather

variable {n : Nat}

theorem zero : ReadersGather tokens 0 where
  statements _ _ _ := .pure .nil
  statementLine _ := .pure .nil
  compound _ := .pure (.leaf ⟨rfl, rfl, rfl⟩)
  block _ := .pure .nil
  decorated _ := .pure (.leaf ⟨rfl, rfl, rfl⟩)
  function _ _ _ := .pure fun _ => .leaf ⟨rfl, rfl, rfl⟩
  classDef _ _ := .pure fun _ => .leaf ⟨rfl, rfl, rfl⟩
  conditional _ _ := .pure (.leaf ⟨rfl, rfl, rfl⟩)
  clauses _ := .pure (by simp)

/-- A block reads its statements among the tokens if the level below does. -/
theorem succ_statements (ih : ReadersGather tokens n) (pending : List Comment) (inBlock : Bool) :
    ReadsAll tokens (StmtReader.statements (n + 1) pending inBlock) s := by
  refine .peek_bind ?_
  split
  -- the end of the text, or of a block
  · exact .pure .nil
  · rename_i hkind
    exact .advance_bind (by simp [Cursor.kind, hkind])
      (.ite (fun _ => .pure .nil) fun _ => ih.statements _ _ _)
  -- a comment, a line without a statement, the end of a line
  · rename_i hkind
    exact .advance_bind (by simp [Cursor.kind, hkind]) (ih.statements _ _ _)
  · rename_i hkind
    exact .cursor_bind (.advance_bind (by simp [Cursor.kind, hkind]) (ih.statements _ _ _))
  · rename_i hkind
    exact .advance_bind (by simp [Cursor.kind, hkind]) (ih.statements _ _ _)
  -- a block that nothing leads
  · rename_i hkind
    refine .report_bind (.advance_bind (by simp [Cursor.kind, hkind]) ?_)
    exact .bind (ih.statements _ _ _) fun nested s hnested => .bind (ih.statements _ _ _)
      fun others s hothers => .pure (hnested.append hothers)
  -- a line with a statement
  · exact .bind (ih.statementLine _) fun line s hline => .bind (ih.statements _ _ _)
      fun others s hothers => .pure ((hline.withLeading pending).append hothers)

/-- So does a line, which may be a compound statement. -/
theorem succ_statementLine (ih : ReadersGather tokens n) :
    ReadsAll tokens (StmtReader.statementLine (n + 1)) s := by
  refine .cursor_bind (.ite (fun _ => ?_) fun _ => .simpleLine)
  exact .bind (.placed (.orReport (fun _ => .skipLine) (ih.compound _))) fun p s hp => .pure (.single hp)

/-- So does a compound statement, by its first word. -/
theorem succ_compound (ih : ReadersGather tokens n) :
    Reads tokens (StmtReader.compound (n + 1)) s := by
  have hclauses (s : StmtState) : Reads tokens (do return Stmt.block (← StmtReader.clauses n)) s :=
    .bind (ih.clauses _) fun bodies s hbodies => .pure (.block hbodies)
  refine .cursor_bind ?_
  split
  · exact ih.decorated _
  · exact (ih.function _ _ _).mono fun _ h => h .nil
  · exact (ih.classDef _ _).mono fun _ h => h .nil
  · rename_i hkind
    exact ih.conditional _ (by simp [hkind])
  · rename_i hkind
    exact .advance_bind (by simp [hkind])
      (.ite (fun _ => (ih.function _ _ _).mono fun _ h => h .nil) fun _ => hclauses _)
  · exact hclauses s

/-- So does a body, on the same line or indented. -/
theorem succ_block (ih : ReadersGather tokens n) :
    ReadsAll tokens (StmtReader.block (n + 1)) s := by
  refine .bind (.eat (by simp)) fun _ s _ => .bind (.eat (by simp)) fun found s _ =>
    .ite (fun _ => ?_) fun _ => .simpleLine
  refine .cursor_bind (.bind (.moveTo fun hs => hs.pendingComments []) fun _ s _ => ?_)
  exact .bind (.eat (by simp)) fun found s _ => .ite (fun _ => ih.statements _ _ _) fun _ => .fail _

/-- So does a decorated statement. -/
theorem succ_decorated (ih : ReadersGather tokens n) :
    Reads tokens (StmtReader.decorated (n + 1)) s := by
  refine .rounds_bind (.bind (.decorators _) fun decorators s hdecorators => .cursor_bind ?_)
  split
  · exact (ih.function _ _ _).mono fun _ h => h hdecorators
  · exact (ih.classDef _ _).mono fun _ h => h hdecorators
  · rename_i hkind
    exact .ite (fun _ => .advance_bind (by simp [hkind])
      ((ih.function _ _ _).mono fun _ h => h hdecorators)) fun _ => .fail _
  · exact .fail _

/-- So does a function, with the decorators that it is given. -/
theorem succ_function (ih : ReadersGather tokens n) (decorators : List Expr) (isAsync : Bool) :
    Gathers tokens (fun stmt => EachRead tokens decorators → stmt.AllRead tokens)
      (StmtReader.function (n + 1) decorators isAsync) s :=
  .bind (.functionHeader _ _) fun _ _ hheader => .bind (ih.block _) fun _ _ hbody =>
    .pure fun hdecorators => ⟨⟨hheader hdecorators, by simp [Stmt.values]⟩, hbody⟩

/-- So does a class. -/
theorem succ_classDef (ih : ReadersGather tokens n) (decorators : List Expr) :
    Gathers tokens (fun stmt => EachRead tokens decorators → stmt.AllRead tokens)
      (StmtReader.classDef (n + 1) decorators) s :=
  .bind (.classHeader _) fun _ _ hheader => .bind (ih.block _) fun _ _ hbody =>
    .pure fun hdecorators => ⟨⟨hheader hdecorators, by simp [Stmt.values]⟩, hbody⟩

/-- So does an `if`, with all that follows under `elif` and `else`. -/
theorem succ_conditional (ih : ReadersGather tokens n) (h : s.cursor.kind ≠ .eof) :
    Reads tokens (StmtReader.conditional (n + 1)) s := by
  refine .advance_bind h (.bind (.exprUntil _) fun test s htest => .bind (.expect (by simp)) fun _ s _ => ?_)
  refine .bind (ih.block _) fun body s hbody => .at_bind (.ite (fun hat => ?_) fun _ => ?_)
  · have hkind : s.cursor.kind = .keyword .Elif := eq_of_beq hat
    exact .bind (.placed (ih.conditional _ (by simp [hkind]))) fun other s hother =>
      .pure (.cond htest hbody (.single hother))
  · refine .bind (.eat (by simp)) fun found s _ =>
      .ite (fun _ => ?_) fun _ => .pure (.cond htest hbody .nil)
    exact .bind (.expect (by simp)) fun _ s _ => .bind (ih.block _) fun orelse s horelse =>
      .pure (.cond htest hbody horelse)

/-- So do the clauses behind a `try`, a loop or a `with`. -/
theorem succ_clauses (ih : ReadersGather tokens n) :
    Gathers tokens (fun bodies => ∀ body ∈ bodies, BodyRead tokens body)
      (StmtReader.clauses (n + 1)) s := by
  have hothers {body : List (Placed Stmt)} (hbody : BodyRead tokens body) (s : StmtState) :
      Gathers tokens (fun bodies => ∀ body ∈ bodies, BodyRead tokens body) (do
        let others ← StmtReader.clauses n
        return body :: others) s :=
    .bind (ih.clauses _) fun others s hothers => .pure (List.forall_mem_cons.mpr ⟨hbody, hothers⟩)
  refine .bind .skipHeader fun _ s _ => .bind (ih.block _) fun body s hbody => .peek_bind ?_
  split
  iterate 4
    · exact hothers hbody s
  · exact .pure (by simpa using hbody)

end ReadersGather

/-- What the readers of statements gather is read among the tokens. -/
theorem readersGather (n : Nat) : ReadersGather tokens n := by
  induction n with
  | zero => exact .zero
  | succ n ih =>
    exact {
      statements := fun pending inBlock _ => ih.succ_statements pending inBlock
      statementLine := fun _ => ih.succ_statementLine
      compound := fun _ => ih.succ_compound
      block := fun _ => ih.succ_block
      decorated := fun _ => ih.succ_decorated
      function := fun decorators isAsync _ => ih.succ_function decorators isAsync
      classDef := fun decorators _ => ih.succ_classDef decorators
      conditional := fun _ => ih.succ_conditional
      clauses := fun _ => ih.succ_clauses }

end StmtReader

/-- **The expressions in a text are each read at a place among its tokens.** -/
theorem Suite.bodyRead (source : String) :
    BodyRead (tokenize source).1 (Suite.parse source).body := by
  have hstart : (Cursor.start (tokenize source).1 (Text.byteLength source.toList)).Amid
      (tokenize source).1 := ⟨List.suffix_refl _, tokenize_eof source⟩
  have hbody := (StmtReader.readersGather (8 * ((tokenize source).1.length + 1))).statements [] false
    ⟨Cursor.start (tokenize source).1 (Text.byteLength source.toList), (tokenize source).2.reverse⟩ hstart
  unfold Suite.parse
  dsimp only
  split
  · rename_i hrun
    rw [hrun] at hbody
    exact hbody.2
  · exact .nil

/-- **The annotations in a text are each read from tokens that follow one another**, unless they are
    unmodelled. -/
theorem Suite.sourced_of_mem_hints {source : String} {e : Expr} (he : e ∈ (Suite.parse source).hints) :
    e.Sourced (tokenize source).1 := by
  obtain ⟨p, hp, hhint⟩ := List.mem_flatMap.mp he
  exact ((Suite.bodyRead source p hp).singles e (p.stmt.hints_subset_singles hhint)).sourced

end PackageDoc
