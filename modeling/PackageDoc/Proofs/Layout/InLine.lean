import PackageDoc.Proofs.Layout.Within
import PackageDoc.Syntax.StmtGrammar

namespace PackageDoc

/-!
# Reading a statement inside a line

The readers of simple statements and of the headers of compound statements never pass the end of a
logical line, and report nothing themselves.

* `StmtReader.Stays` — a reader that stays in its line and reports nothing;
* `StmtReader.smallStatement_passes` — one simple statement, which has a token or is empty;
* `StmtReader.functionHeader_ok`, `StmtReader.classHeader_ok`, `StmtReader.skipHeader_ok` — a
  header ends behind its colon;
* `StmtReader.smallStatements_ok` — the statements of a line, when none of them is reported.
-/

/-- Is the statement not a compound one? -/
def Stmt.isSimple : Stmt → Bool
  | functionDef .. | classDef .. | cond .. | block .. => false
  | _ => true

/-- Is the statement one of no tokens, as a semicolon on its own leaves it? -/
def Stmt.isEmpty : Stmt → Bool
  | .expr (.unmodelled span) => span.isEmpty
  | _ => false

namespace StmtReader

open Cursor

variable {α β : Type} {s s' s'' : StmtState} {kind : TokenKind}

/-! ### Runs -/

/-- Two readers in sequence return when both do. -/
theorem run_bind_ok {m : StmtReader α} {f : α → StmtReader β} {b : β}
    (h : (m >>= f).run s = .ok b s'') :
    ∃ a s', m.run s = .ok a s' ∧ (f a).run s' = .ok b s'' := by
  change EStateM.bind m f s = .ok b s'' at h
  unfold EStateM.bind at h
  split at h
  · rename_i a s' hrun
    exact ⟨a, s', hrun, h⟩
  · cases h

/-- A reader that reads nothing returns what it is given. -/
theorem run_pure_ok {a b : α} (h : (pure a : StmtReader α).run s = .ok b s') : b = a ∧ s' = s := by
  cases h
  exact ⟨rfl, rfl⟩

/-- What a mapped reader returns is made of what the reader does. -/
theorem run_map_ok {m : StmtReader α} {f : α → β} {b : β} (h : (f <$> m).run s = .ok b s') :
    ∃ a, m.run s = .ok a s' ∧ f a = b := by
  change EStateM.map f m s = .ok b s' at h
  unfold EStateM.map at h
  split at h
  · rename_i a s₁ hrun
    obtain ⟨rfl, rfl⟩ := EStateM.Result.ok.inj h
    exact ⟨a, hrun, rfl⟩
  · cases h

/-- A token of one kind is read if it stands there, and otherwise nothing is. -/
theorem eat_ok {found : Bool} (h : (eat kind).run s = .ok found s') :
    (found = true ∧ s.cursor.kind = kind ∧ s' = { s with cursor := s.cursor.advance }) ∨
      (found = false ∧ s.cursor.kind ≠ kind ∧ s' = s) := by
  change (if s.cursor.at? kind then (do let _ ← advance; return true) else pure false :
    StmtReader Bool).run s = .ok found s' at h
  split at h
  · rename_i hat
    cases h
    exact .inl ⟨rfl, eq_of_beq hat, rfl⟩
  · rename_i hat
    obtain ⟨rfl, rfl⟩ := run_pure_ok h
    exact .inr ⟨rfl, fun hkind => hat (beq_iff_eq.mpr hkind), rfl⟩

/-- What is expected is read, or nothing is returned. -/
theorem expect_ok {t : Token} (h : (expect kind).run s = .ok t s') :
    s.cursor.kind = kind ∧ t = s.cursor.peek ∧ s' = { s with cursor := s.cursor.advance } := by
  change (if s.cursor.at? kind then advance else do fail (.expected kind (← peek).kind) :
    StmtReader Token).run s = .ok t s' at h
  split at h
  · rename_i hat
    cases h
    exact ⟨eq_of_beq hat, rfl, rfl⟩
  · cases h

/-- A name is read from a token that is one. -/
theorem ident_ok {name : Ident} (h : ident.run s = .ok name s') :
    s.cursor.kind = .name ∧ name.span = s.cursor.peek.span ∧
      s' = { s with cursor := s.cursor.advance } := by
  obtain ⟨t, s₁, ht, hret⟩ := run_bind_ok h
  obtain ⟨hkind, rfl, rfl⟩ := expect_ok ht
  obtain ⟨rfl, rfl⟩ := run_pure_ok hret
  exact ⟨hkind, rfl, rfl⟩

/-! ### Readers that stay in their line -/

/-- The reader stays in the line of the place where it begins, and reports nothing. -/
def Stays (m : StmtReader α) (s : StmtState) : Prop :=
  ∀ a s', m.run s = .ok a s' → s'.issues = s.issues ∧ s.cursor.Within s'.cursor

namespace Stays

theorem elim {m : StmtReader α} {a : α} (hrun : m.run s = .ok a s') (h : Stays m s) :
    s'.issues = s.issues ∧ s.cursor.Within s'.cursor :=
  h a s' hrun

/-- A reader that reads nothing stays in its line. -/
theorem pure (a : α) : Stays (pure a) s := by
  intro b s' h
  obtain ⟨-, rfl⟩ := run_pure_ok h
  exact ⟨rfl, .refl _⟩

/-- So does one that fails. -/
theorem fail (error : SyntaxError) : Stays (fail error : StmtReader α) s :=
  fun _ _ h => nomatch h

/-- So do two readers in sequence. -/
theorem bind {m : StmtReader α} {f : α → StmtReader β} (hm : Stays m s)
    (hf : ∀ a s', m.run s = .ok a s' → Stays (f a) s') : Stays (m >>= f) s := by
  intro b s'' h
  obtain ⟨a, s', hrun, hrest⟩ := run_bind_ok h
  obtain ⟨hissues, hwithin⟩ := hm a s' hrun
  obtain ⟨hissues', hwithin'⟩ := hf a s' hrun b s'' hrest
  exact ⟨hissues'.trans hissues, hwithin.trans hwithin'⟩

/-- One reader after another, each of which stays in the line wherever it begins. -/
theorem seq {m : StmtReader α} {f : α → StmtReader β} (hm : ∀ s, Stays m s)
    (hf : ∀ a s, Stays (f a) s) : Stays (m >>= f) s :=
  bind (hm s) fun a s' _ => hf a s'

/-- A mapped reader stays in its line. -/
theorem map {m : StmtReader α} (f : α → β) (hm : Stays m s) : Stays (f <$> m) s := by
  intro b s' h
  obtain ⟨a, hrun, -⟩ := run_map_ok h
  exact hm a s' hrun

/-- So does one that takes either of two ways. -/
theorem ite {p : Prop} [Decidable p] {m m' : StmtReader α} (hm : p → Stays m s)
    (hm' : ¬p → Stays m' s) : Stays (if p then m else m') s := by
  split
  · exact hm ‹_›
  · exact hm' ‹_›

/-- Looking at the present place changes nothing. -/
theorem cursor_bind {f : Cursor → StmtReader β} (hf : Stays (f s.cursor) s) :
    Stays (cursor >>= f) s := hf

theorem peek_bind {f : Token → StmtReader β} (hf : Stays (f s.cursor.peek) s) :
    Stays (peek >>= f) s := hf

theorem at_bind {f : Bool → StmtReader β} (hf : Stays (f (s.cursor.at? kind)) s) :
    Stays (at? kind >>= f) s := hf

theorem rounds_bind {f : Nat → StmtReader β} (hf : Stays (f (s.cursor.rest.length + 1)) s) :
    Stays (rounds >>= f) s := hf

/-- A reader that moves within its line stays there. -/
theorem moveTo {c : Cursor} (h : s.cursor.Within c) : Stays (moveTo c) s := by
  intro _ s' hrun
  cases hrun
  exact ⟨rfl, h⟩

/-- So does one that reads a token other than a line end. -/
theorem advance (h : s.cursor.kind.isLineEnd = false) : Stays advance s := by
  intro t s' hrun
  cases hrun
  exact ⟨rfl, .advance h⟩

/-- A reader may read such a token first. -/
theorem advance_bind {f : Token → StmtReader β} (h : s.cursor.kind.isLineEnd = false)
    (hf : Stays (f s.cursor.peek) { s with cursor := s.cursor.advance }) :
    Stays (StmtReader.advance >>= f) s :=
  bind (advance h) fun t s' hrun => by
    cases hrun
    exact hf

/-- Reading a token of one kind stays in the line if the kind is no line end. -/
theorem eat (hkind : kind.isLineEnd = false) (s : StmtState) : Stays (eat kind) s := by
  refine at_bind (ite (fun h => ?_) fun _ => pure false)
  have hs : s.cursor.kind = kind := eq_of_beq h
  exact advance_bind (hs ▸ hkind) (pure true)

/-- So does expecting one. -/
theorem expect (hkind : kind.isLineEnd = false) (s : StmtState) : Stays (expect kind) s := by
  refine at_bind (ite (fun h => ?_) fun _ => peek_bind (fail _))
  have hs : s.cursor.kind = kind := eq_of_beq h
  exact advance (hs ▸ hkind)

/-- So does reading a name. -/
theorem ident (s : StmtState) : Stays ident s :=
  seq (expect rfl) fun _ _ => pure _

/-- So does reading an expression up to a stop. -/
theorem exprUntil (stops : List TokenKind) (s : StmtState) : Stays (exprUntil stops) s :=
  cursor_bind (bind (moveTo (Expr.within_readUntil stops s.cursor)) fun _ _ _ => pure _)

/-- So does reading the value of a statement. -/
theorem tupleUntil (stops : List TokenKind) (s : StmtState) : Stays (tupleUntil stops) s :=
  cursor_bind (bind (moveTo (Expr.within_readTupleUntil stops s.cursor)) fun _ _ _ => pure _)

/-- So does skipping the rest of a statement. -/
theorem skipStatement (s : StmtState) : Stays skipStatement s := by
  refine cursor_bind (moveTo (within_skipWhile fun kind hkind => ?_))
  cases kind <;> simp_all [TokenKind.isLineEnd]

end Stays

/-- Besides, it passes the next token. -/
def Passes (m : StmtReader α) (s : StmtState) : Prop :=
  ∀ a s', m.run s = .ok a s' → s'.issues = s.issues ∧ s.cursor.Passes s'.cursor

namespace Passes

theorem elim {m : StmtReader α} {a : α} (hrun : m.run s = .ok a s') (h : Passes m s) :
    s.cursor.Passes s'.cursor :=
  (h a s' hrun).2

/-- A reader that passes tokens stays in its line. -/
theorem stays {m : StmtReader α} (h : Passes m s) : Stays m s :=
  fun a s' hrun => ⟨(h a s' hrun).1, (h a s' hrun).2.within⟩

theorem bind {m : StmtReader α} {f : α → StmtReader β} (hm : Passes m s)
    (hf : ∀ a s, Stays (f a) s) : Passes (m >>= f) s := by
  intro b s'' h
  obtain ⟨a, s', hrun, hrest⟩ := run_bind_ok h
  obtain ⟨hissues, hpasses⟩ := hm a s' hrun
  obtain ⟨hissues', hwithin⟩ := hf a s' b s'' hrest
  exact ⟨hissues'.trans hissues, hpasses.trans_within hwithin⟩

/-- Reading a token other than a line end passes it. -/
theorem advance_bind {f : Token → StmtReader β} (h : s.cursor.kind.isLineEnd = false)
    (hf : Stays (f s.cursor.peek) { s with cursor := s.cursor.advance }) :
    Passes (StmtReader.advance >>= f) s :=
  fun b s'' hrun => ⟨(hf b s'' hrun).1, h, (hf b s'' hrun).2⟩

theorem rounds_bind {f : Nat → StmtReader β} (hf : Passes (f (s.cursor.rest.length + 1)) s) :
    Passes (rounds >>= f) s := hf

theorem expect (hkind : kind.isLineEnd = false) (s : StmtState) : Passes (expect kind) s := by
  intro t s' hrun
  obtain ⟨hs, -, rfl⟩ := expect_ok hrun
  exact ⟨rfl, by rw [hs]; exact hkind, .refl _⟩

/-- A statement that begins with a token of its own is passed over with it. -/
theorem skipStatement (hend : s.cursor.kind.isLineEnd = false)
    (hkind : s.cursor.kind ≠ .semicolon ∧ s.cursor.kind ≠ .comment) (hs : s.cursor.rest ≠ []) :
    Passes skipStatement s := by
  intro _ s' hrun
  cases hrun
  refine ⟨rfl, hend, ?_⟩
  obtain ⟨⟨prev, rest⟩, issues⟩ := s
  obtain ⟨t, ts, rfl⟩ := List.exists_cons_of_ne_nil hs
  have hskip : (!(t.kind.isLineEnd || t.kind == .semicolon || t.kind == .comment)) = true := by
    have hend : t.kind.isLineEnd = false := hend
    have hkind : t.kind ≠ .semicolon ∧ t.kind ≠ .comment := hkind
    simp [hend, hkind]
  change Cursor.Within ⟨t, ts⟩ (skipTokens _ prev (t :: ts))
  rw [skipTokens, if_pos hskip]
  exact within_skipTokens (fun kind hkind => by cases kind <;> simp_all [TokenKind.isLineEnd]) t ts

end Passes

namespace Stays

/-! ### Simple statements -/

/-- The rest of a dotted name stays in its line. -/
theorem dottedTail (n : Nat) (name : Ident) (s : StmtState) : Stays (StmtReader.dottedTail n name) s := by
  induction n generalizing name s with
  | zero => exact pure name
  | succ n ih =>
    refine cursor_bind (ite (fun h => ?_) fun _ => pure name)
    have hkind : s.cursor.kind = .dot := eq_of_beq (Bool.and_eq_true_iff.mp h).1
    exact advance_bind (by rw [hkind]; rfl) (bind (ident _) fun part s' _ => ih _ s')

/-- So does a dotted name. -/
theorem dottedName (s : StmtState) : Stays StmtReader.dottedName s :=
  seq ident fun first s => rounds_bind (dottedTail _ first s)

/-- So does what is imported, with its `as`. -/
theorem importedAs {name : StmtReader Ident} (hname : ∀ s, Stays name s) (s : StmtState) :
    Stays (StmtReader.importedAs name) s := by
  refine seq hname fun name s => bind (eat rfl s) fun found s' _ => ite (fun _ => ?_) fun _ => ?_
  · exact seq ident fun other s => pure _
  · exact pure _

/-- So do the modules of an `import`. -/
theorem moduleAliases (n : Nat) (s : StmtState) : Stays (StmtReader.moduleAliases n) s := by
  induction n generalizing s with
  | zero => exact pure []
  | succ n ih =>
    refine seq (importedAs dottedName) fun first s =>
      bind (eat rfl s) fun found s' _ => ite (fun _ => ?_) fun _ => pure [first]
    exact seq ih fun others s => pure _

/-- An `import` passes its first word. -/
theorem passes_importNames (s : StmtState) : Passes StmtReader.importNames s :=
  .bind (.expect rfl s) fun _ _ => rounds_bind (seq (moduleAliases _) fun _ _ => pure _)

/-- The dots of a relative import stay in their line. -/
theorem importLevel (n : Nat) (s : StmtState) : Stays (StmtReader.importLevel n) s := by
  induction n generalizing s with
  | zero => exact pure 0
  | succ n ih =>
    refine peek_bind ?_
    split
    -- a dot
    · rename_i hkind
      exact advance_bind (by rw [Cursor.kind, hkind]; rfl) (seq ih fun level s => pure _)
    -- an ellipsis, which is three of them
    · rename_i hkind
      exact advance_bind (by rw [Cursor.kind, hkind]; rfl) (seq ih fun level s => pure _)
    · exact pure 0

/-- So do the names of a `from` import. -/
theorem nameAliases (inParens : Bool) (n : Nat) (s : StmtState) :
    Stays (StmtReader.nameAliases inParens n) s := by
  induction n generalizing s with
  | zero => exact pure []
  | succ n ih =>
    refine at_bind (ite (fun _ => pure []) fun _ => ?_)
    refine seq (importedAs ident) fun first s =>
      bind (eat rfl s) fun found s' _ => ite (fun _ => ?_) fun _ => pure [first]
    exact seq ih fun others s => pure _

/-- So do they in parentheses. -/
theorem importedNames (s : StmtState) : Stays StmtReader.importedNames s := by
  refine at_bind (ite (fun h => ?_) fun _ => ?_)
  · have hkind : s.cursor.kind = .star := eq_of_beq h
    exact advance_bind (by rw [hkind]; rfl) (pure _)
  · refine bind (eat rfl s) fun inParens s _ => rounds_bind (bind (nameAliases _ _ s) ?_)
    intro names s _
    exact ite (fun _ => seq (expect rfl) fun _ _ => pure names) fun _ => pure names

/-- A `from` import passes its first word. -/
theorem passes_importFrom (s : StmtState) : Passes StmtReader.importFrom s := by
  have hnames : ∀ (module : Option String) (level : Nat) (s : StmtState), Stays (do
      let _ ← StmtReader.expect (.keyword .Import)
      return Stmt.importFrom ⟨module, level, ← StmtReader.importedNames⟩) s :=
    fun module level s => seq (expect rfl) fun _ s => seq importedNames fun _ _ => pure _
  have hmodule : ∀ (module : Option Ident) (level : Nat) (s : StmtState), Stays (do
      if module.isNone && level == 0 then
        StmtReader.fail .expectedModuleName
      let _ ← StmtReader.expect (.keyword .Import)
      return Stmt.importFrom ⟨module.map Ident.name, level, ← StmtReader.importedNames⟩) s :=
    fun module level s =>
      ite (fun _ => bind (fail _) fun _ s _ => hnames _ level s) fun _ => hnames _ level s
  refine .bind (.expect rfl s) fun _ s =>
    rounds_bind (seq (importLevel _) fun level s => at_bind ?_)
  refine ite (fun _ => ?_) fun _ => hmodule none level s
  exact bind (map some (dottedName s)) fun module s _ => hmodule module level s

/-- An assignment stays in its line. -/
theorem assignedValues (n : Nat) (s : StmtState) (h : s.cursor.kind.isLineEnd = false) :
    Stays (StmtReader.assignedValues n) s := by
  induction n generalizing s with
  | zero => exact seq (tupleUntil _) fun value s => pure _
  | succ n ih =>
    refine advance_bind h (bind (tupleUntil _ _) fun value s _ => at_bind (ite (fun h => ?_) fun _ => ?_))
    · have hkind : s.cursor.kind = .equals := eq_of_beq h
      exact bind (ih s (by rw [hkind]; rfl)) fun rest s _ => pure _
    · exact pure _

/-- What follows the first expression of an expression statement. -/
theorem exprBehind (first : Expr) (s : StmtState) : Stays (do
    match (← StmtReader.peek).kind with
    | .colon =>
      let _ ← StmtReader.advance
      let hint ← StmtReader.exprUntil [.equals]
      let value ← if ← StmtReader.eat .equals then some <$> StmtReader.tupleUntil [] else Pure.pure none
      return Stmt.assign { targets := [first], hint := some hint, value := value }
    | .equals =>
      let values ← StmtReader.assignedValues (← StmtReader.rounds)
      return Stmt.assign { targets := first :: values.1, hint := none, value := some values.2 }
    | .augAssign =>
      StmtReader.skipStatement
      return Stmt.other
    | _ => return Stmt.expr first) s := by
  refine peek_bind ?_
  split
  -- a hint, and perhaps a value
  · rename_i hkind
    refine advance_bind (by rw [Cursor.kind, hkind]; rfl) (seq (exprUntil _) fun hint s => ?_)
    refine bind (eat rfl s) fun found s _ => ite (fun _ => ?_) fun _ => pure _
    exact bind (map some (tupleUntil _ s)) fun value s _ => pure _
  -- more targets, then a value
  · rename_i hkind
    refine rounds_bind (bind (assignedValues _ s (by rw [Cursor.kind, hkind]; rfl)) ?_)
    exact fun values s _ => pure _
  -- an augmented assignment, or an expression on its own
  · exact seq skipStatement fun _ s => pure _
  · exact pure _

/-- A statement that begins with an expression stays in its line. -/
theorem exprStatement (s : StmtState) : Stays StmtReader.exprStatement s :=
  seq (tupleUntil _) exprBehind

/-- So does any small statement. -/
theorem smallStatement (s : StmtState) : Stays StmtReader.smallStatement s := by
  refine peek_bind ?_
  split
  · exact (passes_importNames s).stays
  · exact (passes_importFrom s).stays
  -- `pass`, `break` and `continue` are no more than their keyword
  iterate 3
    · rename_i hkind
      exact advance_bind (by rw [Cursor.kind, hkind]; rfl) (pure _)
  -- the other keywords have a rest that is passed over
  iterate 8
    · exact seq skipStatement fun _ s => pure _
  · exact exprStatement s

/-! ### Headers -/

/-- A parameter stays in its line. -/
theorem param (kind : ParamKind) (s : StmtState) : Stays (StmtReader.param kind) s := by
  have hdefault : ∀ (name : Ident) (hint : Option Expr) (s : StmtState), Stays (do
      let default ← if ← StmtReader.eat .equals then
        some <$> StmtReader.exprUntil [.comma, .rparen] else Pure.pure none
      return Param.mk name kind hint default) s := by
    intro name hint s
    refine bind (eat rfl s) fun found s _ => ite (fun _ => ?_) fun _ => pure _
    exact bind (map some (exprUntil _ s)) fun default s _ => pure _
  refine seq ident fun name s => bind (eat rfl s) fun found s _ => ite (fun _ => ?_) fun _ => ?_
  · exact bind (map some (exprUntil _ s)) fun hint s _ => hdefault name hint s
  · exact hdefault name none s

/-- So do all parameters. -/
theorem paramList (n : Nat) (kind : ParamKind) (params : List Param) (s : StmtState) :
    Stays (StmtReader.paramList n kind params) s := by
  induction n generalizing kind params s with
  | zero => exact pure params
  | succ n ih =>
    have hagain : ∀ (kind : ParamKind) (params : List Param) (s : StmtState), Stays (do
        if ← StmtReader.eat .comma then StmtReader.paramList n kind params else return params) s :=
      fun kind params s =>
        bind (eat rfl s) fun found s _ => ite (fun _ => ih kind params s) fun _ => pure params
    refine peek_bind ?_
    split
    -- the end of the list
    · exact pure params
    -- `/` behind positional parameters
    · rename_i hkind
      exact advance_bind (by rw [Cursor.kind, hkind]; rfl) (hagain _ _ _)
    -- `*`, with a name or alone
    · rename_i hkind
      refine advance_bind (by rw [Cursor.kind, hkind]; rfl) (at_bind (ite (fun _ => ?_) fun _ => ?_))
      · exact bind (param _ _) fun p s _ => hagain _ _ s
      · exact hagain _ _ _
    -- `**`
    · rename_i hkind
      refine advance_bind (by rw [Cursor.kind, hkind]; rfl) ?_
      exact bind (param _ _) fun p s _ => hagain _ _ s
    -- a parameter with nothing in front
    · exact bind (param kind s) fun p s _ => hagain _ _ s
    · exact fail _

/-- So do type parameters that are passed over. -/
theorem skipTypeParams (s : StmtState) : Stays StmtReader.skipTypeParams s :=
  at_bind (ite (fun _ => cursor_bind (moveTo (within_skipGroup ..))) fun _ => pure ())

/-- So does an argument of a class header. -/
theorem classArgument (s : StmtState) : Stays StmtReader.classArgument s := by
  refine cursor_bind (ite (fun h => ?_) fun _ => ?_)
  -- a keyword argument: its name and the `=` behind it are both in the line
  · obtain ⟨hname, hequals⟩ := Bool.and_eq_true_iff.mp h
    have hafter : s.cursor.advance.kind = .equals := eq_of_beq hequals
    refine bind (ident s) fun key s' hkey => ?_
    obtain ⟨-, -, rfl⟩ := ident_ok hkey
    exact advance_bind (by rw [hafter]; rfl) (seq (exprUntil _) fun value s => pure _)
  · refine bind (eat rfl s) fun found s _ => ite (fun _ => ?_) fun _ => ?_
    · exact seq (exprUntil _) fun value s => pure _
    · exact seq (eat rfl) fun star s => seq (exprUntil _) fun value s => pure _

/-- So do all of them. -/
theorem classArguments (n : Nat) (s : StmtState) : Stays (StmtReader.classArguments n) s := by
  induction n generalizing s with
  | zero => exact pure _
  | succ n ih =>
    refine at_bind (at_bind (ite (fun _ => pure _) fun _ => ?_))
    refine seq classArgument fun first s =>
      bind (eat rfl s) fun found s _ => ite (fun _ => ?_) fun _ => pure _
    exact seq ih fun others s => pure _

end Stays

/-! ### Simple statements -/

/-- Every result of the reader satisfies `p`. -/
def Returns (p : α → Prop) (m : StmtReader α) : Prop :=
  ∀ s a s', m.run s = .ok a s' → p a

namespace Returns

variable {p : β → Prop}

theorem elim {m : StmtReader β} {b : β} (hrun : m.run s = .ok b s') (h : Returns p m) : p b :=
  h s b s' hrun

theorem pure {b : β} (h : p b) : Returns p (pure b) := by
  intro s a s' hrun
  obtain ⟨rfl, -⟩ := run_pure_ok hrun
  exact h

theorem bind {m : StmtReader α} {f : α → StmtReader β} (h : ∀ a, Returns p (f a)) :
    Returns p (m >>= f) := by
  intro s b s'' hrun
  obtain ⟨a, s', -, hrun⟩ := run_bind_ok hrun
  exact h a s' b s'' hrun

theorem ite {c : Prop} [Decidable c] {m m' : StmtReader β} (h : Returns p m)
    (h' : Returns p m') : Returns p (if c then m else m') := by
  split <;> assumption

end Returns

/-- A small statement is simple. -/
theorem smallStatement_isSimple : Returns (fun stmt => stmt.isSimple = true) smallStatement := by
  refine .bind fun t => ?_
  split
  -- `import`
  · exact .bind fun _ => .bind fun _ => .bind fun _ => .pure rfl
  -- `from`, with a module behind it or with dots alone
  · refine .bind fun _ => .bind fun _ => .bind fun level => .bind fun found => .ite ?_ ?_
    · refine .bind fun module => .ite (.bind fun _ => ?_) ?_ <;>
        exact .bind fun _ => .bind fun _ => .pure rfl
    · refine .bind fun module => .ite (.bind fun _ => ?_) ?_ <;>
        exact .bind fun _ => .bind fun _ => .pure rfl
  iterate 3
    · exact .bind fun _ => .pure rfl
  iterate 8
    · exact .bind fun _ => .pure rfl
  -- an expression, or an assignment that begins with one
  · refine .bind fun first => .bind fun t => ?_
    split
    · refine .bind fun _ => .bind fun hint => .bind fun found => .ite ?_ ?_ <;>
        exact .bind fun value => .pure rfl
    · exact .bind fun _ => .bind fun _ => .pure rfl
    · exact .bind fun _ => .pure rfl
    · exact .pure rfl

/-- An expression statement passes a token, or it is empty. -/
theorem exprStatement_passes {stmt : Stmt} (hs : s.cursor.rest ≠ [])
    (h : exprStatement.run s = .ok stmt s') :
    s.cursor.Passes s'.cursor ∨ stmt.isEmpty = true := by
  obtain ⟨first, s₁, hfirst, h⟩ := run_bind_ok h
  cases hfirst
  rcases Expr.passes_readTupleUntil [.equals, .colon, .augAssign] s.cursor hs with hpasses | hempty
  · exact .inl (hpasses.trans_within (Stays.exprBehind _ _ _ _ h).2)
  -- without a first expression, what stands behind it is passed, if anything does
  · rw [hempty] at h
    obtain ⟨t, s₂, hpeek, h⟩ := run_bind_ok h
    cases hpeek
    split at h
    -- `:`
    · rename_i hkind
      refine .inl (Passes.elim h (.advance_bind (by rw [Cursor.kind, hkind]; rfl) ?_))
      refine .seq (.exprUntil _) fun hint s => .bind (.eat rfl s) fun found s _ => ?_
      exact .ite (fun _ => .bind (.map some (.tupleUntil _ s)) fun value s _ => .pure _)
        fun _ => .pure _
    -- `=`
    · rename_i hkind
      have hend : s.cursor.kind.isLineEnd = false := by rw [Cursor.kind, hkind]; rfl
      refine .inl (Passes.elim h (.rounds_bind (.bind (.advance_bind hend ?_) fun _ _ => .pure _)))
      refine .seq (.tupleUntil _) fun value s => .at_bind (.ite (fun hat => ?_) fun _ => .pure _)
      have hkind : s.cursor.kind = .equals := eq_of_beq hat
      exact .bind (.assignedValues _ s (by rw [hkind]; rfl)) fun rest s _ => .pure _
    -- `+=` and its like
    · rename_i hkind
      have hkind : s.cursor.kind = .augAssign := hkind
      refine .inl (Passes.elim h (.bind (.skipStatement ?_ ?_ hs) fun _ _ => .pure _))
      · rw [hkind]
        rfl
      · rw [hkind]
        simp
    -- nothing at all
    · obtain ⟨rfl, rfl⟩ := run_pure_ok h
      exact .inr (beq_self_eq_true _)

/-- A simple statement passes a token, or it is empty. -/
theorem smallStatement_passes {stmt : Stmt} (hs : s.cursor.rest ≠ [])
    (h : smallStatement.run s = .ok stmt s') :
    s.cursor.Passes s'.cursor ∨ stmt.isEmpty = true := by
  obtain ⟨t, s₁, hpeek, h⟩ := run_bind_ok h
  cases hpeek
  split at h
  · exact .inl (Passes.elim h (Stays.passes_importNames s))
  · exact .inl (Passes.elim h (Stays.passes_importFrom s))
  -- all other keywords are passed themselves
  iterate 3
    · rename_i hkind
      exact .inl (Passes.elim h (.advance_bind (by rw [Cursor.kind, hkind]; rfl) (.pure _)))
  iterate 8
    · rename_i hkind
      have hkind : s.cursor.kind = _ := hkind
      refine .inl (Passes.elim h (.bind (.skipStatement ?_ ?_ hs) fun _ _ => .pure _)) <;>
        rw [hkind] <;> simp [TokenKind.isLineEnd]
  · exact exprStatement_passes hs h

/-- A statement is placed at the tokens that are read for it. -/
theorem placed_ok {read : StmtReader Stmt} {p : Placed Stmt}
    (h : (placed read).run s = .ok p s') :
    ∃ stmt, read.run s = .ok stmt s' ∧
      p = { stmt := stmt, span := s.cursor.peek.span.cover s'.cursor.prev.span } := by
  obtain ⟨start, s₁, hpeek, h⟩ := run_bind_ok h
  cases hpeek
  obtain ⟨stmt, s₂, hread, h⟩ := run_bind_ok h
  cases h
  exact ⟨stmt, hread, rfl⟩

/-- Without an issue at the end nothing was passed over. -/
theorem orReport_ok {recover : StmtReader Unit} {read : StmtReader Stmt} {stmt : Stmt}
    (hrecover : ∀ s s', recover.run s = .ok () s' → s'.issues = s.issues)
    (h : (orReport recover read).run s = .ok stmt s') (hclean : s'.issues = []) :
    read.run s = .ok stmt s' := by
  change EStateM.tryCatch read _ s = .ok stmt s' at h
  unfold EStateM.tryCatch at h
  split at h
  · rename_i issue s₁ hread
    obtain ⟨_, s₂, hreport, h⟩ := run_bind_ok h
    cases hreport
    obtain ⟨_, s₃, hskip, h⟩ := run_bind_ok h
    obtain ⟨rfl, rfl⟩ := run_pure_ok h
    rw [hrecover _ _ hskip] at hclean
    cases hclean
  · exact h

/-- Skipping the rest of a statement reports nothing. -/
theorem issues_skipStatement (s s' : StmtState) (h : skipStatement.run s = .ok () s') :
    s'.issues = s.issues :=
  (Stays.skipStatement s () s' h).1

/-- The statement is a simple one that was read at `c`.  Unless it is empty, its span begins with the
    next token. -/
structure ReadAt (c : Cursor) (p : Placed Stmt) : Prop where
  isSimple : p.stmt.isSimple = true
  inner : c.kind.isLineEnd = false
  span : ∃ c', c.Within c' ∧ p.span.start = min c.peek.span.start c'.prev.span.start ∧
    (p.stmt.isEmpty = false → c.Passes c')

/-- The statement is a simple one of the line that goes on at `c`. -/
def InLineFrom (c : Cursor) (p : Placed Stmt) : Prop :=
  ∃ c₁, c.Within c₁ ∧ ReadAt c₁ p

/-- The statements are simple ones, the first read at `c` and the others further on in its line. -/
def LineFrom (c : Cursor) : List (Placed Stmt) → Prop
  | [] => True
  | p :: ps => ReadAt c p ∧ ∀ q ∈ ps, InLineFrom c.advance q

/-- A statement in line from a later cursor is so from an earlier one. -/
theorem InLineFrom.of_within {c c' : Cursor} {p : Placed Stmt} (h : c.Within c')
    (hp : InLineFrom c' p) : InLineFrom c p := by
  obtain ⟨c₁, hc₁, hread⟩ := hp
  exact ⟨c₁, h.trans hc₁, hread⟩

/-- Every statement of a line is in line from its start. -/
theorem LineFrom.inLineFrom {c : Cursor} {stmts : List (Placed Stmt)} (h : LineFrom c stmts) :
    ∀ p ∈ stmts, InLineFrom c p := by
  cases stmts with
  | nil => simp
  | cons p ps =>
    obtain ⟨hp, hps⟩ := h
    refine List.forall_mem_cons.mpr ⟨⟨c, .refl c, hp⟩, fun q hq => ?_⟩
    exact (hps q hq).of_within (.advance hp.inner)

/-- A small statement that reports nothing is read where it begins. -/
theorem smallStatement_ok {p : Placed Stmt}
    (h : (placed (orReport skipStatement smallStatement)).run s = .ok p s')
    (hclean : s'.issues = []) :
    s.issues = [] ∧ s.cursor.Within s'.cursor ∧
      (s.cursor.kind.isLineEnd = false → s.cursor.rest ≠ [] → ReadAt s.cursor p) := by
  obtain ⟨stmt, hread, rfl⟩ := placed_ok h
  have hstmt := orReport_ok issues_skipStatement hread hclean
  obtain ⟨hissues, hwithin⟩ := Stays.smallStatement s stmt s' hstmt
  refine ⟨hissues ▸ hclean, hwithin, fun hinner hrest => ?_⟩
  refine ⟨smallStatement_isSimple s stmt s' hstmt, hinner, s'.cursor, hwithin, rfl, fun hempty => ?_⟩
  exact (smallStatement_passes hrest hstmt).resolve_right (by simp [hempty])

/-- From `s` to `s'` stand the statements of a line, and nothing is reported. -/
structure LineRead (s s' : StmtState) (stmts : List (Placed Stmt)) : Prop where
  issues : s.issues = []
  within : s.cursor.Within s'.cursor
  line : s.cursor.kind.isLineEnd = false → (∃ t ∈ s.cursor.rest, t.kind = .eof) →
    LineFrom s.cursor stmts

/-- One statement, and perhaps a semicolon behind it. -/
theorem lineRead_alone {p : Placed Stmt} {s₁ : StmtState}
    (hp : (placed (orReport skipStatement smallStatement)).run s = .ok p s₁)
    (hissues : s'.issues = s₁.issues) (hbehind : s₁.cursor.Within s'.cursor)
    (hclean : s'.issues = []) : LineRead s s' [p] := by
  obtain ⟨hs, hwithin, hread⟩ := smallStatement_ok hp (hissues ▸ hclean)
  refine ⟨hs, hwithin.trans hbehind, fun hinner hahead => ?_⟩
  obtain ⟨t, ht, -⟩ := hahead
  exact ⟨hread hinner (List.ne_nil_of_mem ht), by simp⟩

/-- One statement, a semicolon, and more statements of the line. -/
theorem lineRead_further {p : Placed Stmt} {ps : List (Placed Stmt)} {s₁ : StmtState}
    (hp : (placed (orReport skipStatement smallStatement)).run s = .ok p s₁)
    (hsemicolon : s₁.cursor.kind = .semicolon) (hmore : s₁.cursor.advance.kind.isLineEnd = false)
    (hps : LineRead { s₁ with cursor := s₁.cursor.advance } s' ps) : LineRead s s' (p :: ps) := by
  have hinner₁ : s₁.cursor.kind.isLineEnd = false := by
    rw [hsemicolon]
    rfl
  obtain ⟨hs, hwithin, hread⟩ := smallStatement_ok hp hps.issues
  have hbehind : s.cursor.Within s₁.cursor.advance := hwithin.trans (.advance hinner₁)
  have hpasses : s.cursor.Passes s₁.cursor.advance := .of_within hwithin ⟨hinner₁, .refl _⟩
  refine ⟨hs, hbehind.trans hps.within, fun hinner hahead => ?_⟩
  have hrest : s.cursor.rest ≠ [] := by
    obtain ⟨t, ht, -⟩ := hahead
    exact List.ne_nil_of_mem ht
  refine ⟨hread hinner hrest, fun q hq => ?_⟩
  have hline := hps.line hmore (hbehind.ahead hahead)
  exact (hline.inLineFrom q hq).of_within hpasses.2

/-- **The statements of a line**, when none of them is reported. -/
theorem smallStatements_ok {n : Nat} {stmts : List (Placed Stmt)}
    (h : (smallStatements n).run s = .ok stmts s') (hclean : s'.issues = []) :
    LineRead s s' stmts := by
  induction n generalizing s stmts with
  | zero =>
    obtain ⟨rfl, rfl⟩ := run_pure_ok h
    exact ⟨hclean, .refl _, fun _ _ => trivial⟩
  | succ n ih =>
    obtain ⟨first, s₁, hfirst, hbehind⟩ := run_bind_ok h
    obtain ⟨found, s₂, hfound, hrest⟩ := run_bind_ok hbehind
    obtain ⟨hissues, hwithin⟩ := Stays.eat rfl s₁ found s₂ hfound
    obtain ⟨rfl, hsemicolon, rfl⟩ | ⟨rfl, -, rfl⟩ := eat_ok hfound
    · obtain ⟨t, s₃, hpeek, hrest⟩ := run_bind_ok hrest
      cases hpeek
      dsimp only at hrest
      split at hrest
      -- a semicolon may stand behind the last statement too
      · obtain ⟨rfl, rfl⟩ := run_pure_ok hrest
        exact lineRead_alone hfirst hissues hwithin hclean
      · rename_i hmore
        obtain ⟨others, s₃, hothers, hrest⟩ := run_bind_ok hrest
        obtain ⟨rfl, rfl⟩ := run_pure_ok hrest
        have hinner : s₁.cursor.advance.kind.isLineEnd = false :=
          Bool.eq_false_iff.mpr fun hend => hmore (Bool.or_eq_true_iff.mpr (.inl hend))
        exact lineRead_further hfirst hsemicolon hinner (ih hothers)
    · obtain ⟨rfl, rfl⟩ := run_pure_ok hrest
      exact lineRead_alone hfirst rfl (.refl _) hclean

/-- A comment behind a statement leaves it simple. -/
theorem isSimple_withTrailing (comment : Comment) (p : Placed Stmt) :
    (p.withTrailing comment).stmt.isSimple = p.stmt.isSimple := by
  obtain ⟨stmt, span, leading, trailing⟩ := p
  cases stmt <;> rfl

theorem isEmpty_withTrailing (comment : Comment) (p : Placed Stmt) :
    (p.withTrailing comment).stmt.isEmpty = p.stmt.isEmpty := by
  obtain ⟨stmt, span, leading, trailing⟩ := p
  cases stmt <;> rfl

/-- A comment behind a statement leaves it where it is read. -/
theorem ReadAt.withTrailing {c : Cursor} {p : Placed Stmt} (comment : Comment) (h : ReadAt c p) :
    ReadAt c (p.withTrailing comment) := by
  refine ⟨(isSimple_withTrailing comment p).trans h.isSimple, h.inner, ?_⟩
  rw [isEmpty_withTrailing]
  exact h.span

/-- It leaves the statements of a line in line. -/
theorem InLineFrom.withTrailing {c : Cursor} (comment : Comment) {stmts : List (Placed Stmt)}
    (h : ∀ p ∈ stmts, InLineFrom c p) :
    ∀ p ∈ modifyLast (Placed.withTrailing comment) stmts, InLineFrom c p := by
  fun_induction modifyLast (Placed.withTrailing comment) stmts with
  | case1 => exact h
  | case2 p =>
    rintro _ (_ | ⟨_, ⟨⟩⟩)
    obtain ⟨c₁, hc₁, hread⟩ := h p (List.mem_singleton_self p)
    exact ⟨c₁, hc₁, hread.withTrailing comment⟩
  | case3 p ps hps ih =>
    obtain ⟨hp, hps⟩ := List.forall_mem_cons.mp h
    exact List.forall_mem_cons.mpr ⟨hp, ih hps⟩

/-- It leaves the line as it begins. -/
theorem LineFrom.withTrailing {c : Cursor} (comment : Comment) {stmts : List (Placed Stmt)}
    (h : LineFrom c stmts) : LineFrom c (modifyLast (Placed.withTrailing comment) stmts) := by
  match stmts with
  | [] => exact h
  | [p] => exact ⟨h.1.withTrailing comment, by simp⟩
  | p :: q :: ps => exact ⟨h.1, InLineFrom.withTrailing comment h.2⟩

/-- Skipping a line reports nothing. -/
theorem issues_skipLine (s s' : StmtState) (h : skipLine.run s = .ok () s') :
    s'.issues = s.issues := by
  obtain ⟨_, s₁, hskip, h⟩ := run_bind_ok h
  cases hskip
  obtain ⟨found, s₂, heat, h⟩ := run_bind_ok h
  cases h
  obtain ⟨-, -, rfl⟩ | ⟨-, -, rfl⟩ := eat_ok heat <;> rfl

/-- At the end of a line, when nothing else follows. -/
theorem lineEnd_ok {stmts stmts' : List (Placed Stmt)}
    (h : (do
      unless ← eat .newline do
        unless ← at? .eof do
          report ⟨(← peek).span, .invalidSyntax⟩
          skipLine
      return stmts : StmtReader (List (Placed Stmt))).run s = .ok stmts' s')
    (hclean : s'.issues = []) :
    stmts' = stmts ∧ s'.issues = s.issues ∧
      (s.cursor.kind = .newline ∧ s'.cursor = s.cursor.advance ∨
        s.cursor.kind = .eof ∧ s'.cursor = s.cursor) := by
  obtain ⟨found, s₁, heat, hrest⟩ := run_bind_ok h
  obtain ⟨rfl, hkind, rfl⟩ | ⟨rfl, hkind, rfl⟩ := eat_ok heat
  -- the line is at its end
  · cases hrest
    exact ⟨rfl, rfl, .inl ⟨hkind, rfl⟩⟩
  · obtain ⟨atEnd, s₂, hat, hrest⟩ := run_bind_ok hrest
    cases hat
    split at hrest
    -- so is the text
    · rename_i hend
      cases hrest
      exact ⟨rfl, rfl, .inr ⟨eq_of_beq hend, rfl⟩⟩
    -- what else stands in the line is reported
    · obtain ⟨t, s₂, hpeek, hrest⟩ := run_bind_ok hrest
      cases hpeek
      obtain ⟨_, s₂, hreport, hrest⟩ := run_bind_ok hrest
      cases hreport
      obtain ⟨_, s₃, hskip, hrest⟩ := run_bind_ok hrest
      cases hrest
      rw [issues_skipLine _ _ hskip] at hclean
      cases hclean

/-- **A line of simple statements**, read without an issue: up to its end nothing is left. -/
theorem simpleLine_ok {stmts : List (Placed Stmt)} (h : simpleLine.run s = .ok stmts s')
    (hclean : s'.issues = []) :
    s.issues = [] ∧ ∃ c, s.cursor.Within c ∧
      (c.kind = .newline ∧ s'.cursor = c.advance ∨ c.kind = .eof ∧ s'.cursor = c) ∧
      (s.cursor.kind.isLineEnd = false → (∃ t ∈ s.cursor.rest, t.kind = .eof) →
        LineFrom s.cursor stmts) := by
  obtain ⟨n, s₁, hrounds, h⟩ := run_bind_ok h
  cases hrounds
  obtain ⟨found, s₁, hfound, h⟩ := run_bind_ok h
  obtain ⟨atComment, s₂, hat, h⟩ := run_bind_ok h
  cases hat
  dsimp only at h
  split at h
  -- a comment behind the statements belongs to the last of them
  · rename_i hcomment
    have hinner : s₁.cursor.kind.isLineEnd = false := by
      rw [show s₁.cursor.kind = .comment from eq_of_beq hcomment]
      rfl
    obtain ⟨comment, s₂, hadvance, h⟩ := run_bind_ok h
    cases hadvance
    obtain ⟨stmts', s₂, hret, h⟩ := run_bind_ok h
    cases hret
    obtain ⟨rfl, hissues, hend⟩ := lineEnd_ok h hclean
    obtain ⟨hs, hwithin, hps⟩ := smallStatements_ok hfound (hissues ▸ hclean)
    exact ⟨hs, _, hwithin.trans (.advance hinner), hend,
      fun hstart hahead => (hps hstart hahead).withTrailing _⟩
  · obtain ⟨stmts', s₂, hret, h⟩ := run_bind_ok h
    cases hret
    obtain ⟨rfl, hissues, hend⟩ := lineEnd_ok h hclean
    obtain ⟨hs, hwithin, hps⟩ := smallStatements_ok hfound (hissues ▸ hclean)
    exact ⟨hs, _, hwithin, hend, hps⟩

/-! ### Headers -/

/-- From in front of a header to behind its colon at least two tokens of the line are passed. -/
structure PastHeader (c c' : Cursor) : Prop where
  first : c.kind.isLineEnd = false
  second : c.advance.kind.isLineEnd = false
  within : c.advance.advance.Within c'

/-- A function header is read past its name, from its first word. -/
theorem functionHeader_ok {decorators : List Expr} {isAsync : Bool} {header : FunctionHeader}
    (h : (functionHeader decorators isAsync).run s = .ok header s') :
    s'.issues = s.issues ∧ PastHeader s.cursor s'.cursor ∧
      s.cursor.kind = .keyword .Def ∧ header.name.span = s.cursor.advance.peek.span := by
  obtain ⟨t, s₁, hdef, h⟩ := run_bind_ok h
  obtain ⟨hkind, -, rfl⟩ := expect_ok hdef
  obtain ⟨name, s₂, hname, h⟩ := run_bind_ok h
  obtain ⟨hkind', hspan, rfl⟩ := ident_ok hname
  obtain ⟨hissues, hwithin⟩ := Stays.elim h <| by
    refine .seq .skipTypeParams fun _ s => .seq (.expect rfl) fun _ s => .rounds_bind ?_
    refine .seq (.paramList _ _ _) fun params s => .seq (.expect rfl) fun _ s => ?_
    refine .bind (.eat rfl s) fun found s _ =>
      .ite (fun _ => .bind (.map some (.exprUntil _ s)) ?_) fun _ => .bind (.pure none) ?_ <;>
    exact fun returns s _ => .bind (.expect rfl s) fun _ s _ => .peek_bind (.pure _)
  have hheader := Returns.elim (p := fun header => header.name = name) h <| by
    refine .bind fun _ => .bind fun _ => .bind fun _ => .bind fun params => .bind fun _ => ?_
    refine .bind fun found => .ite ?_ ?_ <;>
      exact .bind fun returns => .bind fun _ => .bind fun next => .pure rfl
  refine ⟨hissues, ⟨?_, ?_, hwithin⟩, hkind, hheader ▸ hspan⟩
  · rw [hkind]
    rfl
  · rw [show s.cursor.advance.kind = .name from hkind']
    rfl

/-- So is a class header. -/
theorem classHeader_ok {decorators : List Expr} {header : ClassHeader}
    (h : (classHeader decorators).run s = .ok header s') :
    s'.issues = s.issues ∧ PastHeader s.cursor s'.cursor ∧
      s.cursor.kind = .keyword .Class ∧ header.name.span = s.cursor.advance.peek.span := by
  obtain ⟨t, s₁, hclass, h⟩ := run_bind_ok h
  obtain ⟨hkind, -, rfl⟩ := expect_ok hclass
  obtain ⟨name, s₂, hname, h⟩ := run_bind_ok h
  obtain ⟨hkind', hspan, rfl⟩ := ident_ok hname
  obtain ⟨hissues, hwithin⟩ := Stays.elim h <| by
    refine .seq .skipTypeParams fun _ s => .bind (.eat rfl s) fun found s _ =>
      .ite (fun _ => .rounds_bind ?_) fun _ => .bind (.pure ([], [])) fun args s _ => ?_
    · refine .seq (.classArguments _) fun args s => .seq (.expect rfl) fun _ s => ?_
      exact .bind (.pure args) fun args s _ => .bind (.expect rfl s) fun _ s _ => .pure _
    · exact .bind (.expect rfl s) fun _ s _ => .pure _
  have hheader := Returns.elim (p := fun header => header.name = name) h <| by
    refine .bind fun _ => .bind fun found => .ite (.bind fun _ => .bind fun args => .bind fun _ => ?_) ?_ <;>
      exact .bind fun args => .bind fun _ => .pure rfl
  refine ⟨hissues, ⟨?_, ?_, hwithin⟩, hkind, hheader ▸ hspan⟩
  · rw [hkind]
    rfl
  · rw [show s.cursor.advance.kind = .name from hkind']
    rfl

/-- The end of a header that is found is in the line of the header. -/
theorem headerEnd_ok {depth lambdas : Nat} {prev : Token} {ts : List Token} {c : Cursor}
    (h : headerEnd depth lambdas prev ts = (true, c)) :
    (⟨prev, ts⟩ : Cursor).kind.isLineEnd = false ∧ (⟨prev, ts⟩ : Cursor).advance.Within c := by
  induction ts generalizing depth lambdas prev with
  | nil => cases h
  | cons t ts ih =>
    have hmore : ∀ {depth lambdas}, headerEnd depth lambdas t ts = (true, c) →
        (⟨t, ts⟩ : Cursor).Within c := by
      intro depth lambdas h
      obtain ⟨hinner, hwithin⟩ := ih h
      exact (Within.advance hinner).trans hwithin
    rw [headerEnd] at h
    split at h
    · cases h
    · rename_i hend
      have hinner : t.kind.isLineEnd = false := by simp_all
      refine ⟨hinner, ?_⟩
      -- a bracket, a `lambda` or any other token leads further, and so does the colon of a `lambda`
      split at h
      · exact hmore h
      · split at h
        · exact hmore h
        · split at h
          · exact hmore h
          · split at h
            · split at h
              -- the colon of the header
              · cases h
                exact .refl _
              · exact hmore h
            · exact hmore h

/-- A header whose form is left open; it may be no more than its colon. -/
theorem skipHeader_ok (h : skipHeader.run s = .ok () s') :
    s'.issues = s.issues ∧ s.cursor.kind.isLineEnd = false ∧ s.cursor.advance.Within s'.cursor ∧
      (s.cursor.kind ≠ .colon → PastHeader s.cursor s'.cursor) := by
  obtain ⟨c, s₁, hcursor, h⟩ := run_bind_ok h
  cases hcursor
  obtain ⟨_, s₁, hmove, h⟩ := run_bind_ok h
  cases hmove
  split at h
  · rename_i hfound
    cases h
    obtain ⟨⟨prev, rest⟩, issues⟩ := s
    cases rest with
    | nil => cases hfound
    | cons t ts =>
      obtain ⟨hfirst, hbehind⟩ := headerEnd_ok (Prod.ext hfound rfl)
      refine ⟨rfl, hfirst, hbehind, fun hkind => ?_⟩
      -- behind the first token, which is not the colon, the colon is still to come
      have hrest : ∃ depth lambdas, headerEnd 0 0 prev (t :: ts) = headerEnd depth lambdas t ts := by
        have hcolon : t.kind ≠ .colon := hkind
        dsimp only at hfound
        rw [headerEnd] at hfound ⊢
        split at hfound
        · cases hfound
        · rename_i hend
          rw [if_neg hend, if_neg (c := (decide (0 = 0) && decide (t.kind = .colon)) = true)
            (by simp [hcolon])]
          split
          · exact ⟨_, _, rfl⟩
          · split
            · exact ⟨_, _, rfl⟩
            · split <;> exact ⟨_, _, rfl⟩
      obtain ⟨depth, lambdas, hrest⟩ := hrest
      rw [hrest] at hfound
      obtain ⟨hsecond, hwithin⟩ := headerEnd_ok (Prod.ext hfound rfl)
      refine ⟨hfirst, hsecond, ?_⟩
      rw [hrest]
      exact hwithin
  · cases h

end StmtReader

end PackageDoc
