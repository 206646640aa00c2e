import PackageDoc.Declaration.SignatureComment
import PackageDoc.Proofs.Syntax.Quoting
import PackageDoc.Proofs.Text.Blanks
import Mathlib.Data.List.Infix

namespace PackageDoc

/-!
# Signature comments

Which parameters the types of a comment `(A, B) -> R` go to.  The parenthesis that closes the list
and the commas between the types are found by two walks that count brackets; both follow the same
depth, which in a balanced text is the number of brackets opened less that of brackets closed.

* `IsBalanced`, `LeavesOpen` and `NeverClosed` — brackets, said by counting them;
* `bracketDepth_add_closings` — the depth that the walks follow, counted;
* `splitGroup?_append` and `splitCommas_append` — the walks over a text that does not end them;
* `TypeText` and `SignatureComment` — the comments;
* `FunctionDecl.withSignatureComment_text` — what such a comment does to a declaration.
-/

/-! ### Brackets, counted -/

/-- The number of brackets that a text opens. -/
def openings (cs : List Char) : Nat :=
  cs.countP opensBracket

/-- The number of brackets that a text closes. -/
def closings (cs : List Char) : Nat :=
  cs.countP closesBracket

/-- Every closing bracket closes one that the text opens, and none is left open.  Their shapes are
    not compared, and quotes are characters like any other. -/
structure IsBalanced (cs : List Char) : Prop where
  nested : ∀ p, p <+: cs → closings p ≤ openings p
  closed : closings cs = openings cs

/-- Each comma of the text stands within brackets. -/
def IsUndivided (cs : List Char) : Prop :=
  ∀ before behind, cs = before ++ ',' :: behind → closings before < openings before

/-- The text opens a bracket that the rest of it does not close. -/
def LeavesOpen (cs : List Char) : Prop :=
  ∃ before bracket behind, cs = before ++ bracket :: behind ∧ opensBracket bracket = true ∧
    ∀ p, p <+: behind → closings p ≤ openings p

/-- Each closing parenthesis of the text closes a bracket that the text opens, so that none is left
    for one in front of the text. -/
def NeverClosed (cs : List Char) : Prop :=
  ∀ before behind, cs = before ++ ')' :: behind → LeavesOpen before

instance (cs : List Char) : Decidable (IsBalanced cs) :=
  decidable_of_iff ((∀ p ∈ cs.inits, closings p ≤ openings p) ∧ closings cs = openings cs)
    ⟨fun h => ⟨fun p hp => h.1 p ((List.mem_inits p cs).mpr hp), h.2⟩,
      fun h => ⟨fun p hp => h.nested p ((List.mem_inits p cs).mp hp), h.closed⟩⟩

/-- What stands in front of a character is found by the place of the character. -/
theorem forall_before_iff_take {c : Char} {cs : List Char} {P : List Char → Prop} :
    (∀ before behind, cs = before ++ c :: behind → P before) ↔
      ∀ i < cs.length, cs[i]? = some c → P (cs.take i) := by
  constructor
  · intro h i hi hc
    refine h (cs.take i) (cs.drop (i + 1)) ?_
    rw [← Option.some.inj ((List.getElem?_eq_getElem hi).symm.trans hc), List.getElem_cons_drop,
      List.take_append_drop]
  · rintro h before behind rfl
    simpa using h before.length (by simp) (by simp)

instance (cs : List Char) : Decidable (IsUndivided cs) :=
  decidable_of_iff
    (∀ i < cs.length, cs[i]? = some ',' → closings (cs.take i) < openings (cs.take i))
    (@forall_before_iff_take ',' cs fun before => closings before < openings before).symm

/-- The depth behind a text, as both walks follow it. -/
def bracketDepth (depth : Nat) : List Char → Nat
  | [] => depth
  | c :: cs =>
    bracketDepth (if opensBracket c then depth + 1 else if closesBracket c then depth - 1 else depth)
      cs

variable {depth : Nat} {c : Char} {cs ds : List Char}

/-- A character that opens a bracket closes none. -/
theorem closesBracket_of_opensBracket (h : opensBracket c = true) : closesBracket c = false := by
  simp only [opensBracket, Bool.or_eq_true, beq_iff_eq] at h
  rcases h with (rfl | rfl) | rfl <;> rfl

/-- Brackets are counted through one text and then the next. -/
theorem bracketDepth_append (depth : Nat) (cs ds : List Char) :
    bracketDepth depth (cs ++ ds) = bracketDepth (bracketDepth depth cs) ds := by
  induction cs generalizing depth with
  | nil => rfl
  | cons c cs ih =>
    rw [List.cons_append, bracketDepth, bracketDepth, ih]

/-- A character adds one opening bracket at most. -/
theorem openings_cons (c : Char) (cs : List Char) :
    openings (c :: cs) = openings cs + if opensBracket c then 1 else 0 :=
  List.countP_cons

/-- It adds one closing bracket at most. -/
theorem closings_cons (c : Char) (cs : List Char) :
    closings (c :: cs) = closings cs + if closesBracket c then 1 else 0 :=
  List.countP_cons

/-- As long as no more brackets are closed than are open, the depth is what was opened less what was
    closed. -/
theorem bracketDepth_add_closings (h : ∀ p, p <+: cs → closings p ≤ depth + openings p) :
    bracketDepth depth cs + closings cs = depth + openings cs := by
  induction cs generalizing depth with
  | nil => rfl
  | cons c cs ih =>
    have hmore : ∀ p, p <+: cs → closings (c :: p) ≤ depth + openings (c :: p) := fun p hp =>
      h (c :: p) (List.cons_prefix_cons.mpr ⟨rfl, hp⟩)
    have hfirst := h [c] (List.cons_prefix_cons.mpr ⟨rfl, List.nil_prefix⟩)
    simp only [closings_cons, openings_cons] at hmore hfirst ⊢
    rw [bracketDepth]
    -- the bracket, if it is one, is counted on one side only
    cases hopens : opensBracket c with
    | true =>
      have hcloses := closesBracket_of_opensBracket hopens
      simp only [hopens, hcloses, if_true, Bool.false_eq_true, if_false] at hmore ⊢
      have hdepth : bracketDepth (depth + 1) cs + closings cs = depth + 1 + openings cs :=
        ih fun p hp => by
          have hcount := hmore p hp
          omega
      omega
    | false =>
      cases hcloses : closesBracket c with
      | true =>
        simp only [hopens, hcloses, if_true, Bool.false_eq_true, if_false] at hmore hfirst ⊢
        have hone : 1 ≤ depth := by simpa [closings, openings] using hfirst
        have hdepth : bracketDepth (depth - 1) cs + closings cs = depth - 1 + openings cs :=
          ih fun p hp => by
            have hcount := hmore p hp
            omega
        omega
      | false =>
        simp only [hopens, hcloses, Bool.false_eq_true, if_false] at hmore ⊢
        exact ih hmore

/-- A text that leaves a bracket open leaves the count above zero. -/
theorem LeavesOpen.bracketDepth_pos (h : LeavesOpen cs) (depth : Nat) :
    0 < bracketDepth depth cs := by
  obtain ⟨before, bracket, behind, rfl, hopens, hbehind⟩ := h
  rw [bracketDepth_append, bracketDepth, if_pos hopens]
  have hdepth : bracketDepth (bracketDepth depth before + 1) behind + closings behind =
      bracketDepth depth before + 1 + openings behind :=
    bracketDepth_add_closings fun p hp => Nat.le_add_left_of_le (hbehind p hp)
  have hclosings := hbehind behind (List.prefix_refl behind)
  omega

namespace IsBalanced

/-- A balanced text leaves the count as it was. -/
theorem bracketDepth_eq (h : IsBalanced cs) (depth : Nat) : bracketDepth depth cs = depth := by
  have hdepth : bracketDepth depth cs + closings cs = depth + openings cs :=
    bracketDepth_add_closings fun p hp => Nat.le_add_left_of_le (h.nested p hp)
  have hclosed := h.closed
  omega

/-- What stands in front of a closing parenthesis leaves a bracket open. -/
theorem bracketDepth_ne_zero (h : IsBalanced cs) {before behind : List Char}
    (hcs : cs = before ++ ')' :: behind) : bracketDepth 0 before ≠ 0 := by
  have hnested : ∀ p, p <+: before → closings p ≤ 0 + openings p := fun p hp => by
    rw [Nat.zero_add]
    exact h.nested p (hp.trans ⟨_, hcs.symm⟩)
  have hdepth := bracketDepth_add_closings hnested
  have hclosing : closings (before ++ [')']) ≤ openings (before ++ [')']) :=
    h.nested _ ⟨behind, by rw [hcs, List.append_assoc]; rfl⟩
  simp only [closings, openings, List.countP_append] at hclosing hdepth
  have hone : [')'].countP closesBracket = 1 := rfl
  have hzero : [')'].countP opensBracket = 0 := rfl
  omega

end IsBalanced

/-! ### The two walks -/

/-- A text in which every closing parenthesis stands within brackets does not end the list. -/
theorem splitGroup?_append
    (h : ∀ before behind, cs = before ++ ')' :: behind → bracketDepth depth before ≠ 0) :
    splitGroup? depth (cs ++ ds) =
      (splitGroup? (bracketDepth depth cs) ds).map fun r => (cs ++ r.1, r.2) := by
  induction cs generalizing depth with
  | nil => exact Option.map_id'.symm
  | cons c cs ih =>
    have hc : (decide (c = ')') && decide (depth = 0)) = false := by
      by_contra hend
      simp only [Bool.not_eq_false, Bool.and_eq_true, decide_eq_true_eq] at hend
      obtain ⟨rfl, hdepth⟩ := hend
      exact h [] cs rfl hdepth
    rw [List.cons_append, splitGroup?, hc, if_neg Bool.false_ne_true, bracketDepth]
    dsimp only
    rw [ih fun before behind hcs => h (c :: before) behind (by rw [hcs, List.cons_append]),
      Option.map_map]
    rfl

/-- Splitting at commas gives at least one piece. -/
theorem splitCommas_ne_nil (depth : Nat) (cs : List Char) : splitCommas depth cs ≠ [] := by
  cases cs with
  | nil => exact List.cons_ne_nil _ _
  | cons c cs =>
    rw [splitCommas]
    split
    · exact List.cons_ne_nil _ _
    · dsimp only
      split <;> exact List.cons_ne_nil _ _

/-- A character that does not separate types belongs to the first of them. -/
theorem splitCommas_cons (h : c ≠ ',' ∨ depth ≠ 0) :
    splitCommas depth (c :: cs) =
      (splitCommas (bracketDepth depth [c]) cs).modifyHead (c :: ·) := by
  have hc : (decide (c = ',') && decide (depth = 0)) = false := by
    rcases h with h | h <;> simp [h]
  rw [splitCommas, hc, if_neg Bool.false_ne_true]
  dsimp only [bracketDepth]
  split
  · rename_i hnil
    exact absurd hnil (splitCommas_ne_nil _ cs)
  · rename_i hcons
    rw [hcons]
    rfl

/-- A text in which every comma stands within brackets belongs to one type. -/
theorem splitCommas_append
    (h : ∀ before behind, cs = before ++ ',' :: behind → bracketDepth depth before ≠ 0) :
    splitCommas depth (cs ++ ds) =
      (splitCommas (bracketDepth depth cs) ds).modifyHead (cs ++ ·) := by
  induction cs generalizing depth with
  | nil => exact (List.modifyHead_id ▸ rfl)
  | cons c cs ih =>
    have hc : c ≠ ',' ∨ depth ≠ 0 := by
      by_contra hcut
      rw [not_or, not_not, not_not] at hcut
      obtain ⟨rfl, hdepth⟩ := hcut
      exact h [] cs rfl hdepth
    rw [List.cons_append, splitCommas_cons hc,
      ih fun before behind hcs => by
        rw [← bracketDepth_append]
        exact h (c :: before) behind (by rw [hcs, List.cons_append]),
      ← bracketDepth_append, List.modifyHead_modifyHead]
    rfl

/-! ### Comments -/

/-- A type as it can stand in the list of a comment. -/
structure TypeText where
  text : List Char
  trimmed : Text.trim text = text
  filled : text ≠ []
  balanced : IsBalanced text
  undivided : IsUndivided text

/-- A comment `(A, B) -> R` that lists types. -/
structure SignatureComment where
  types : List TypeText
  returns : TypeText
  /-- A list of three dots leaves the parameters alone. -/
  listed : types.map TypeText.text ≠ ["...".toList]

namespace SignatureComment

/-- The text of the list. -/
def list (types : List TypeText) : List Char :=
  Text.join [',', ' '] (types.map TypeText.text)

/-- The text of the comment. -/
def text (s : SignatureComment) : String :=
  String.ofList ('(' :: (list s.types ++ ") -> ".toList ++ s.returns.text))

/-- The type for the parameter at a place, if the parameters from the place `offset` on have the
    types of the list, one after the other.  The stars of a variadic parameter and the blanks behind
    them do not count. -/
def hintAt (s : SignatureComment) (offset place : Nat) : Option TypeHint :=
  if place < offset then none
  else s.types[place - offset]?.map fun t =>
    { raw := String.ofList (Text.trim (t.text.dropWhile fun c => c == '*')) }

/-- In a class the list may leave out the first parameter. -/
def offset (s : SignatureComment) (f : FunctionDecl) (inClass : Bool) : Nat :=
  if inClass ∧ f.params.length = s.types.length + 1 then 1 else 0

/-- The declaration with the types of the comment for its result and those of its parameters that
    are not annotated. -/
def annotate (s : SignatureComment) (f : FunctionDecl) (inClass : Bool) : FunctionDecl :=
  { f with
    returns := f.returns <|> some { raw := String.ofList s.returns.text }
    params := f.params.mapIdx fun place p =>
      { p with hint := p.hint <|> s.hintAt (s.offset f inClass) place } }

end SignatureComment

/-! ### Reading the list -/

namespace TypeText

/-- At the commas inside a type some bracket is open. -/
theorem bracketDepth_comma (t : TypeText) {before behind : List Char}
    (hcs : t.text = before ++ ',' :: behind) : bracketDepth 0 before ≠ 0 := by
  have hnested : ∀ p, p <+: before → closings p ≤ 0 + openings p := fun p hp => by
    rw [Nat.zero_add]
    exact t.balanced.nested p (hp.trans ⟨_, hcs.symm⟩)
  have hdepth := bracketDepth_add_closings hnested
  have hopen := t.undivided before behind hcs
  omega

/-- The closing parenthesis of the list is found behind all types. -/
theorem splitGroup?_list (types : List TypeText) (cs : List Char) :
    splitGroup? 0 (SignatureComment.list types ++ ')' :: cs) =
      some (SignatureComment.list types, cs) := by
  -- a type closes every bracket that it opens, so none that it closes ends the group
  have hone : ∀ (t : TypeText) (ds : List Char), splitGroup? 0 (t.text ++ ds) =
      (splitGroup? 0 ds).map fun r => (t.text ++ r.1, r.2) := fun t ds => by
    rw [splitGroup?_append fun _ _ => t.balanced.bracketDepth_ne_zero, t.balanced.bracketDepth_eq]
  induction types with
  | nil => rfl
  | cons t types ih =>
    cases types with
    | nil =>
      rw [SignatureComment.list, List.map_singleton, Text.join, hone]
      simp [splitGroup?]
    | cons t' types =>
      have hlist : SignatureComment.list (t :: t' :: types) =
          t.text ++ ',' :: ' ' :: SignatureComment.list (t' :: types) := by
        simp [SignatureComment.list, Text.join]
      have hseparator : ∀ ds, splitGroup? 0 (',' :: ' ' :: ds) =
          (splitGroup? 0 ds).map fun r => (',' :: ' ' :: r.1, r.2) := fun ds => by
        simp [splitGroup?, opensBracket, closesBracket, Option.map_map, Function.comp_def]
      rw [hlist, List.append_assoc, hone, List.cons_append, List.cons_append, hseparator, ih]
      rfl

/-- A blank in front of a list of types is passed. -/
theorem typeList_blank (cs : List Char) : typeList (' ' :: cs) = typeList cs := by
  have hhead : ∀ pieces : List (List Char), (pieces.modifyHead (' ' :: ·)).map Text.trim =
      pieces.map Text.trim := fun pieces => by
    cases pieces with
    | nil => rfl
    | cons piece pieces => rfl
  rw [typeList, splitCommas_cons (.inl (by decide)), hhead]
  rfl

/-- The types of the list are read one after the other. -/
theorem typeList_list (types : List TypeText) :
    typeList (SignatureComment.list types) = types.map TypeText.text := by
  have hone : ∀ (t : TypeText) (ds : List Char), splitCommas 0 (t.text ++ ds) =
      (splitCommas 0 ds).modifyHead (t.text ++ ·) := fun t ds => by
    rw [splitCommas_append fun _ _ => t.bracketDepth_comma, t.balanced.bracketDepth_eq]
  have hkept : ∀ t : TypeText, (!t.text.isEmpty) = true := fun t => by simpa using t.filled
  induction types with
  | nil => rfl
  | cons t types ih =>
    cases types with
    | nil =>
      have hsplit := hone t []
      rw [List.append_nil] at hsplit
      rw [SignatureComment.list, List.map_singleton, Text.join, typeList, hsplit]
      simp [splitCommas, t.trimmed, t.filled]
    | cons t' types =>
      have hlist : SignatureComment.list (t :: t' :: types) =
          t.text ++ ',' :: ' ' :: SignatureComment.list (t' :: types) := by
        simp [SignatureComment.list, Text.join]
      have hcut : ∀ ds, splitCommas 0 (',' :: ds) = [] :: splitCommas 0 ds := fun ds => rfl
      rw [hlist, typeList, hone, hcut, List.modifyHead_cons, List.append_nil, List.map_cons,
        t.trimmed, @List.filter_cons_of_pos _ (fun t : List Char => !t.isEmpty) _ _ (hkept t)]
      -- the space behind the comma is trimmed with the type behind it
      exact congrArg (t.text :: ·) ((typeList_blank _).trans ih)

end TypeText

/-! ### Giving the types -/

/-- The parameters get the types in order. -/
theorem typeParams_eq_mapIdx (ps : List ParamDecl) (types : List (List Char)) :
    typeParams ps types = ps.mapIdx fun place p =>
      { p with hint := p.hint <|> types[place]?.map fun t =>
        { raw := String.ofList (Text.trim (t.dropWhile fun c => c == '*')) } } := by
  induction ps generalizing types with
  | nil => rfl
  | cons p ps ih =>
    cases types with
    | nil =>
      have hmore : typeParams ps [] = ps := by cases ps <;> rfl
      rw [List.mapIdx_cons]
      refine congrArg₂ List.cons ?_ (hmore.symm.trans (ih []))
      simp
    | cons t types =>
      rw [typeParams, List.mapIdx_cons, ih]
      rfl

/-- The first parameters, which the list leaves out, stay as they are. -/
theorem SignatureComment.take_append_typeParams (s : SignatureComment) (ps : List ParamDecl)
    {offset : Nat} (h : offset ≤ 1) :
    ps.take offset ++ typeParams (ps.drop offset) (s.types.map TypeText.text) =
      ps.mapIdx fun place p => { p with hint := p.hint <|> s.hintAt offset place } := by
  obtain rfl | rfl := Nat.le_one_iff_eq_zero_or_eq_one.mp h
  · rw [List.take_zero, List.drop_zero, List.nil_append, typeParams_eq_mapIdx]
    simp [hintAt, Option.map_map, Function.comp_def]
  · cases ps with
    | nil => rfl
    | cons p ps =>
      rw [List.mapIdx_cons, List.drop_succ_cons, List.drop_zero, typeParams_eq_mapIdx]
      simp [hintAt, Option.map_map, Function.comp_def]

/-! ### Comments on declarations -/

namespace SignatureComment

variable (s : SignatureComment)

/-- A comment types the result and, from the offset on, the parameters. -/
theorem withSignatureComment_eq (f : FunctionDecl) (inClass : Bool) :
    f.withSignatureComment s.text inClass = s.annotate f inClass := by
  have htext : Text.trim s.text.toList =
      ['('] ++ (list s.types ++ ')' :: (" -> ".toList ++ s.returns.text)) := by
    have htrim : Text.trim (('(' :: (list s.types ++ ") -> ".toList)) ++ s.returns.text) = _ :=
      Text.trim_append (List.cons_ne_nil _ _) (by rintro c ⟨⟩; rfl) s.returns.trimmed
        s.returns.filled
    rw [List.cons_append, List.append_assoc] at htrim
    rw [text, String.toList_ofList, List.append_assoc]
    exact htrim
  have harrow : Text.trim ("-> ".toList ++ s.returns.text) = "-> ".toList ++ s.returns.text :=
    Text.trim_append (by decide) (by rintro c ⟨⟩; rfl) s.returns.trimmed s.returns.filled
  have hrest : Text.trim (" -> ".toList ++ s.returns.text) = ['-', '>'] ++ ' ' :: s.returns.text :=
    harrow
  have hreturns : Text.trim (' ' :: s.returns.text) = s.returns.text := s.returns.trimmed
  have hfilled : s.returns.text.isEmpty = false := by simpa using s.returns.filled
  have hoffset :
      (if (inClass && decide ((s.types.map TypeText.text).length + 1 = f.params.length)) = true then
        1 else 0) = s.offset f inClass := by
    simp only [offset, List.length_map, Bool.and_eq_true, decide_eq_true_eq,
      @eq_comm _ f.params.length]
  have hle : s.offset f inClass ≤ 1 := by
    unfold offset
    split <;> omega
  rw [FunctionDecl.withSignatureComment, htext, stripStart?_append]
  dsimp only
  rw [TypeText.splitGroup?_list]
  dsimp only
  rw [hrest, stripStart?_append]
  dsimp only
  rw [hreturns, hfilled, TypeText.typeList_list, if_neg s.listed, if_neg Bool.false_ne_true,
    hoffset, s.take_append_typeParams f.params hle]
  rfl

end SignatureComment

/-- **Types reach their parameters.**  A comment that lists balanced types gives the result its type
    and the parameters, from the first or in a class perhaps from the second on, theirs, and changes
    nothing else; a comment whose first parenthesis is not closed changes nothing at all. -/
theorem FunctionDecl.withSignatureComment_text (f : FunctionDecl) (inClass : Bool) :
    (∀ s : SignatureComment, f.withSignatureComment s.text inClass = s.annotate f inClass) ∧
      ∀ (comment : String) (inside : List Char), Text.trim comment.toList = '(' :: inside →
        NeverClosed inside → f.withSignatureComment comment inClass = f := by
  refine ⟨fun s => s.withSignatureComment_eq f inClass, fun comment inside htext hnever => ?_⟩
  have hgroup : splitGroup? 0 inside = none := by
    have happend : splitGroup? 0 (inside ++ []) = _ := splitGroup?_append fun before behind hcs =>
      Nat.pos_iff_ne_zero.mp ((hnever before behind hcs).bracketDepth_pos 0)
    rw [List.append_nil] at happend
    exact happend.trans rfl
  have hopen : Text.stripStart? ['('] ('(' :: inside) = some inside :=
    stripStart?_append ['('] inside
  rw [withSignatureComment, htext, hopen]
  dsimp only
  rw [hgroup]

/-- A method with an annotated parameter and a variadic one. -/
def annotatedMethod : FunctionDecl where
  name := "m"
  line := 1
  params :=
    [⟨"self", .positionalOrKeyword, none, none⟩, ⟨"a", .positionalOrKeyword, none, none⟩,
      ⟨"b", .positionalOrKeyword, some { raw := "str" }, some "None"⟩,
      ⟨"c", .varPositional, none, none⟩]

/-- Types with brackets within brackets. -/
def nestedTypes : SignatureComment where
  types :=
    [⟨"Dict[str, (int)]".toList, by decide, by decide, by decide, by decide⟩,
      ⟨"int".toList, by decide, by decide, by decide, by decide⟩,
      ⟨"*Tuple[int, ...]".toList, by decide, by decide, by decide, by decide⟩]
  returns := ⟨"bool".toList, by decide, by decide, by decide, by decide⟩
  listed := by decide

/-- A comment with nested brackets gives a method its types, behind the first parameter. -/
theorem FunctionDecl.withSignatureComment_text_nested :
    annotatedMethod.withSignatureComment "(Dict[str, (int)], int, *Tuple[int, ...]) -> bool" true =
        { annotatedMethod with
          returns := some { raw := "bool" }
          params :=
            [⟨"self", .positionalOrKeyword, none, none⟩,
              ⟨"a", .positionalOrKeyword, some { raw := "Dict[str, (int)]" }, none⟩,
              ⟨"b", .positionalOrKeyword, some { raw := "str" }, some "None"⟩,
              ⟨"c", .varPositional, some { raw := "Tuple[int, ...]" }, none⟩] } ∧
      NeverClosed "int, [str) -> bool".toList ∧
      annotatedMethod.withSignatureComment "(int, [str) -> bool" true = annotatedMethod := by
  have hnever : NeverClosed "int, [str) -> bool".toList := by
    refine forall_before_iff_take.mpr fun i hi hparen => ?_
    obtain rfl : i = 9 := by
      revert i
      decide
    exact ⟨"int, ".toList, '[', "str".toList, rfl, rfl,
      (show IsBalanced "str".toList by decide).nested⟩
  obtain ⟨htyped, hsame⟩ := annotatedMethod.withSignatureComment_text true
  exact ⟨htyped nestedTypes, hnever, hsame _ _ (by decide) hnever⟩

/-- A type whose star has a blank behind it. -/
def spacedStar : SignatureComment where
  types := [⟨"* int".toList, by decide, by decide, by decide, by decide⟩]
  returns := ⟨"str".toList, by decide, by decide, by decide, by decide⟩
  listed := by decide

/-- A function with a variadic parameter. -/
def variadicFunction : FunctionDecl where
  name := "f"
  line := 1
  params := [⟨"a", .varPositional, none, none⟩]

/-- It is not the stars alone that are left out. -/
theorem FunctionDecl.withSignatureComment_ne_spacedStar :
    (variadicFunction.withSignatureComment spacedStar.text false).params.map ParamDecl.hint ≠
      spacedStar.types.map fun t =>
        some { raw := String.ofList (t.text.dropWhile fun c => c == '*') } := by
  rw [spacedStar.withSignatureComment_eq]
  decide

end PackageDoc
