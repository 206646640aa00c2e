import PackageDoc.Proofs.Syntax.Quoting
import Mathlib.Data.Nat.Digits.Defs
import Mathlib.Tactic.IntervalCases

namespace PackageDoc

/-!
# Numeric escapes

A backslash with `x`, `u` or `U` names a character by 2, 4 or 8 hexadecimal digits.  The digits are
read as a number that may have a sign, so a plus sign passes for the first of them.

* `Text.Names` — hexadecimal digits write the number of a character;
* `Unescapes` — how far carrying out the escapes of a text has come, and with what result;
* `NumericEscape` — what a numeric escape stands for, and what is left behind it;
* `numericEscape?_eq_some_iff` — the escapes that are replaced by a character;
* `unescape_numericEscape_iff` — an escape is treated so, unless a plus sign stands for a digit.
-/

/-! ### Digits -/

namespace Text

/-- The hexadecimal digits, letters in either case. -/
def hexDigits : List Char :=
  "0123456789abcdefABCDEF".toList

/-- The place of a hexadecimal digit among the digits. -/
def digitValue (c : Char) : Nat :=
  "0123456789abcdef".toList.idxOf c.toLower

/-- Hexadecimal digits write the number of the character `d`. -/
def Names (digits : List Char) (d : Char) : Prop :=
  (∀ c ∈ digits, c ∈ hexDigits) ∧ Nat.ofDigits 16 (digits.reverse.map digitValue) = d.toNat

/-- A hexadecimal digit has its value. -/
theorem hexDigit?_of_mem {c : Char} (h : c ∈ hexDigits) : hexDigit? c = some (digitValue c) := by
  have hall : (hexDigits.all fun c => hexDigit? c == some (digitValue c)) = true := by
    decide +kernel
  exact beq_iff_eq.mp (List.all_eq_true.mp hall c h)

/-- Nothing else has one. -/
theorem mem_hexDigits_of_hexDigit? {c : Char} {n : Nat} (h : hexDigit? c = some n) :
    c ∈ hexDigits := by
  have hrange : (48 ≤ c.toNat ∧ c.toNat ≤ 57) ∨ (97 ≤ c.toNat ∧ c.toNat ≤ 102) ∨
      (65 ≤ c.toNat ∧ c.toNat ≤ 70) := by
    unfold hexDigit? at h
    split at h
    · rename_i hdigit
      exact .inl (by simpa [Char.isDigit, UInt32.le_iff_toNat_le] using hdigit)
    split at h
    · rename_i hlower
      exact .inr (.inl (by simpa [Char.le_def, UInt32.le_iff_toNat_le] using hlower))
    split at h
    · rename_i hupper
      exact .inr (.inr (by simpa [Char.le_def, UInt32.le_iff_toNat_le] using hupper))
    · cases h
  rw [← Char.ofNat_toNat c]
  generalize c.toNat = k at hrange
  obtain ⟨hlow, hhigh⟩ | ⟨hlow, hhigh⟩ | ⟨hlow, hhigh⟩ := hrange <;> interval_cases k <;> decide

/-- Reading a number goes on from what the digits before have given. -/
theorem hexValue?_eq_some_iff {acc n : Nat} {cs : List Char} :
    hexValue? acc cs = some n ↔ (∀ c ∈ cs, c ∈ hexDigits) ∧
      acc * 16 ^ cs.length + Nat.ofDigits 16 (cs.reverse.map digitValue) = n := by
  induction cs generalizing acc with
  | nil => simp [hexValue?]
  | cons c cs ih =>
    rw [hexValue?]
    by_cases hc : c ∈ hexDigits
    · have hplace : (acc * 16 + digitValue c) * 16 ^ cs.length =
          acc * 16 ^ (cs.length + 1) + 16 ^ cs.length * digitValue c := by ring
      simp only [hexDigit?_of_mem hc, Option.bind_some, ih, hplace, List.forall_mem_cons, hc,
        true_and, List.length_cons, List.reverse_cons, List.map_append, List.map_cons, List.map_nil,
        Nat.ofDigits_append, Nat.ofDigits_singleton, List.length_map, List.length_reverse]
      refine and_congr_right fun _ => ?_
      rw [add_assoc, add_comm (16 ^ cs.length * _)]
    · have hnone : hexDigit? c = none :=
        Option.eq_none_iff_forall_ne_some.mpr fun _ hn => hc (mem_hexDigits_of_hexDigit? hn)
      simp [hnone, hc]

/-- Digits have the value of a character exactly when they name it. -/
theorem hexValue?_eq_some_toNat_iff {cs : List Char} {d : Char} :
    hexValue? 0 cs = some d.toNat ↔ Names cs d := by
  rw [hexValue?_eq_some_iff, Names, zero_mul, zero_add]

/-- A number is of the character with that code. -/
theorem charOfNat?_eq_some_iff {n : Nat} {d : Char} : charOfNat? n = some d ↔ n = d.toNat := by
  unfold charOfNat?
  constructor
  · intro h
    split at h
    · rename_i hvalid
      rw [← Option.some.inj h, Char.ofNat, dif_pos hvalid]
      rfl
    · cases h
  · rintro rfl
    have hvalid : d.toNat.isValidChar := d.valid
    rw [if_pos hvalid, Char.ofNat_toNat]

/-- A text of one-byte characters is as long as it has characters. -/
theorem byteLength_eq_length {cs : List Char} (h : ∀ c ∈ cs, c.utf8Size = 1) :
    byteLength cs = cs.length := by
  induction cs with
  | nil => rfl
  | cons c cs ih =>
    obtain ⟨hc, hcs⟩ := List.forall_mem_cons.mp h
    rw [byteLength, hc, ih hcs, List.length_cons, add_comm]

/-- A digit is a one-byte character. -/
theorem utf8Size_of_mem_hexDigits {c : Char} (h : c ∈ hexDigits) : c.utf8Size = 1 := by
  have hall : (hexDigits.all fun c => c.utf8Size == 1) = true := by decide
  exact beq_iff_eq.mp (List.all_eq_true.mp hall c h)

end Text

/-! ### What numeric escapes are replaced by -/

/-- A sign may stand in front of the digits. -/
theorem signedHexValue?_eq_some_iff {cs : List Char} {d : Char} :
    signedHexValue? cs = some d.toNat ↔
      (cs ≠ [] ∧ Text.Names cs d) ∨ ∃ ds, ds ≠ [] ∧ cs = '+' :: ds ∧ Text.Names ds d := by
  cases cs with
  | nil => simp [signedHexValue?]
  | cons c cs =>
    by_cases hc : c = '+'
    · subst hc
      have hsign : ¬Text.Names ('+' :: cs) d := fun hnames =>
        absurd (hnames.1 '+' List.mem_cons_self) (by decide)
      cases cs with
      | nil => simp [signedHexValue?, hsign]
      | cons c' cs => simp [signedHexValue?, Text.hexValue?_eq_some_toNat_iff, hsign]
    · have hread : signedHexValue? (c :: cs) = Text.hexValue? 0 (c :: cs) := by
        rw [signedHexValue?] <;> simp [hc]
      simp [hread, Text.hexValue?_eq_some_toNat_iff, hc]

/-- The characters that are read as a number take one byte each. -/
theorem byteLength_of_signedHexValue? {cs : List Char} {d : Char}
    (h : signedHexValue? cs = some d.toNat) : Text.byteLength cs = cs.length := by
  apply Text.byteLength_eq_length
  obtain ⟨-, hnames⟩ | ⟨ds, -, rfl, hnames⟩ := signedHexValue?_eq_some_iff.mp h
  · exact fun c hc => Text.utf8Size_of_mem_hexDigits (hnames.1 c hc)
  · refine List.forall_mem_cons.mpr ⟨by decide, fun c hc => ?_⟩
    exact Text.utf8Size_of_mem_hexDigits (hnames.1 c hc)

/-- The escapes that are replaced by a character: their digits name it, perhaps behind a sign. -/
theorem numericEscape?_eq_some_iff {width : Nat} (hwidth : 1 < width) {rest : List Char}
    {d : Char} :
    numericEscape? width rest = some d ↔ ∃ digits behind, rest = digits ++ behind ∧
      digits.length = width ∧
        (Text.Names digits d ∨ ∃ ds, digits = '+' :: ds ∧ Text.Names ds d) := by
  have hread : numericEscape? width rest = some d ↔
      Text.byteLength (rest.take width) = width ∧
        signedHexValue? (rest.take width) = some d.toNat := by
    unfold numericEscape?
    simp [Option.ite_none_right_eq_some, Option.bind_eq_some_iff, Text.charOfNat?_eq_some_iff]
  rw [hread]
  constructor
  · rintro ⟨hbytes, hvalue⟩
    refine ⟨rest.take width, rest.drop width, (List.take_append_drop _ _).symm, ?_, ?_⟩
    -- the width is counted in bytes, but digits and signs are one byte each
    · rw [← byteLength_of_signedHexValue? hvalue, hbytes]
    · obtain ⟨-, hnames⟩ | ⟨ds, -, hsigned, hnames⟩ := signedHexValue?_eq_some_iff.mp hvalue
      · exact .inl hnames
      · exact .inr ⟨ds, hsigned, hnames⟩
  · rintro ⟨digits, behind, rfl, hlength, hnames⟩
    have hvalue : signedHexValue? digits = some d.toNat := by
      refine signedHexValue?_eq_some_iff.mpr (hnames.imp (fun hnames => ⟨?_, hnames⟩) ?_)
      · rintro rfl
        simp at hlength
        omega
      · rintro ⟨ds, rfl, hds⟩
        refine ⟨ds, ?_, rfl, hds⟩
        rintro rfl
        simp at hlength
        omega
    rw [List.take_left' hlength, byteLength_of_signedHexValue? hvalue]
    exact ⟨hlength, hvalue⟩

/-- The letters of numeric escapes stand for nothing else. -/
theorem escapeValue_numeric {letter : Char} {width : Nat}
    (h : Text.escapeWidth? letter = some width) (rest : List Char) :
    escapeValue letter rest = match numericEscape? width rest with
      | some d => ([d], width)
      | none => (['\\', letter], 0) := by
  unfold Text.escapeWidth? at h
  split at h <;> cases h <;>
    · rw [escapeValue, if_neg (by decide), if_neg (by decide)]
      simp only [simpleEscape?, Text.escapeWidth?, Option.bind_some]
      cases numericEscape? _ rest <;> rfl

/-- A numeric escape has more than one digit. -/
theorem one_lt_of_escapeWidth? {letter : Char} {width : Nat}
    (h : Text.escapeWidth? letter = some width) : 1 < width := by
  unfold Text.escapeWidth? at h
  split at h <;> cases h <;> decide

/-! ### Carrying out the escapes -/

/-- Skipping characters is dropping them. -/
theorem unescapeFrom_drop (n : Nat) (cs : List Char) :
    unescapeFrom n cs = unescape (cs.drop n) := by
  induction n generalizing cs with
  | zero => rfl
  | succ n ih =>
    cases cs with
    | nil => simp [unescape, unescapeFrom]
    | cons c cs => rw [unescapeFrom, ih, List.drop_succ_cons]

/-- Anything but a backslash stands for itself. -/
theorem unescape_plain {c : Char} (hc : c ≠ '\\') (cs : List Char) :
    unescape (c :: cs) = c :: unescape cs :=
  unescapeFrom_plain hc cs

/-- A backslash stands for what its escape does, with all its characters. -/
theorem unescape_escape (c : Char) (cs : List Char) :
    unescape ('\\' :: c :: cs) =
      (escapeValue c cs).1 ++ unescape (cs.drop (escapeValue c cs).2) := by
  rw [unescape, unescapeFrom, unescapeFrom_drop]

/-- Carrying out the escapes of `body` comes to `rest`, with `out` written so far. -/
inductive Unescapes (body : List Char) : (out rest : List Char) → Prop where
  | start : Unescapes body [] body
  | plain {out rest : List Char} {c : Char} (hc : c ≠ '\\')
      (h : Unescapes body out (c :: rest)) : Unescapes body (out ++ [c]) rest
  | escape {out rest : List Char} {c : Char} (h : Unescapes body out ('\\' :: c :: rest)) :
      Unescapes body (out ++ (escapeValue c rest).1) (rest.drop (escapeValue c rest).2)
  | last {out : List Char} (h : Unescapes body out ['\\']) : Unescapes body (out ++ ['\\']) []

/-- What comes out in the end is what is written so far and what comes out of the rest. -/
theorem Unescapes.unescape_eq {body out rest : List Char} (h : Unescapes body out rest) :
    unescape body = out ++ unescape rest := by
  induction h with
  | start => rfl
  | plain hc _ ih => rw [ih, unescape_plain hc, List.append_assoc, List.singleton_append]
  | escape _ ih => rw [ih, unescape_escape, List.append_assoc]
  | last _ ih =>
    rw [ih, List.append_assoc]
    rfl

/-- Every text is gone through up to its end. -/
theorem Unescapes.ends {body out rest : List Char} (h : Unescapes body out rest) :
    Unescapes body (unescape body) [] := by
  induction hlength : rest.length using Nat.strong_induction_on generalizing out rest with
  | _ n ih =>
    match rest, h with
    | [], h =>
      have hout := h.unescape_eq
      rw [show unescape [] = [] from rfl, List.append_nil] at hout
      rwa [hout]
    | c :: rest, h =>
      by_cases hc : c = '\\'
      · subst hc
        cases rest with
        | nil => exact ih 0 (by simp [← hlength]) h.last rfl
        | cons c rest => exact ih _ (by simp [← hlength]; omega) h.escape rfl
      · exact ih _ (by simp [← hlength]) (h.plain hc) rfl

/-! ### Numeric escapes in a text -/

/-- What the escape of `letter` in front of `rest` is to stand for, and what is left behind it: the
    character that `width` digits name, or else the backslash and the letter. -/
inductive NumericEscape (letter : Char) (width : Nat) : (rest value behind : List Char) → Prop where
  | named {digits behind : List Char} {d : Char} (hlength : digits.length = width)
      (hnames : Text.Names digits d) : NumericEscape letter width (digits ++ behind) [d] behind
  | kept {rest : List Char} (h : ∀ digits behind d, rest = digits ++ behind →
      digits.length = width → ¬Text.Names digits d) :
      NumericEscape letter width rest ['\\', letter] rest

/-- A plus sign stands in the place of the first digit, and the others name a character. -/
def SignedDigits (width : Nat) (rest : List Char) : Prop :=
  ∃ ds behind d, rest = '+' :: (ds ++ behind) ∧ ds.length + 1 = width ∧ Text.Names ds d

/-- Digits are no backslashes: they come out as they are. -/
theorem unescape_digits {ds : List Char} (h : ∀ c ∈ ds, c ∈ Text.hexDigits) (cs : List Char) :
    unescape (ds ++ cs) = ds ++ unescape cs := by
  induction ds with
  | nil => rfl
  | cons c ds ih =>
    obtain ⟨hc, hds⟩ := List.forall_mem_cons.mp h
    have hslash : c ≠ '\\' := by
      rintro rfl
      exact absurd hc (by decide)
    rw [List.cons_append, unescape_plain hslash, ih hds, List.cons_append]

/-- With a sign in place of a digit the escape is replaced, and the text gets too short. -/
theorem unescape_signedDigits {letter : Char} {width : Nat}
    (hwidth : Text.escapeWidth? letter = some width) {rest : List Char}
    (h : SignedDigits width rest) :
    unescape ('\\' :: letter :: rest) ≠ '\\' :: letter :: unescape rest := by
  obtain ⟨ds, behind, d, rfl, hlength, hnames⟩ := h
  have hvalue : numericEscape? width ('+' :: (ds ++ behind)) = some d := by
    refine (numericEscape?_eq_some_iff (one_lt_of_escapeWidth? hwidth)).mpr ?_
    exact ⟨'+' :: ds, behind, rfl, hlength, .inr ⟨ds, rfl, hnames⟩⟩
  have hdrop : ('+' :: ds ++ behind).drop width = behind := List.drop_left' hlength
  rw [List.cons_append] at hdrop
  rw [unescape_escape, escapeValue_numeric hwidth, hvalue, hdrop, unescape_plain (by decide),
    unescape_digits hnames.1]
  intro heq
  have hlengths := congrArg List.length heq
  simp at hlengths
  omega

/-- **Numeric escapes are carried out as they are written.**  Wherever carrying out the escapes of a
    text comes to a numeric escape, digits that name a character are replaced by it, and otherwise
    the backslash and the letter are kept and what follows is read anew: exactly when there is no
    plus sign in the place of the first digit, with digits behind it that name a character. -/
theorem unescape_numericEscape_iff {body out rest : List Char} {letter : Char} {width : Nat}
    (hwidth : Text.escapeWidth? letter = some width)
    (h : Unescapes body out ('\\' :: letter :: rest)) :
    (∃ value behind, NumericEscape letter width rest value behind ∧
      Unescapes body (out ++ value) behind ∧
        unescape body = out ++ value ++ unescape behind) ↔ ¬SignedDigits width rest := by
  have hcharacter (d : Char) : numericEscape? width rest = some d ↔ _ :=
    numericEscape?_eq_some_iff (one_lt_of_escapeWidth? hwidth)
  constructor
  · rintro ⟨value, behind, hescape, -, hout⟩ hsigned
    cases hescape with
    | @named digits _ _ hlength hnames =>
      -- the first digit would be the plus sign
      have hone := one_lt_of_escapeWidth? hwidth
      obtain ⟨ds, behind', d, hrest, -, -⟩ := hsigned
      cases digits with
      | nil =>
        rw [List.length_nil] at hlength
        omega
      | cons c digits =>
        obtain rfl := (List.cons.inj hrest).1
        exact absurd (hnames.1 '+' List.mem_cons_self) (by decide)
    | kept hkept =>
      rw [h.unescape_eq, List.append_assoc, List.append_cancel_left_eq] at hout
      exact unescape_signedDigits hwidth hsigned hout
  · intro hsigned
    have hnext := h.escape
    rw [escapeValue_numeric hwidth] at hnext
    cases hvalue : numericEscape? width rest with
    | some d =>
      rw [hvalue] at hnext
      obtain ⟨digits, behind, rfl, hlength, hnames | ⟨ds, rfl, hnames⟩⟩ := (hcharacter d).mp hvalue
      · have hdrop : (digits ++ behind).drop width = behind := List.drop_left' hlength
        rw [hdrop] at hnext
        exact ⟨[d], behind, .named hlength hnames, hnext, hnext.unescape_eq⟩
      · exact absurd ⟨ds, behind, d, rfl, hlength, hnames⟩ hsigned
    | none =>
      rw [hvalue] at hnext
      refine ⟨['\\', letter], rest, .kept ?_, hnext, hnext.unescape_eq⟩
      intro digits behind d hrest hlength hnames
      have hsome := (hcharacter d).mpr ⟨digits, behind, hrest, hlength, .inl hnames⟩
      simp [hvalue] at hsome

/-- Both escapes in `\x41\x4` are carried out as they are written: the first one stands for `A`, the
    second one is short of a digit and is kept. -/
theorem unescape_numericEscape_iff_short :
    ∃ value behind, NumericEscape 'x' 2 ['4'] value behind ∧
      Unescapes "\\x41\\x4".toList (['A'] ++ value) behind ∧
        unescape "\\x41\\x4".toList = ['A'] ++ value ++ unescape behind := by
  have hreached : Unescapes "\\x41\\x4".toList ['A'] ['\\', 'x', '4'] := .escape .start
  refine (unescape_numericEscape_iff rfl hreached).mpr ?_
  rintro ⟨ds, behind, d, hrest, -⟩
  exact absurd (List.cons.inj hrest).1 (by decide)

/-- The plus sign in `\x+1` passes for a digit: the escape is replaced by the character with the
    number 1, where it should be kept. -/
theorem not_numericEscape_signed :
    Unescapes ['\\', 'x', '+', '1'] [] ['\\', 'x', '+', '1'] ∧
      Text.escapeWidth? 'x' = some 2 ∧
        ¬∃ value behind, NumericEscape 'x' 2 ['+', '1'] value behind ∧
          Unescapes ['\\', 'x', '+', '1'] ([] ++ value) behind ∧
            unescape ['\\', 'x', '+', '1'] = [] ++ value ++ unescape behind := by
  refine ⟨.start, rfl, ?_⟩
  rintro ⟨value, behind, hescape, -, hout⟩
  generalize hrest : ['+', '1'] = rest at hescape
  cases hescape with
  | @named digits _ _ hlength hnames =>
    have htake : (digits ++ behind).take 2 = digits := List.take_left' hlength
    have hdigits : digits = ['+', '1'] := by rw [← htake, ← hrest]; rfl
    exact absurd (hnames.1 '+' (by simp [hdigits])) (by decide)
  | kept =>
    subst hrest
    exact absurd hout (by decide)

end PackageDoc
