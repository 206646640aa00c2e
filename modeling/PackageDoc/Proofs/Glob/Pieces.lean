import Mathlib.Data.List.Forall2
import Mathlib.Data.List.Infix
import PackageDoc.Glob

namespace PackageDoc

/-!
# Matching a pattern is cutting a name into pieces

A pattern is written as a sequence of items, and matches the names that can be cut into pieces for
which its items stand, one after the other.  The scan that decides this keeps nothing but the last
`*` it passed, so it never tries again how much of the name an earlier `*` stands for.

* `GlobItem.Splits` — the items of a pattern, from left to right; `GlobItem.splits_cons_iff` says
  that they are read one by one, hence that a pattern has one splitting (`GlobItem.exists_splits`).
* `Fits` — a name can be cut into pieces that the items of a pattern stand for.
* `GlobScan.Covered` — why earlier stars may be forgotten: whatever could still be matched from the
  last `*` on can also be matched from where the scan stands, if characters in front are dropped;
  and dropping characters is what the next `*` does.
* `GlobScan.run_iff` — a scan succeeds iff the rest of its pattern fits the rest of the name, or
  what stands behind the last `*` fits a shorter ending.
-/

namespace GlobItem

/-! ### How a pattern is written -/

/-- What the body of a class lists: characters, and ranges written with a dash between their
    ends. -/
def listed : List Char → List (Char × Char)
  | lo :: '-' :: hi :: body => (lo, hi) :: listed body
  | c :: body => (c, c) :: listed body
  | [] => []

/-- No class begins with a `[` in front of `text`: nothing closes it, as a `]` right behind the
    opening `[` or `[!` is one of the characters listed. -/
def Unclosed : List Char → Prop
  | '!' :: text => ']' ∉ text.tail
  | text => ']' ∉ text.tail

/-- The items with which a pattern is written. -/
inductive Splits : List Char → List GlobItem → Prop
  | nil : Splits [] []
  | anyText {pattern : List Char} {items : List GlobItem} (h : Splits pattern items) :
      Splits ('*' :: pattern) (anyText :: items)
  | anyChar {pattern : List Char} {items : List GlobItem} (h : Splits pattern items) :
      Splits ('?' :: pattern) (anyChar :: items)
  | oneOf {first : Char} {body pattern : List Char} {items : List GlobItem} (hfirst : first ≠ '!')
      (hbody : ']' ∉ body) (h : Splits pattern items) :
      Splits ('[' :: first :: (body ++ ']' :: pattern))
        (oneOf false (listed (first :: body)) :: items)
  | noneOf {first : Char} {body pattern : List Char} {items : List GlobItem}
      (hbody : ']' ∉ body) (h : Splits pattern items) :
      Splits ('[' :: '!' :: first :: (body ++ ']' :: pattern))
        (oneOf true (listed (first :: body)) :: items)
  | bracket {pattern : List Char} {items : List GlobItem} (hopen : Unclosed pattern)
      (h : Splits pattern items) : Splits ('[' :: pattern) (char '[' :: items)
  | char {c : Char} {pattern : List Char} {items : List GlobItem} (hstar : c ≠ '*')
      (hmark : c ≠ '?') (hbracket : c ≠ '[') (h : Splits pattern items) :
      Splits (c :: pattern) (char c :: items)

/-- The texts that an item stands for. -/
inductive Stands : GlobItem → List Char → Prop
  | anyText (piece : List Char) : Stands anyText piece
  | anyChar (c : Char) : Stands anyChar [c]
  | oneOf {ranges : List (Char × Char)} {c : Char} (h : ∃ r ∈ ranges, r.1 ≤ c ∧ c ≤ r.2) :
      Stands (oneOf false ranges) [c]
  | noneOf {ranges : List (Char × Char)} {c : Char} (h : ¬ ∃ r ∈ ranges, r.1 ≤ c ∧ c ≤ r.2) :
      Stands (oneOf true ranges) [c]
  | char (c : Char) : Stands (char c) [c]

/-! ### Reading classes -/

/-- A class ends at its closing bracket. -/
@[simp] theorem readClass?_close (pattern : List Char) :
    readClass? false (']' :: pattern) = some ([], pattern) := by
  unfold readClass?
  split <;> grind

/-- Two characters with a hyphen between them are a range. -/
theorem readClass?_range {first : Bool} {lo hi : Char} (hlo : lo = ']' → first = true)
    (hhi : hi ≠ ']') (cs : List Char) :
    readClass? first (lo :: '-' :: hi :: cs)
      = (readClass? false cs).map fun r => ((lo, hi) :: r.1, r.2) := by
  rw [readClass?, if_neg (by simpa using hlo), if_neg hhi]

/-- Any other character stands for itself. -/
theorem readClass?_single {first : Bool} {c : Char} (hc : c = ']' → first = true)
    {cs : List Char} (hcs : ∀ hi rest, cs = '-' :: hi :: rest → hi = ']') :
    readClass? first (c :: cs)
      = (readClass? false cs).map fun r => ((c, c) :: r.1, r.2) := by
  conv_lhs => unfold readClass?
  split
  case h_1 => grind
  case h_2 => grind
  case h_3 => grind

/-- A class is read to the first bracket behind its first character. -/
theorem readClass?_listed {first : Bool} {c : Char} (hc : c = ']' → first = true)
    {body : List Char} (hbody : ']' ∉ body) (pattern : List Char) :
    readClass? first (c :: (body ++ ']' :: pattern)) = some (listed (c :: body), pattern) := by
  induction hn : body.length using Nat.strong_induction_on generalizing first c body with
  | _ n ih =>
    have hrest : ∀ rest : List Char, rest.length ≤ n → ']' ∉ rest →
        readClass? false (rest ++ ']' :: pattern) = some (listed rest, pattern) := by
      intro rest hlen hmem
      cases rest with
      | nil => simp [listed]
      | cons d rest =>
        simp only [List.mem_cons, not_or, List.length_cons] at hmem hlen
        exact ih rest.length (by omega) (fun hd => absurd hd.symm hmem.1) hmem.2 rfl
    -- `c` is the lower end of a range, or it stands for itself
    by_cases hrange : ∃ hi rest, body = '-' :: hi :: rest
    · obtain ⟨hi, rest, rfl⟩ := hrange
      simp only [List.mem_cons, not_or, List.length_cons] at hbody hn
      show readClass? first (c :: '-' :: hi :: (rest ++ ']' :: pattern)) = _
      rw [readClass?_range hc (Ne.symm hbody.2.1), hrest rest (by omega) hbody.2.2]
      rfl
    · have hclose : ∀ hi rest, body ++ ']' :: pattern = '-' :: hi :: rest → hi = ']' := by
        rcases body with _ | ⟨d, _ | ⟨hi', rest'⟩⟩
        · intro hi rest h
          cases h
        · intro hi rest h
          cases h
          rfl
        · intro hi rest h
          cases h
          exact absurd ⟨_, _, rfl⟩ hrange
      rw [readClass?_single hc hclose, hrest body hn.le hbody, listed]
      · rfl
      · exact fun hi rest h => hrange ⟨hi, rest, h⟩

/-- Without such a bracket no class is read. -/
theorem readClass?_eq_none {first : Bool} {cs : List Char}
    (h : ']' ∉ cs ∨ first = true ∧ ']' ∉ cs.tail) : readClass? first cs = none := by
  fun_induction readClass? first cs with
  | case1 => rfl
  | case2 => grind
  | case3 => grind
  | case4 => grind
  | case5 => grind
  | case6 => grind

/-- A bracket stands for itself or begins a class, which may be negated. -/
theorem unclosed_or (cs : List Char) :
    Unclosed cs ∨
      (∃ first body pattern, first ≠ '!' ∧ ']' ∉ body ∧ cs = first :: (body ++ ']' :: pattern)) ∨
      ∃ first body pattern, ']' ∉ body ∧ cs = '!' :: first :: (body ++ ']' :: pattern) := by
  -- the first character of a class belongs to it even when it is a closing bracket
  have hclosed : ∀ text : List Char, ']' ∈ text.tail →
      ∃ first body pattern, ']' ∉ body ∧ text = first :: (body ++ ']' :: pattern) := by
    intro text h
    cases text with
    | nil => cases h
    | cons first text =>
      obtain ⟨body, pattern, rfl, hbody⟩ := List.eq_append_cons_of_mem h
      exact ⟨first, body, pattern, hbody, rfl⟩
  by_cases hopen : Unclosed cs
  · exact .inl hopen
  · right
    unfold Unclosed at hopen
    split at hopen
    case h_1 text =>
      obtain ⟨first, body, pattern, hbody, rfl⟩ := hclosed text (not_not.mp hopen)
      exact .inr ⟨first, body, pattern, hbody, rfl⟩
    case h_2 hplain =>
      obtain ⟨first, body, pattern, hbody, rfl⟩ := hclosed cs (not_not.mp hopen)
      exact .inl ⟨first, body, pattern, fun h => hplain _ (by rw [h]), hbody, rfl⟩

/-- A bracket that is never closed opens no class. -/
theorem oneOf?_of_unclosed {cs : List Char} (h : Unclosed cs) : oneOf? cs = none := by
  unfold oneOf?
  split
  case h_1 => rw [readClass?_eq_none (.inr ⟨rfl, h⟩)]; rfl
  case h_2 hplain =>
    unfold Unclosed at h
    split at h
    · exact absurd rfl (hplain _)
    · rw [readClass?_eq_none (.inr ⟨rfl, h⟩)]; rfl

/-- A class lists the characters up to the bracket. -/
theorem oneOf?_listed {first : Char} {body : List Char} (hfirst : first ≠ '!')
    (hbody : ']' ∉ body) (pattern : List Char) :
    oneOf? (first :: (body ++ ']' :: pattern))
      = some (oneOf false (listed (first :: body)), pattern) := by
  unfold oneOf?
  split
  case h_1 h => exact absurd (List.cons.inj h).1 hfirst
  case h_2 => rw [readClass?_listed (fun _ => rfl) hbody]; rfl

/-- A class behind `!` lists those that it does not take. -/
theorem oneOf?_negated (first : Char) {body : List Char} (hbody : ']' ∉ body)
    (pattern : List Char) :
    oneOf? ('!' :: first :: (body ++ ']' :: pattern))
      = some (oneOf true (listed (first :: body)), pattern) := by
  rw [oneOf?, readClass?_listed (fun _ => rfl) hbody]
  rfl

/-- A bracket that opens no class is an item of its own. -/
theorem read_bracket (cs : List Char) : read '[' cs = (oneOf? cs).getD (char '[', cs) := rfl

/-- So is any character without a meaning. -/
theorem read_char {c : Char} (hstar : c ≠ '*') (hmark : c ≠ '?') (hbracket : c ≠ '[')
    (cs : List Char) : read c cs = (char c, cs) := by
  rw [read, if_neg hstar, if_neg hmark, if_neg hbracket]

/-- The items of a pattern are read one by one. -/
theorem splits_cons_iff {c : Char} {cs : List Char} {items : List GlobItem} :
    Splits (c :: cs) items ↔
      ∃ later, items = (read c cs).1 :: later ∧ Splits (read c cs).2 later := by
  constructor
  -- the way the first item is split off says how it is read
  · intro h
    cases h with
    | anyText h | anyChar h => exact ⟨_, rfl, h⟩
    | oneOf hfirst hbody h =>
      rw [read_bracket, oneOf?_listed hfirst hbody]
      exact ⟨_, rfl, h⟩
    | noneOf hbody h =>
      rw [read_bracket, oneOf?_negated _ hbody]
      exact ⟨_, rfl, h⟩
    | bracket hopen h =>
      rw [read_bracket, oneOf?_of_unclosed hopen]
      exact ⟨_, rfl, h⟩
    | char hstar hmark hbracket h =>
      rw [read_char hstar hmark hbracket]
      exact ⟨_, rfl, h⟩
  -- and the first character says which of the ways it is
  · rintro ⟨later, rfl, h⟩
    by_cases hstar : c = '*'
    · subst hstar
      exact .anyText h
    by_cases hmark : c = '?'
    · subst hmark
      exact .anyChar h
    by_cases hbracket : c = '['
    · subst hbracket
      rw [read_bracket] at h ⊢
      obtain hopen | ⟨first, body, pattern, hfirst, hbody, rfl⟩ |
        ⟨first, body, pattern, hbody, rfl⟩ := unclosed_or cs
      · rw [oneOf?_of_unclosed hopen] at h ⊢
        exact .bracket hopen h
      · rw [oneOf?_listed hfirst hbody] at h ⊢
        exact .oneOf hfirst hbody h
      · rw [oneOf?_negated first hbody] at h ⊢
        exact .noneOf hbody h
    · rw [read_char hstar hmark hbracket] at h ⊢
      exact .char hstar hmark hbracket h

/-- A pattern is written with one sequence of items. -/
theorem exists_splits (pattern : List Char) :
    ∃ items, ∀ others, Splits pattern others ↔ others = items := by
  induction hn : pattern.length using Nat.strong_induction_on generalizing pattern with
  | _ n ih =>
    cases pattern with
    | nil =>
      refine ⟨[], fun others => ⟨?_, ?_⟩⟩
      · rintro ⟨⟩; rfl
      · rintro rfl; exact .nil
    | cons c cs =>
      have hlen := read_length c cs
      rw [List.length_cons] at hn
      obtain ⟨items, hitems⟩ := ih (read c cs).2.length (by omega) _ rfl
      refine ⟨(read c cs).1 :: items, fun others => ?_⟩
      rw [splits_cons_iff]
      constructor
      · rintro ⟨later, rfl, h⟩
        rw [(hitems later).mp h]
      · rintro rfl
        exact ⟨items, rfl, (hitems items).mpr rfl⟩

/-- Every item but `*` stands for single characters. -/
theorem stands_iff {item : GlobItem} (hany : item ≠ anyText) {piece : List Char} :
    Stands item piece ↔ ∃ c, piece = [c] ∧ item.takes c = true := by
  constructor
  · intro h
    cases h with
    | anyText => exact absurd rfl hany
    | anyChar c => exact ⟨c, rfl, rfl⟩
    | oneOf h => exact ⟨_, rfl, by simpa [takes] using h⟩
    | noneOf h => exact ⟨_, rfl, by simpa [takes] using h⟩
    | char c => exact ⟨c, rfl, by simp [takes]⟩
  · rintro ⟨c, rfl, h⟩
    cases item with
    | anyText => exact absurd rfl hany
    | anyChar => exact .anyChar c
    | oneOf negated ranges =>
      cases negated with
      | false => exact .oneOf (by simpa [takes] using h)
      | true => exact .noneOf (by simpa [takes] using h)
    | char d =>
      obtain rfl : c = d := by simpa [takes] using h
      exact .char c

end GlobItem

/-! ### Cutting a name into pieces -/

open GlobItem

/-- A name can be cut into pieces for which the items of a pattern stand, one after the other. -/
def Fits (pattern name : List Char) : Prop :=
  ∃ items pieces, Splits pattern items ∧ pieces.flatten = name ∧ List.Forall₂ Stands items pieces

/-- The empty pattern fits the empty name alone. -/
@[simp] theorem fits_nil {name : List Char} : Fits [] name ↔ name = [] := by
  constructor
  · rintro ⟨items, pieces, hsplits, rfl, hstands⟩
    cases hsplits
    cases hstands
    rfl
  · rintro rfl
    exact ⟨[], [], .nil, rfl, .nil⟩

/-- A pattern fits a name that its first item takes a piece of, if the rest fits what is left. -/
theorem fits_cons {c : Char} {cs name : List Char} :
    Fits (c :: cs) name ↔
      ∃ piece ending, name = piece ++ ending ∧ Stands (read c cs).1 piece ∧
        Fits (read c cs).2 ending := by
  constructor
  · rintro ⟨items, pieces, hsplits, rfl, hstands⟩
    obtain ⟨later, rfl, hlater⟩ := splits_cons_iff.mp hsplits
    cases hstands with
    | cons hfirst hrest => exact ⟨_, _, rfl, hfirst, later, _, hlater, rfl, hrest⟩
  · rintro ⟨piece, _, rfl, hpiece, later, pieces, hlater, rfl, hrest⟩
    exact ⟨_, piece :: pieces, splits_cons_iff.mpr ⟨later, rfl, hlater⟩, rfl, .cons hpiece hrest⟩

/-- What stands behind a `*` fits some ending of the name. -/
theorem fits_cons_anyText {c : Char} {cs : List Char} (h : (read c cs).1 = anyText)
    {name : List Char} :
    Fits (c :: cs) name ↔ ∃ ending, ending <:+ name ∧ Fits (read c cs).2 ending := by
  rw [fits_cons, h]
  constructor
  · rintro ⟨piece, ending, rfl, -, hfits⟩
    exact ⟨ending, List.suffix_append _ _, hfits⟩
  · rintro ⟨ending, ⟨piece, rfl⟩, hfits⟩
    exact ⟨piece, ending, rfl, .anyText piece, hfits⟩

/-- Every other item takes one character off the name. -/
theorem fits_cons_of_ne {c : Char} {cs : List Char} (h : (read c cs).1 ≠ anyText)
    {name : List Char} :
    Fits (c :: cs) name ↔
      ∃ d ending, name = d :: ending ∧ (read c cs).1.takes d = true ∧
        Fits (read c cs).2 ending := by
  rw [fits_cons]
  constructor
  · rintro ⟨piece, ending, rfl, hpiece, hfits⟩
    obtain ⟨d, rfl, hd⟩ := (stands_iff h).mp hpiece
    exact ⟨d, ending, rfl, hd, hfits⟩
  · rintro ⟨d, ending, rfl, hd, hfits⟩
    exact ⟨[d], ending, rfl, (stands_iff h).mpr ⟨d, rfl, hd⟩, hfits⟩

/-- A `*` takes no single character. -/
theorem ne_anyText_of_takes {item : GlobItem} {c : Char} (h : item.takes c = true) :
    item ≠ anyText := by
  rintro rfl
  cases h

/-- It is read from a star alone. -/
theorem read_eq_anyText {c : Char} {cs : List Char} : (read c cs).1 = anyText ↔ c = '*' := by
  constructor
  · intro h
    obtain ⟨later, hlater⟩ := exists_splits (read c cs).2
    have hsplits := splits_cons_iff.mpr ⟨later, rfl, (hlater later).mpr rfl⟩
    rw [h] at hsplits
    cases hsplits
    rfl
  · rintro rfl
    rfl

/-- Only `*` stands for no character at all. -/
theorem fits_nil_right {pattern : List Char} :
    Fits pattern [] ↔ pattern.all (· == '*') = true := by
  induction pattern with
  | nil => simp
  | cons c cs ih =>
    by_cases hstar : c = '*'
    · subst hstar
      rw [fits_cons_anyText rfl]
      simp only [List.suffix_nil, exists_eq_left, List.all_cons, beq_self_eq_true, Bool.true_and]
      exact ih
    · rw [fits_cons_of_ne (mt read_eq_anyText.mp hstar)]
      simp [hstar]

/-! ### The scan -/

namespace GlobScan

/-- A scan can still succeed: from where it stands, or when its last `*` stands for more. -/
def Accepts (s : GlobScan) : Prop :=
  Fits s.pattern s.name ∨
    ∃ t ∈ s.star, ∃ ending, ending <:+ t.tried.tail ∧ Fits t.rest ending

/-- Whatever ending can be matched from the last `*` on, a later one can be matched from where the
    scan stands. -/
def Covered (s : GlobScan) : Prop :=
  ∀ t ∈ s.star, ∀ ending, ending <:+ t.tried → Fits t.rest ending →
    ∃ later, later <:+ s.name ∧ Fits s.pattern later

/-- An end of a name is the name or an end of what is behind its first character. -/
theorem suffix_iff_eq_or_tail {ending name : List Char} :
    ending <:+ name ↔ ending = name ∨ ending <:+ name.tail := by
  cases name with
  | nil => simp
  | cons c cs => exact List.suffix_cons_iff

section Star

/-! Right behind a `*`, a scan stands where it would go back to. -/

variable {s : GlobScan} {t : GlobStar} (hstar : s.star = some t) (hpattern : s.pattern = t.rest)
  (hname : s.name = t.tried)
include hstar hpattern hname

/-- A scan that has just met a `*` misses no fit. -/
theorem covered_of_star : s.Covered := by
  intro t' ht' ending hending hfits
  obtain rfl : t = t' := Option.some.inj (hstar.symm.trans ht')
  exact ⟨ending, hname ▸ hending, hpattern ▸ hfits⟩

/-- It accepts when the rest fits some end of the name. -/
theorem accepts_of_star :
    s.Accepts ↔ ∃ ending, ending <:+ t.tried ∧ Fits t.rest ending := by
  unfold Accepts
  rw [hstar, hpattern, hname]
  simp only [Option.mem_def, Option.some.injEq, exists_eq_left']
  constructor
  · rintro (hfits | ⟨ending, hending, hfits⟩)
    · exact ⟨_, List.suffix_rfl, hfits⟩
    · exact ⟨ending, suffix_iff_eq_or_tail.mpr (.inr hending), hfits⟩
  · rintro ⟨ending, hending, hfits⟩
    obtain rfl | htail := suffix_iff_eq_or_tail.mp hending
    · exact .inl hfits
    · exact .inr ⟨ending, htail, hfits⟩

end Star

/-- A step ahead misses no fit. -/
theorem covered_ahead? {s s' : GlobScan} (h : s.ahead? = some s') (hs : s.Covered) :
    s'.Covered := by
  obtain ⟨p, ps, c, cs, hp, hn, hp', ⟨hany, hn', hstar⟩ | ⟨htakes, hn', hstar⟩⟩ := ahead?_cases h
  · exact covered_of_star hstar hp' hn'
  · intro t ht ending hending hfits
    obtain ⟨later, hlater, hfits⟩ := hs t (hstar ▸ ht) ending hending hfits
    rw [hp, fits_cons_of_ne (ne_anyText_of_takes htakes)] at hfits
    obtain ⟨d, later, rfl, -, hfits⟩ := hfits
    rw [hn, suffix_iff_eq_or_tail] at hlater
    rw [hp', hn']
    obtain hwhole | htail := hlater
    · exact ⟨later, (List.cons.inj hwhole).2 ▸ List.suffix_rfl, hfits⟩
    · exact ⟨later, (List.suffix_cons d later).trans htail, hfits⟩

/-- It changes nothing of what is accepted. -/
theorem accepts_ahead? {s s' : GlobScan} (h : s.ahead? = some s') (hs : s.Covered) :
    s'.Accepts ↔ s.Accepts := by
  obtain ⟨p, ps, c, cs, hp, hn, hp', ⟨hany, hn', hstar⟩ | ⟨htakes, hn', hstar⟩⟩ := ahead?_cases h
  · rw [accepts_of_star hstar hp' hn']
    have hhere : Fits s.pattern s.name ↔
        ∃ ending, ending <:+ s.name ∧ Fits (GlobItem.read p ps).2 ending := by
      rw [hp, fits_cons_anyText hany]
    constructor
    · exact fun hfits => .inl (hhere.mpr hfits)
    · rintro (hfits | ⟨t, ht, ending, hending, hfits⟩)
      · exact hhere.mp hfits
      · -- the star passed before is forgotten: the new one can stand for what it would leave over
        obtain ⟨later, hlater, hfits⟩ := hs t ht ending
          (suffix_iff_eq_or_tail.mpr (.inr hending)) hfits
        rw [hp, fits_cons_anyText hany] at hfits
        obtain ⟨last, hlast, hfits⟩ := hfits
        exact ⟨last, hlast.trans hlater, hfits⟩
  · unfold Accepts
    have hhere : Fits s.pattern s.name ↔ Fits s'.pattern s'.name := by
      rw [hp, hn, hp', hn', fits_cons_of_ne (ne_anyText_of_takes htakes)]
      simp [htakes]
    rw [hstar, hhere]

/-- Where no step ahead can be made, the pattern does not fit. -/
theorem not_fits_of_ahead? {s : GlobScan} (hname : s.name ≠ []) (h : s.ahead? = none) :
    ¬ Fits s.pattern s.name := by
  unfold ahead? at h
  split at h
  case h_1 p ps c cs hp hn =>
    dsimp only at h
    split at h
    case isTrue => cases h
    case isFalse hany =>
      split at h
      case isTrue => cases h
      case isFalse htakes =>
        rw [hp, hn, fits_cons_of_ne hany]
        rintro ⟨d, ending, heq, hd, -⟩
        exact htakes ((List.cons.inj heq).1 ▸ hd)
  case h_2 hcons =>
    cases hp : s.pattern with
    | nil => exact fun hfits => hname (fits_nil.mp hfits)
    | cons p ps =>
      obtain ⟨c, cs, hn⟩ := List.exists_cons_of_ne_nil hname
      exact absurd hn (hcons p ps c cs hp)

/-- One step keeps track of all that can be matched. -/
theorem next?_cases {s s' : GlobScan} (hname : s.name ≠ []) (h : s.next? = some s')
    (hs : s.Covered) : s'.Covered ∧ (s'.Accepts ↔ s.Accepts) := by
  rcases Option.or_eq_some_iff.mp h with hahead | ⟨hstuck, hback⟩
  · exact ⟨covered_ahead? hahead hs, accepts_ahead? hahead hs⟩
  · obtain ⟨t, ht, rfl⟩ := Option.map_eq_some_iff.mp hback
    refine ⟨covered_of_star rfl rfl rfl, ?_⟩
    rw [accepts_of_star rfl rfl rfl]
    unfold Accepts
    rw [ht]
    simp [not_fits_of_ahead? hname hstuck]

/-- Where no step can be made at all, nothing is accepted. -/
theorem not_accepts_of_next? {s : GlobScan} (hname : s.name ≠ []) (h : s.next? = none) :
    ¬ s.Accepts := by
  obtain ⟨hstuck, hback⟩ := Option.or_eq_none_iff.mp h
  rintro (hfits | ⟨t, ht, -⟩)
  · exact not_fits_of_ahead? hname hstuck hfits
  · rw [back?, Option.map_eq_none_iff] at hback
    rw [hback] at ht
    cases ht

/-- **A scan succeeds iff it can.** -/
theorem run_iff {s : GlobScan} (hs : s.Covered) : s.run = true ↔ s.Accepts := by
  fun_induction run s with
  | case1 s hname =>
    rw [← fits_nil_right, ← hname]
    constructor
    · exact .inl
    · rintro (hfits | ⟨t, ht, ending, hending, hfits⟩)
      · exact hfits
      · obtain ⟨later, hlater, hfits⟩ := hs t ht ending
          (suffix_iff_eq_or_tail.mpr (.inr hending)) hfits
        rw [hname, List.suffix_nil] at hlater
        rwa [hname, ← hlater]
  | case2 s hname s' hnext ih =>
    obtain ⟨hcovered, haccepts⟩ := next?_cases hname hnext hs
    rw [ih hcovered, haccepts]
  | case3 s hname hnext => simpa using not_accepts_of_next? hname hnext

end GlobScan

/-- **Patterns match what their items stand for.**  Every pattern is written as one sequence of
    items, and it matches exactly the names that can be cut into consecutive pieces for which these
    items stand, in order. -/
theorem globMatches_iff_pieces (pattern : String) :
    ∃ items, (∀ others, Splits pattern.toList others ↔ others = items) ∧
      ∀ name : String, globMatches pattern name = true ↔
        ∃ pieces : List (List Char), pieces.flatten = name.toList ∧
          List.Forall₂ Stands items pieces := by
  obtain ⟨items, hitems⟩ := exists_splits pattern.toList
  refine ⟨items, hitems, fun name => ?_⟩
  rw [globMatches, GlobScan.run_iff (by rintro t ⟨⟩)]
  constructor
  · rintro (⟨others, pieces, hothers, hpieces, hstands⟩ | ⟨t, ⟨⟩, -⟩)
    rw [(hitems others).mp hothers] at hstands
    exact ⟨pieces, hpieces, hstands⟩
  · rintro ⟨pieces, hpieces, hstands⟩
    exact .inl ⟨items, pieces, (hitems items).mpr rfl, hpieces, hstands⟩

end PackageDoc
