import PackageDoc.Text.Space

namespace PackageDoc

/-!
# Patterns of module names

Shell patterns: `*` stands for any text, `?` for any character, `[...]` for one of the characters
listed and `[!...]` for one that is not.  A set of patterns matches a module when one of them
matches its name or the name of a package around it.
-/

/-- A part of a pattern. -/
inductive GlobItem where
  | anyText
  | anyChar
  /-- A character in one of the ranges, or in none if `negated`. -/
  | oneOf (negated : Bool) (ranges : List (Char × Char))
  | char (c : Char)
  deriving Repr, DecidableEq, Inhabited

namespace GlobItem

/-- Read a class from behind its opening bracket, and after the `!` that negates it.  The first
    character belongs to the class even if it is a bracket.  `none` when the class is not closed. -/
def readClass? (first : Bool) : List Char → Option (List (Char × Char) × List Char)
  | [] => none
  | lo :: '-' :: hi :: rest =>
    if lo = ']' && !first then some ([], '-' :: hi :: rest)
    else if hi = ']' then
      (readClass? false ('-' :: hi :: rest)).map fun r => ((lo, lo) :: r.1, r.2)
    else (readClass? false rest).map fun r => ((lo, hi) :: r.1, r.2)
  | c :: rest =>
    if c = ']' && !first then some ([], rest)
    else (readClass? false rest).map fun r => ((c, c) :: r.1, r.2)

/-- Read a class from behind its opening bracket. -/
def oneOf? (cs : List Char) : Option (GlobItem × List Char) :=
  match cs with
  | '!' :: rest => (readClass? true rest).map fun r => (oneOf true r.1, r.2)
  | _ => (readClass? true cs).map fun r => (oneOf false r.1, r.2)

/-- The first item of a pattern that begins with `c`.  A bracket that no class begins with stands
    for itself. -/
def read (c : Char) (cs : List Char) : GlobItem × List Char :=
  if c = '*' then (anyText, cs)
  else if c = '?' then (anyChar, cs)
  else if c = '[' then (oneOf? cs).getD (char c, cs)
  else (char c, cs)

/-- A class is read from the front of what is left. -/
theorem readClass?_length {first : Bool} {cs : List Char} {r : List (Char × Char) × List Char}
    (h : readClass? first cs = some r) : r.2.length ≤ cs.length := by
  fun_induction readClass? first cs generalizing r with
  | case1 => cases h
  | case2 => cases h; simp
  | case3 _ _ _ _ ih | case4 _ _ _ _ _ _ ih | case6 _ _ _ _ _ ih =>
    obtain ⟨q, hq, rfl⟩ := Option.map_eq_some_iff.mp h
    have hlen := ih hq
    simp only [List.length_cons] at hlen ⊢
    omega
  | case5 => cases h; simp

/-- So is a class with its brackets. -/
theorem oneOf?_length {cs : List Char} {r : GlobItem × List Char} (h : oneOf? cs = some r) :
    r.2.length ≤ cs.length := by
  unfold oneOf? at h
  split at h
  · obtain ⟨q, hq, rfl⟩ := Option.map_eq_some_iff.mp h
    exact Nat.le_succ_of_le (readClass?_length hq)
  · obtain ⟨q, hq, rfl⟩ := Option.map_eq_some_iff.mp h
    exact readClass?_length hq

/-- What is left behind an item is no longer than what stood behind its first character. -/
theorem read_length (c : Char) (cs : List Char) : (read c cs).2.length ≤ cs.length := by
  unfold read
  repeat' split
  case isFalse.isFalse.isTrue =>
    cases h : oneOf? cs with
    | none => exact Nat.le_refl _
    | some r => exact oneOf?_length h
  all_goals exact Nat.le_refl _

/-- Does an item that stands for one character stand for `c`? -/
def takes : GlobItem → Char → Bool
  | anyText, _ => false
  | anyChar, _ => true
  | oneOf negated ranges, c => (ranges.any fun r => r.1 ≤ c && c ≤ r.2) != negated
  | char d, c => c == d

end GlobItem

/-- A `*` to which a scan goes back: the pattern behind it, and the ending of the name that was left
    to that pattern when it was last tried. -/
structure GlobStar where
  rest : List Char
  tried : List Char
  deriving Repr, DecidableEq, Inhabited

/-- How far a scan has come: what is left of the pattern and of the name, and the last `*` passed. -/
structure GlobScan where
  pattern : List Char
  name : List Char
  star : Option GlobStar := none
  /-- What is left is part of what was left behind the last `*`. -/
  within : ∀ s ∈ star, pattern.length ≤ s.rest.length ∧ name.length ≤ s.tried.length := by simp

namespace GlobScan

/-- Pass the next item of the pattern, and the character it stands for unless it is a `*`. -/
def ahead? (s : GlobScan) : Option GlobScan :=
  match hp : s.pattern, hn : s.name with
  | p :: ps, c :: cs =>
    let r := GlobItem.read p ps
    if r.1 = .anyText then
      some { pattern := r.2, name := s.name, star := some ⟨r.2, s.name⟩ }
    else if r.1.takes c then
      some
        { pattern := r.2
          name := cs
          star := s.star
          within := fun t ht => by
            have hr : r.2.length ≤ ps.length := GlobItem.read_length p ps
            have h := s.within t ht
            rw [hp, hn, List.length_cons, List.length_cons] at h
            omega }
    else none
  | _, _ => none

/-- Let the last `*` stand for one more character and go on behind it. -/
def back? (s : GlobScan) : Option GlobScan :=
  s.star.map fun t =>
    { pattern := t.rest
      name := t.tried.tail
      star := some ⟨t.rest, t.tried.tail⟩
      within := by rintro _ ⟨⟩; exact ⟨Nat.le_refl _, Nat.le_refl _⟩ }

/-- One step of a scan of a name that has not ended. -/
def next? (s : GlobScan) : Option GlobScan :=
  s.ahead?.or s.back?

/-- What a scan can still do: fewer endings of the name to try, or less of the pattern to pass. -/
def measure (s : GlobScan) : Nat :=
  match s.star with
  | none => (s.name.length + 1) * (s.pattern.length + 1)
  | some t => t.tried.length * (t.rest.length + 1) + s.pattern.length

/-- A step ahead passes an item of the pattern: a `*` with nothing of the name, which is remembered,
    or any other item with one character that it takes. -/
theorem ahead?_cases {s s' : GlobScan} (h : s.ahead? = some s') :
    ∃ p ps c cs, s.pattern = p :: ps ∧ s.name = c :: cs ∧ s'.pattern = (GlobItem.read p ps).2 ∧
      ((GlobItem.read p ps).1 = .anyText ∧ s'.name = s.name ∧
          s'.star = some ⟨(GlobItem.read p ps).2, s.name⟩ ∨
        (GlobItem.read p ps).1.takes c = true ∧ s'.name = cs ∧ s'.star = s.star) := by
  unfold ahead? at h
  split at h
  case h_1 p ps c cs hp hn =>
    refine ⟨p, ps, c, cs, hp, hn, ?_⟩
    dsimp only at h
    split at h
    case isTrue hany => cases h; exact ⟨rfl, .inl ⟨hany, rfl, rfl⟩⟩
    case isFalse =>
      split at h
      case isTrue htakes => cases h; exact ⟨rfl, .inr ⟨htakes, rfl, rfl⟩⟩
      case isFalse => cases h
  case h_2 => cases h

/-- A step ahead leaves less to be scanned. -/
theorem measure_ahead? {s s' : GlobScan} (h : s.ahead? = some s') : s'.measure < s.measure := by
  obtain ⟨p, ps, c, cs, hp, hn, hp', ⟨-, hn', hstar⟩ | ⟨-, hn', hstar⟩⟩ := ahead?_cases h
  all_goals
    have hr : s'.pattern.length < s.pattern.length := by
      rw [hp', hp]; exact Nat.lt_succ_of_le (GlobItem.read_length p ps)
    unfold measure
    rw [hstar, hn']
  · rw [← hp']
    cases hs : s.star with
    | none =>
      have := Nat.mul_le_mul_left s.name.length (Nat.add_le_add_right (Nat.le_of_lt hr) 1)
      simp only [Nat.succ_mul]
      omega
    | some t =>
      have hwithin := s.within t hs
      have := Nat.mul_le_mul hwithin.2
        (Nat.add_le_add_right (Nat.le_trans (Nat.le_of_lt hr) hwithin.1) 1)
      simp only
      omega
  · cases hs : s.star with
    | none => exact Nat.mul_lt_mul_of_lt_of_lt (by simp [hn]) (Nat.succ_lt_succ hr)
    | some t => exact Nat.add_lt_add_left hr _

/-- Going back to the last `*` leaves less too, because the `*` takes one more character. -/
theorem measure_back? {s s' : GlobScan} (hname : s.name ≠ []) (h : s.back? = some s') :
    s'.measure < s.measure := by
  obtain ⟨t, ht, rfl⟩ := Option.map_eq_some_iff.mp h
  have hname := List.length_pos_iff.mpr hname
  have htried : t.tried.length = t.tried.tail.length + 1 := by
    have := (s.within t ht).2
    rw [List.length_tail]
    omega
  simp only [measure, ht]
  rw [htried, Nat.succ_mul]
  omega

/-- Every step of a scan leaves less, so that it ends. -/
theorem measure_next? {s s' : GlobScan} (hname : s.name ≠ []) (h : s.next? = some s') :
    s'.measure < s.measure := by
  rcases Option.or_eq_some_iff.mp h with hahead | ⟨-, hback⟩
  · exact measure_ahead? hahead
  · exact measure_back? hname hback

/-- Scan a name to its end: nothing but `*` may then be left of the pattern. -/
def run (s : GlobScan) : Bool :=
  if _hname : s.name = [] then s.pattern.all (· == '*')
  else
    match _h : s.next? with
    | some s' => s'.run
    | none => false
termination_by s.measure
decreasing_by exact measure_next? _hname _h

end GlobScan

/-- Does a pattern match a name? -/
def globMatches (pattern name : String) : Bool :=
  GlobScan.run { pattern := pattern.toList, name := name.toList }

/-- The lists of at least one element that a list begins with, longest first. -/
def beginnings {α : Type} : List α → List (List α)
  | [] => []
  | a :: as => (beginnings as).map (a :: ·) ++ [[a]]

/-- A module's name and the names of the packages around it. -/
def enclosingNames (module : String) : List String :=
  (beginnings (segments module)).map dotted

/-- Patterns in the order in which they were added, each once. -/
structure PatternSet where
  patterns : List String := []
  deriving Repr, DecidableEq, Inhabited

namespace PatternSet

/-- Add a pattern. -/
def insert (set : PatternSet) (pattern : String) : PatternSet :=
  if set.patterns.contains pattern then set else ⟨set.patterns ++ [pattern]⟩

/-- The set of the patterns of a list. -/
def ofList (patterns : List String) : PatternSet :=
  patterns.foldl insert {}

/-- Does a pattern match the module or a package around it? -/
def matches? (set : PatternSet) (module : String) : Bool :=
  (enclosingNames module).any fun name => set.patterns.any fun p => globMatches p name

end PatternSet
end PackageDoc
