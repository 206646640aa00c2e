import PackageDoc.Proofs.Docstring.Rendering
import PackageDoc.Proofs.Syntax.Lexing
import PackageDoc.Yaml.Value

namespace PackageDoc

/-!
# Reading docstrings that were written down

* `Entry.ofLine?_head` — the line of a name;
* `ParagraphForm.foldl_read` — paragraphs, line after line;
* `EntryReader.addLines_arguments` — arguments, one after the other;
* `Docstring.parse_renderDocstring` — a docstring.
-/

/-! ### Roles -/

namespace Text

/-- A text is split at its first separator. -/
theorem splitOnce?_append {sep : Char} {cs : List Char} (h : sep ∉ cs) (ds : List Char) :
    splitOnce? sep (cs ++ sep :: ds) = some (cs, ds) := by
  induction cs with
  | nil => simp [splitOnce?]
  | cons c cs ih =>
    rw [List.cons_append, splitOnce?, if_neg (Ne.symm (List.ne_of_not_mem_cons h)),
      ih (List.not_mem_of_not_mem_cons h)]
    rfl

/-- It is not split exactly when it has none. -/
theorem splitOnce?_eq_none_iff {sep : Char} {cs : List Char} :
    splitOnce? sep cs = none ↔ sep ∉ cs := by
  induction cs with
  | nil => simp [splitOnce?]
  | cons c cs ih =>
    rw [splitOnce?, List.mem_cons, not_or]
    split
    · rename_i hc
      simp [hc]
    · rename_i hc
      rw [Option.map_eq_none_iff, ih]
      exact (and_iff_right fun h => hc h.symm).symm

/-- A text is cut at the first `sep`. -/
theorem splitOnce?_eq_some_iff {sep : Char} {cs before behind : List Char} :
    splitOnce? sep cs = some (before, behind) ↔ cs = before ++ sep :: behind ∧ sep ∉ before := by
  constructor
  · intro h
    have hmem : sep ∈ cs := by
      by_contra hmem
      rw [splitOnce?_eq_none_iff.mpr hmem] at h
      cases h
    obtain ⟨left, right, rfl, hleft⟩ := List.eq_append_cons_of_mem hmem
    rw [splitOnce?_append hleft] at h
    cases h
    exact ⟨rfl, hleft⟩
  · rintro ⟨rfl, h⟩
    exact splitOnce?_append h behind

/-- Trimming twice is trimming once. -/
theorem trimStart_trimStart (cs : List Char) : trimStart (trimStart cs) = trimStart cs := by
  induction cs with
  | nil => rfl
  | cons c cs ih =>
    cases hc : isSpace c with
    | false => rw [trimStart_cons hc, trimStart_cons hc]
    | true =>
      have hskip : trimStart (c :: cs) = trimStart cs := by
        rw [trimStart, List.dropWhile_cons, if_pos hc, trimStart]
      rw [hskip, ih]

end Text

/-- A role is read behind blanks. -/
theorem takeRole?_trimStart (cs : List Char) : takeRole? (Text.trimStart cs) = takeRole? cs := by
  rw [takeRole?, takeRole?, Text.trimStart_trimStart]

/-- A role begins with its name in braces. -/
theorem RoleForm.trimStart_render (r : RoleForm) (cs : List Char) :
    Text.trimStart (r.render ++ cs) =
      '{' :: (r.name ++ '}' :: '`' :: (r.content ++ '`' :: cs)) := by
  rw [render, List.cons_append, Text.trimStart_blank, List.cons_append, Text.trimStart_cons rfl]
  simp

/-- A rendered role is read back. -/
theorem takeRole?_render (r : RoleForm) (cs : List Char) :
    takeRole? (r.render ++ cs) = some (r.role, cs) := by
  have hname : '}' ∉ r.name := fun hmem => r.isWord.ne hmem (by decide) rfl
  simpa [takeRole?, r.trimStart_render, Text.stripStart?, Text.splitOnce?_append hname,
    Text.splitOnce?_append r.closed, RoleForm.role] using
    And.intro (And.intro r.isWord.filled r.isWord.chars) r.filled

/-- No role is read at a colon. -/
theorem takeRolesUpTo_colon (n : Nat) (cs : List Char) :
    takeRolesUpTo n (':' :: cs) = ([], ':' :: cs) := by
  cases n <;> rfl

/-- Rendered roles are read back in front of a colon. -/
theorem takeRolesUpTo_render {roles : List RoleForm} {n : Nat} (h : roles.length ≤ n)
    (cs : List Char) :
    takeRolesUpTo n (roles.flatMap RoleForm.render ++ ':' :: cs) =
      (roles.map RoleForm.role, ':' :: cs) := by
  induction roles generalizing n with
  | nil => exact takeRolesUpTo_colon n cs
  | cons r roles ih =>
    obtain ⟨n, rfl⟩ : ∃ m, n = m + 1 := ⟨n - 1, by simp at h; omega⟩
    rw [List.flatMap_cons, List.append_assoc, takeRolesUpTo, takeRole?_render]
    dsimp only
    rw [ih (Nat.le_of_succ_le_succ h), List.map_cons]

/-- There are no more roles than characters of them. -/
theorem length_le_flatMap_render (roles : List RoleForm) :
    roles.length ≤ (roles.flatMap RoleForm.render).length := by
  induction roles with
  | nil => exact Nat.le_refl _
  | cons r roles ih =>
    rw [List.flatMap_cons, List.length_append, RoleForm.render, List.length_cons, List.length_cons]
    omega

/-- The roles in front of a colon are read, and nothing else. -/
theorem takeRoles_render (roles : List RoleForm) (cs : List Char) :
    takeRoles (Text.trimStart (roles.flatMap RoleForm.render ++ ':' :: cs)) =
      (roles.map RoleForm.role, ':' :: cs) := by
  have hcolon : Text.trimStart (':' :: cs) = ':' :: cs := Text.trimStart_cons rfl
  cases roles with
  | nil =>
    rw [List.flatMap_nil, List.nil_append, hcolon, takeRoles, takeRolesUpTo_colon]
    exact congrArg _ hcolon
  | cons r roles =>
    -- the text is long enough for a round per role
    obtain ⟨n, hn, hlength⟩ : ∃ n, roles.length ≤ n ∧ (Text.trimStart
        (r.render ++ (roles.flatMap RoleForm.render ++ ':' :: cs))).length = n + 1 := by
      have hroles := length_le_flatMap_render roles
      rw [r.trimStart_render, List.length_cons]
      refine ⟨_, ?_, rfl⟩
      simp only [List.length_append, List.length_cons]
      omega
    rw [List.flatMap_cons, List.append_assoc, takeRoles, hlength, takeRolesUpTo,
      takeRole?_trimStart, takeRole?_render]
    dsimp only
    rw [takeRolesUpTo_render hn, List.map_cons, hcolon]

/-! ### The line of a name -/

/-- Brackets are matched in the same way whatever follows. -/
theorem spanParens_append {depth : Nat} {cs inside rest : List Char}
    (h : spanParens depth cs = some (inside, rest)) (ds : List Char) :
    spanParens depth (cs ++ ds) = some (inside, rest ++ ds) := by
  induction cs generalizing depth inside with
  | nil => cases h
  | cons c cs ih =>
    -- behind a character that does not end the search, at whatever depth
    have hmore : ∀ {d : Nat}, (spanParens d cs).map (fun r => (c :: r.1, r.2)) =
        some (inside, rest) → (spanParens d (cs ++ ds)).map (fun r => (c :: r.1, r.2)) =
          some (inside, rest ++ ds) := by
      intro d hd
      obtain ⟨⟨inside', rest'⟩, hspan, heq⟩ := Option.map_eq_some_iff.mp hd
      cases heq
      rw [ih hspan]
      rfl
    rw [spanParens] at h
    rw [List.cons_append, spanParens]
    dsimp only at h ⊢
    split_ifs at h ⊢ with hopen hclose hdepth hparen
    · exact hmore h
    · cases h
      rfl
    · exact hmore h
    · exact hmore h

/-- What can stand behind an annotation. -/
theorem head_roles (roles : List RoleForm) (cs : List Char) :
    ∃ c ds, Text.trimStart (roles.flatMap RoleForm.render ++ ':' :: cs) = c :: ds ∧ c ≠ '(' := by
  cases roles with
  | nil => exact ⟨':', cs, rfl, by decide⟩
  | cons r roles =>
    rw [List.flatMap_cons, List.append_assoc, r.trimStart_render]
    exact ⟨'{', _, rfl, by decide⟩

/-- The type in the markup of an argument is read back. -/
theorem takeType?_markup (type : Option TypeForm) (roles : List RoleForm) (cs : List Char) :
    takeType? (Text.trimStart ((type.map TypeForm.render).getD [] ++
        (roles.flatMap RoleForm.render ++ ':' :: cs))) =
      some (type.map TypeForm.text,
        Text.trimStart (roles.flatMap RoleForm.render ++ ':' :: cs)) := by
  cases type with
  | none =>
    obtain ⟨c, ds, heq, hc⟩ := head_roles roles cs
    rw [Option.map_none, Option.getD_none, List.nil_append, heq, takeType?]
    · rfl
    · exact fun _ h => hc (List.cons.inj h).1
  | some t =>
    rw [Option.map_some, Option.getD_some, TypeForm.render, List.cons_append, List.cons_append,
      Text.trimStart_blank, Text.trimStart_cons rfl, takeType?, spanParens_append t.closed,
      Option.map_some, t.trimmed]
    rfl

/-- No character that can stand behind a name belongs to a name. -/
theorem isWordChar_of_mem_head? (a : ArgumentForm) (cs : List Char) :
    ∀ c ∈ (a.markup ++ cs).head?, isWordChar c = false := by
  have hmarkup : ∃ d ds, a.markup = d :: ds ∧ (d = ' ' ∨ d = ':') := by
    rw [ArgumentForm.markup]
    cases a.type with
    | some t => exact ⟨' ', _, rfl, .inl rfl⟩
    | none =>
      cases a.roles with
      | nil => exact ⟨':', _, rfl, .inr rfl⟩
      | cons r roles => exact ⟨' ', _, rfl, .inl rfl⟩
  obtain ⟨d, ds, heq, hd⟩ := hmarkup
  intro c hc
  rw [heq] at hc
  obtain rfl : d = c := Option.some.inj hc
  rcases hd with rfl | rfl <;> decide

/-- The name of an argument is read back. -/
theorem takeName?_head (a : ArgumentForm) (cs : List Char) :
    takeName? (a.name ++ (a.markup ++ cs)) = some (a.name, a.markup ++ cs) := by
  have hnumeric : (a.name ++ (a.markup ++ cs)).head?.any Text.isNumeric = false := by
    rw [List.head?_append_of_ne_nil _ a.isWord.filled]
    exact a.initial
  have hfilled : a.name.isEmpty = false := by simpa using a.isWord.filled
  have hspan : (a.name ++ (a.markup ++ cs)).span isWordChar = (a.name, a.markup ++ cs) :=
    Lexeme.span_append a.isWord.chars (isWordChar_of_mem_head? a cs)
  rw [takeName?, hspan, hnumeric, hfilled]
  rfl

/-- So is its name with the stars. -/
theorem takeEntryName?_head (a : ArgumentForm) (cs : List Char) :
    takeEntryName? .args (a.head ++ cs) =
      some (List.replicate a.stars '*' ++ a.name, a.markup ++ cs) := by
  have hstars : ∀ c ∈ List.replicate a.stars '*', (c == '*') = true := fun c hc => by
    rw [List.eq_of_mem_replicate hc]
    rfl
  have hstop : ∀ c ∈ (a.name ++ (a.markup ++ cs)).head?, (c == '*') = false := by
    rw [List.head?_append_of_ne_nil _ a.isWord.filled]
    exact fun c hc => beq_eq_false_iff_ne.mpr (a.isWord.ne (List.mem_of_mem_head? hc) (by decide))
  have hspan : (a.head ++ cs).span (fun c => c == '*') =
      (List.replicate a.stars '*', a.name ++ (a.markup ++ cs)) := by
    rw [ArgumentForm.head, List.append_assoc, List.append_assoc]
    exact Lexeme.span_append hstars hstop
  rw [takeEntryName?, hspan]
  dsimp only
  rw [List.length_replicate, if_neg (Nat.not_lt.mpr a.few), takeName?_head]
  rfl

/-- The line of a name. -/
theorem Entry.ofLine?_head (a : ArgumentForm) (cs : List Char) :
    Entry.ofLine? .args (a.head ++ cs) = some (a.bare, Text.trim cs) := by
  have hmarkup : a.markup ++ cs = (a.type.map TypeForm.render).getD [] ++
      (a.roles.flatMap RoleForm.render ++ ':' :: cs) := by
    simp [ArgumentForm.markup]
  simp [Entry.ofLine?, takeEntryName?_head, hmarkup, takeType?_markup, takeRoles_render,
    Text.stripStart?, ArgumentForm.bare, Option.map_map, Function.comp_def]

/-! ### Paragraphs -/

/-- Two pieces that are joined are as good as one. -/
theorem Text.join_merge (sep first second : List Char) (ls : List (List Char)) :
    join sep ((first ++ sep ++ second) :: ls) = join sep (first :: second :: ls) := by
  cases ls <;> simp [join]

namespace Paragraphs

/-- Read a line that does not begin an entry. -/
def read (p : Paragraphs) (line : List Char) : Paragraphs :=
  if (Text.trim line).isEmpty then p.endParagraph else p.addLine (Text.trim line)

/-- The paragraphs, the last one ended. -/
def all (p : Paragraphs) : List (List Char) :=
  p.endParagraph.complete

theorem read_nil (p : Paragraphs) : p.read [] = ⟨p.all, []⟩ := by
  have hread : p.read [] = p.endParagraph := rfl
  obtain ⟨complete, current⟩ := p
  rw [hread, all, endParagraph]
  split
  · rename_i h
    obtain rfl : current = [] := List.isEmpty_iff.mp h
    rfl
  · rfl

/-- Indented prose is added as a line. -/
theorem read_indented {cs : List Char} (h : IsProse cs) (p : Paragraphs) (width : Nat) :
    p.read (indented width cs) = p.addLine cs := by
  have hfilled : cs.isEmpty = false := by simpa using h.filled
  rw [read, trim_indented h, hfilled, if_neg Bool.false_ne_true]

/-- The first line begins a paragraph. -/
theorem addLine_first {cs : List Char} (h : IsProse cs) (complete : List (List Char)) :
    addLine ⟨complete, []⟩ cs = ⟨complete, cs⟩ := by
  have hfilled : cs.isEmpty = false := by simpa using h.filled
  rw [addLine, hfilled]
  rfl

/-- Further lines are added behind a space. -/
theorem addLine_further {cs current : List Char} (h : IsProse cs) (hcurrent : current ≠ [])
    (complete : List (List Char)) :
    addLine ⟨complete, current⟩ cs = ⟨complete, current ++ ' ' :: cs⟩ := by
  have hfilled : cs.isEmpty = false := by simpa using h.filled
  have hgrown : current.isEmpty = false := by simpa using hcurrent
  rw [addLine, hfilled, if_neg Bool.false_ne_true]
  dsimp only
  rw [hgrown, if_neg Bool.false_ne_true]

/-- A paragraph that has begun is the last of all. -/
theorem all_of_ne_nil {current : List Char} (h : current ≠ []) (complete : List (List Char)) :
    all ⟨complete, current⟩ = complete ++ [current] := by
  have hgrown : current.isEmpty = false := by simpa using h
  rw [all, endParagraph]
  dsimp only
  rw [hgrown, if_neg Bool.false_ne_true]

end Paragraphs

namespace ParagraphForm

variable {width : Nat}

/-- No paragraph is empty. -/
theorem text_ne_nil (p : ParagraphForm) : p.text ≠ [] := by
  rw [text]
  cases p.others with
  | nil => exact p.first.isProse.filled
  | cons l ls =>
    rw [List.map_cons, Text.join_cons (List.cons_ne_nil _ _), List.append_assoc]
    exact List.append_ne_nil_of_left_ne_nil p.first.isProse.filled _

/-- Reading the further lines of a paragraph makes up its text. -/
theorem foldl_read_furtherLines (p : ParagraphForm) (complete : List (List Char)) :
    (p.furtherLines width).foldl Paragraphs.read ⟨complete, p.first.text⟩ =
      ⟨complete, p.text⟩ := by
  have hlines : ∀ (ls : List Prose) (current : List Char), current ≠ [] →
      (ls.map fun l => indented width l.text).foldl Paragraphs.read ⟨complete, current⟩ =
        ⟨complete, Text.join [' '] (current :: ls.map Prose.text)⟩ := by
    intro ls
    induction ls with
    | nil => exact fun _ _ => rfl
    | cons l ls ih =>
      intro current hcurrent
      rw [List.map_cons, List.foldl_cons, Paragraphs.read_indented l.isProse,
        Paragraphs.addLine_further l.isProse hcurrent, ih _ (List.append_ne_nil_of_left_ne_nil
          hcurrent _), List.map_cons, ← Text.join_merge, List.append_assoc, List.singleton_append]
  exact hlines p.others p.first.text p.first.isProse.filled

/-- Paragraphs behind blank lines are read one after the other. -/
theorem foldl_read (ps : List ParagraphForm) (p : Paragraphs) :
    ((ps.flatMap fun q => [] :: q.lines width).foldl Paragraphs.read p).all =
      p.all ++ ps.map ParagraphForm.text := by
  induction ps generalizing p with
  | nil => rw [List.flatMap_nil, List.foldl_nil, List.map_nil, List.append_nil]
  | cons q ps ih =>
    have hlines : (q.lines width).foldl Paragraphs.read ⟨p.all, []⟩ = ⟨p.all, q.text⟩ := by
      rw [lines, List.foldl_cons, Paragraphs.read_indented q.first.isProse,
        Paragraphs.addLine_first q.first.isProse, q.foldl_read_furtherLines]
    rw [List.flatMap_cons, List.foldl_append, List.foldl_cons, Paragraphs.read_nil, hlines, ih,
      Paragraphs.all_of_ne_nil q.text_ne_nil, List.map_cons, List.append_assoc,
      List.singleton_append]

end ParagraphForm

/-- The description that is read below the line of a name. -/
theorem ArgumentForm.text_read (a : ArgumentForm) (width : Nat) :
    ((a.furtherLines width).foldl Paragraphs.read
        (Paragraphs.addLine {} (Text.trim a.opening))).text = a.entry.description := by
  have hall : ((a.furtherLines width).foldl Paragraphs.read
      (Paragraphs.addLine {} (Text.trim a.opening))).all = a.paragraphs.map ParagraphForm.text := by
    unfold furtherLines opening
    split
    · rename_i hnone
      rw [hnone]
      rfl
    · rename_i p ps hparagraphs
      have hopening : Text.trim (' ' :: p.first.text) = p.first.text := p.first.isProse.trimmed
      rw [hopening, Paragraphs.addLine_first p.first.isProse, List.foldl_append,
        p.foldl_read_furtherLines, ParagraphForm.foldl_read,
        Paragraphs.all_of_ne_nil p.text_ne_nil, hparagraphs]
      rfl
  rw [Paragraphs.text, entry, ← hall]
  rfl

/-! ### Arguments -/

namespace EntryReader

variable {kind : SectionKind} {base row : Nat}

/-- Lines are read one after the other. -/
theorem addLines_append (r : EntryReader) (ls ls' : List (List Char)) :
    addLines kind base row r (ls ++ ls') =
      addLines kind base (row + ls.length) (addLines kind base row r ls) ls' := by
  induction ls generalizing r row with
  | nil => rfl
  | cons l ls ih =>
    rw [List.cons_append, addLines, addLines, ih, List.length_cons, Nat.add_right_comm,
      Nat.add_assoc]

/-- Lines that are blank or indented more than the entries belong to the last entry. -/
theorem addLines_deeper {ls : List (List Char)}
    (h : ∀ l ∈ ls, l = [] ∨ base < indentWidth l) (entry : Entry) (p : Paragraphs)
    (entries : List (Entry × Paragraphs)) (text : Paragraphs) (issues : List DocstringIssue) :
    addLines kind base row ⟨text, (entry, p) :: entries, issues⟩ ls =
      ⟨text, (entry, ls.foldl Paragraphs.read p) :: entries, issues⟩ := by
  induction ls generalizing p row with
  | nil => rfl
  | cons l ls ih =>
    obtain ⟨hl, hls⟩ := List.forall_mem_cons.mp h
    have hline : addLine kind base row ⟨text, (entry, p) :: entries, issues⟩ l =
        ⟨text, (entry, p.read l) :: entries, issues⟩ := by
      rw [addLine, Paragraphs.read]
      dsimp only
      split
      · rfl
      · rename_i hfilled
        obtain rfl | hdeeper := hl
        · exact absurd rfl hfilled
        · rw [if_pos hdeeper]
          rfl
    rw [addLines, hline, ih hls, List.foldl_cons]

end EntryReader

variable {indent deeper : Nat}

/-- The further lines of an argument stand deeper than its first. -/
theorem ArgumentForm.furtherLines_deeper (h : indent < deeper) (a : ArgumentForm) :
    ∀ l ∈ a.furtherLines deeper, l = [] ∨ indent < indentWidth l := by
  have hfurther : ∀ (p : ParagraphForm), ∀ l ∈ p.lines deeper, indent < indentWidth l := by
    intro p l hl
    rcases List.mem_cons.mp hl with rfl | hl
    · rwa [indentWidth_indented p.first.isProse]
    · obtain ⟨prose, -, rfl⟩ := List.mem_map.mp hl
      rwa [indentWidth_indented prose.isProse]
  intro l hl
  unfold furtherLines at hl
  split at hl
  · exact absurd hl List.not_mem_nil
  · rename_i p ps _
    rcases List.mem_append.mp hl with hl | hl
    · exact .inr (hfurther p l (List.mem_cons_of_mem _ hl))
    · obtain ⟨q, -, hl⟩ := List.mem_flatMap.mp hl
      exact (List.mem_cons.mp hl).imp_right (hfurther q l)

namespace EntryReader

/-- The lines of an argument give one entry more. -/
theorem addLines_argument (h : indent < deeper) (a : ArgumentForm) (row : Nat)
    (entries : List (Entry × Paragraphs)) :
    ∃ p, p.text = a.entry.description ∧
      addLines .args indent row ⟨{}, entries, []⟩ (a.lines indent deeper) =
        ⟨{}, (a.bare, p) :: entries, []⟩ := by
  have hprose : IsProse (a.head ++ a.opening) := a.isProse_firstLine
  have hfilled : (a.head ++ a.opening).isEmpty = false := by simpa using hprose.filled
  have hname : addLine .args indent row ⟨{}, entries, []⟩
      (indented indent (a.head ++ a.opening)) =
        ⟨{}, (a.bare, Paragraphs.addLine {} (Text.trim a.opening)) :: entries, []⟩ := by
    rw [addLine, trim_indented hprose, indentWidth_indented hprose, Entry.ofLine?_head]
    dsimp only
    rw [hfilled, if_neg Bool.false_ne_true, if_neg (Nat.lt_irrefl _)]
  refine ⟨_, a.text_read deeper, ?_⟩
  rw [ArgumentForm.lines, addLines, hname, addLines_deeper (a.furtherLines_deeper h)]

/-- Arguments are read one after the other. -/
theorem addLines_arguments (h : indent < deeper) (arguments : List ArgumentForm) (row : Nat)
    (entries : List (Entry × Paragraphs)) :
    ∃ more : List (Entry × Paragraphs),
      more.reverse.map (fun e => { e.1 with description := e.2.text }) =
          arguments.map ArgumentForm.entry ∧
        addLines .args indent row ⟨{}, entries, []⟩
            (arguments.flatMap (ArgumentForm.lines indent deeper)) =
          ⟨{}, more ++ entries, []⟩ := by
  induction arguments generalizing row entries with
  | nil => exact ⟨[], rfl, rfl⟩
  | cons a arguments ih =>
    obtain ⟨p, hp, hargument⟩ := addLines_argument h a row entries
    obtain ⟨more, hmore, harguments⟩ :=
      ih (row + (a.lines indent deeper).length) ((a.bare, p) :: entries)
    -- entries are stacked, the last one first
    refine ⟨more ++ [(a.bare, p)], ?_, ?_⟩
    · rw [List.reverse_append, List.map_append, hmore, List.map_cons]
      simp [hp, ArgumentForm.entry]
    · rw [List.flatMap_cons, addLines_append, hargument, harguments, List.append_assoc,
        List.singleton_append]

end EntryReader

/-! ### Docstrings -/

/-- Blank and indented lines below a heading belong to it. -/
theorem DocBlock.gather_headed {heading : Heading} (hkind : heading.kind.isInline = false)
    {ls : List (List Char)} (hls : ∀ l ∈ ls, l = [] ∨ 0 < indentWidth l) (row next : Nat)
    (body : List (List Char)) :
    gather (.headed heading row body) next ls = [.headed heading row (body ++ ls)] := by
  induction ls generalizing next body with
  | nil => rw [gather, List.append_nil]
  | cons l ls ih =>
    obtain ⟨hl, hls⟩ := List.forall_mem_cons.mp hls
    have htakes : (DocBlock.headed heading row body).takes l = true := by
      rw [takes, hkind]
      rcases hl with rfl | hl
      · rfl
      · simp [hl]
    rw [gather, if_pos htakes, add, ih hls, List.append_assoc, List.singleton_append]

/-- The base of rendered arguments is where they are indented to. -/
theorem baseIndent_arguments (h : indent ≤ deeper) {arguments : List ArgumentForm}
    (hne : arguments ≠ []) :
    baseIndent (arguments.flatMap (ArgumentForm.lines indent deeper)) = indent := by
  cases arguments with
  | nil => exact absurd rfl hne
  | cons a arguments =>
    have hlines : ∀ l ∈ (a :: arguments).flatMap (ArgumentForm.lines indent deeper),
        l = [] ∨ ∃ width cs, IsProse cs ∧ indent ≤ width ∧ l = indented width cs :=
      ArgumentForm.eq_nil_or_indented h
    exact baseIndent_indented a.isProse_firstLine fun l hl => hlines l (List.mem_cons_of_mem _ hl)

/-- The arguments below their heading are one section. -/
theorem DocBlock.sections_arguments [YamlReader] (h : indent < deeper) (arguments : List ArgumentForm)
    (kind : DocstringKind) (isLast : Bool) (row : Nat) :
    (DocBlock.headed ⟨.args, "Args", none, ""⟩ row
        (arguments.flatMap (ArgumentForm.lines indent deeper))).sections kind isLast =
      ([⟨.args, "Args", none, .entries (arguments.map ArgumentForm.entry) ""⟩], []) := by
  have hread : ∃ entries : List (Entry × Paragraphs),
      entries.reverse.map (fun e => { e.1 with description := e.2.text }) =
          arguments.map ArgumentForm.entry ∧
        EntryReader.addLines .args
            (baseIndent (arguments.flatMap (ArgumentForm.lines indent deeper))) (row + 1) {}
            (arguments.flatMap (ArgumentForm.lines indent deeper)) =
          ⟨{}, entries, []⟩ := by
    -- without arguments there is no indentation to measure, and no line to read
    by_cases hne : arguments = []
    · subst hne
      exact ⟨[], rfl, rfl⟩
    · rw [baseIndent_arguments (Nat.le_of_lt h) hne]
      obtain ⟨entries, hentries, hlines⟩ :=
        EntryReader.addLines_arguments h arguments (row + 1) []
      exact ⟨entries, hentries, by rw [hlines, List.append_nil]⟩
  obtain ⟨entries, hentries, hlines⟩ := hread
  rw [sections]
  dsimp only
  rw [hlines, EntryReader.body, hentries]
  rfl

/-- A description of one line, that does not begin with a role. -/
theorem takeRoles_of_none {cs : List Char} (hcs : IsProse cs) (h : takeRole? cs = none) :
    takeRoles cs = ([], cs) := by
  cases cs with
  | nil => exact absurd rfl hcs.filled
  | cons c cs =>
    rw [takeRoles, List.length_cons, takeRolesUpTo, h]
    exact congrArg _ hcs.trimStart

/-- A description of one line is that line. -/
theorem Docstring.withDescription_line {cs : List Char} (hcs : IsProse cs) (doc : Docstring) :
    doc.withDescription .function [cs, []] =
      { doc with type := none, description := String.ofList cs, longDescription := "" } := by
  have hfilled : Text.isBlank cs = false := isBlank_indented hcs 0
  have hskip : [cs, []].dropWhile Text.isBlank = [cs, []] := by
    rw [List.dropWhile_cons, hfilled, if_neg Bool.false_ne_true]
  have hspan : [cs, []].span (fun l => !Text.isBlank l) = ([cs], [[]]) :=
    @Lexeme.span_append _ _ [cs] [[]] (by simpa using hfilled) (by simp [Text.isBlank])
  rw [withDescription, hskip]
  dsimp only
  rw [if_neg (by decide)]
  dsimp only [Option.map_none, Option.getD_none]
  rw [hspan, List.map_singleton, hcs.trimmed]
  rfl

/-- The heading of the arguments is read as one. -/
theorem Heading.ofLine?_args : ofLine? "Args:".toList = some ⟨.args, "Args", none, ""⟩ := by
  decide

/-- The lines above the first section are those of the description. -/
theorem span_belowDescription {cs : List Char} (h : Heading.ofLine? cs = none)
    (arguments : List ArgumentForm) :
    (cs :: belowDescription 0 indent deeper arguments).span (fun l => (Heading.ofLine? l).isNone) =
      ([cs, []], "Args:".toList :: arguments.flatMap (ArgumentForm.lines indent deeper)) := by
  have hbelow : cs :: belowDescription 0 indent deeper arguments =
      [cs, []] ++ "Args:".toList :: arguments.flatMap (ArgumentForm.lines indent deeper) := by
    rw [belowDescription, Nat.zero_add, Nat.zero_add]
    rfl
  have hbefore : ∀ l ∈ [cs, []], (Heading.ofLine? l).isNone = true :=
    List.forall_mem_cons.mpr ⟨by rw [h]; rfl, List.forall_mem_singleton.mpr rfl⟩
  rw [hbelow]
  refine Lexeme.span_append hbefore fun l hl => ?_
  obtain rfl : "Args:".toList = l := Option.some.inj hl
  rw [Heading.ofLine?_args]
  rfl

/-- The arguments are the block that their heading begins. -/
theorem DocBlock.gather_arguments (hindent : 0 < indent) (hdeeper : indent ≤ deeper) (row next : Nat)
    (arguments : List ArgumentForm) :
    gather (begin row "Args:".toList) next
        (arguments.flatMap (ArgumentForm.lines indent deeper)) =
      [.headed ⟨.args, "Args", none, ""⟩ row
        (arguments.flatMap (ArgumentForm.lines indent deeper))] := by
  have hbegin : begin row "Args:".toList = .headed ⟨.args, "Args", none, ""⟩ row [] := by
    rw [begin, Heading.ofLine?_args]
  have hindented : ∀ l ∈ arguments.flatMap (ArgumentForm.lines indent deeper),
      l = [] ∨ 0 < indentWidth l := fun l hl => by
    obtain rfl | ⟨width, cs, hcs, hwidth, rfl⟩ := ArgumentForm.eq_nil_or_indented hdeeper l hl
    · exact .inl rfl
    · right
      rw [indentWidth_indented hcs]
      omega
  rw [hbegin, gather_headed rfl hindented, List.nil_append]

/-- **What is written is read.**  A docstring of a description and arguments, written behind any
    margin, gives the description and one section with the entries of the arguments, and nothing
    in it is reported. -/
theorem Docstring.parse_renderDocstring [YamlReader] (description : Prose)
    (hrole : takeRole? description.text = none) (hheading : Heading.ofLine? description.text = none)
    (arguments : List ArgumentForm) (margin : Nat) {indent deeper : Nat} (hindent : 0 < indent)
    (hdeeper : indent < deeper) :
    Docstring.parse (renderDocstring margin indent deeper description arguments) .function =
      { description := String.ofList description.text
        sections := [⟨.args, "Args", none, .entries (arguments.map ArgumentForm.entry) ""⟩] } := by
  have hlines : Text.lines
      (cleanDoc (renderDocstring margin indent deeper description arguments)).toList =
        description.text :: belowDescription 0 indent deeper arguments :=
    lines_cleanDoc_renderDocstring (Nat.le_of_lt hdeeper) description arguments
  rw [parse, hlines, ofLines, takeRoles_of_none description.isProse hrole]
  dsimp only
  rw [span_belowDescription hheading]
  dsimp only
  rw [DocBlock.gather_arguments hindent (Nat.le_of_lt hdeeper),
    withDescription_line description.isProse, DocBlock.allSections,
    DocBlock.sections_arguments hdeeper]
  rfl

/-- A description that is nearly a heading. -/
def nearHeading : Prose :=
  ⟨"Args: \x7bx\x7d of `f`:".toList, by decide⟩

/-- Arguments with brackets in their types, colons in their roles, and headings, names and roles in
    their descriptions. -/
def nearArguments : List ArgumentForm :=
  [{ stars := 0
     name := "größe_2".toList
     type := some ⟨"dict[str, (int)]".toList, by decide, by decide, by decide⟩
     roles := [⟨"py".toList, "a: (b".toList, by decide +kernel, by decide, by decide, by decide⟩,
       ⟨"类".toList, " c ".toList, by decide +kernel, by decide, by decide, by decide⟩]
     paragraphs :=
       [⟨⟨"\x7br\x7d`s` one: two".toList, by decide⟩, [⟨"Returns:".toList, by decide⟩]⟩,
        ⟨⟨"Args:".toList, by decide⟩, [⟨"x (int): y".toList, by decide⟩]⟩]
     few := by decide
     isWord := by decide +kernel
     initial := by decide +kernel },
   { stars := 2
     name := "_".toList
     type := some ⟨[], by decide, by decide, by decide⟩
     roles := []
     paragraphs := []
     few := by decide
     isWord := by decide +kernel
     initial := by decide +kernel }]

/-- What is nearly a heading, and arguments that hold the marks of others, are read back. -/
theorem Docstring.parse_renderDocstring_near :
    takeRole? nearHeading.text = none ∧ Heading.ofLine? nearHeading.text = none ∧ 0 < 4 ∧ 4 < 6 ∧
      Docstring.parse (renderDocstring 8 4 6 nearHeading nearArguments) .function =
        { description := "Args: \x7bx\x7d of `f`:"
          sections := [⟨.args, "Args", none, .entries
            [⟨"größe_2", some "dict[str, (int)]", [⟨"py", "a: (b"⟩, ⟨"类", " c "⟩],
                "\x7br\x7d`s` one: two Returns:\n\nArgs: x (int): y"⟩,
              ⟨"**_", some "", [], ""⟩] ""⟩] } := by
  have hrole : takeRole? nearHeading.text = none := by decide
  have hheading : Heading.ofLine? nearHeading.text = none := by decide
  refine ⟨hrole, hheading, by decide, by decide, ?_⟩
  have hparse := Docstring.parse_renderDocstring nearHeading hrole hheading nearArguments 8
    (show 0 < 4 by decide) (show 4 < 6 by decide)
  exact hparse

end PackageDoc
