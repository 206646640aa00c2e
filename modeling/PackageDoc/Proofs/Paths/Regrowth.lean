import PackageDoc.Proofs.Paths.Rounds
import Mathlib.Data.Set.Finite.Lattice
import Mathlib.Data.Set.Finite.List
import Mathlib.Order.Preorder.Finite
import Mathlib.Order.WellFounded

namespace PackageDoc.Analysis

/-!
# Paths without end

A round may put in more names than it uses up, so a path can grow.  It is followed for ever exactly
when some rounds turn a beginning `top` of it into itself with further names behind it, while
nothing of what stands behind `top` is used up, and the names that now stand behind `top` are, to
the rounds, like those that stood there before: `Regrows`.

* `Above a behind` — rounds that leave the names `behind` alone;
* `Alike a y y'` — two lists of names that begin with the same ends of names of modules, so that
  rounds above them are the same (`Above.of_alike`);
* `not_acc_of_regrows` — what has grown back grows back again;
* `regrows_of_not_acc` — a path that is followed for ever has beginnings below which nothing is
  used up any more; there are only finitely many names to put in, and only finitely many ways in
  which lists of names can differ to the rounds, so one such beginning grows back.
-/

variable {a : Analysis} {path top top' behind behind' : List String}

/-! ### Rounds above names that are left alone -/

/-- A round that leaves `behind` alone puts `top'` in place of `top`. -/
def Above (a : Analysis) (behind top' top : List String) : Prop :=
  ∃ used put mid, top = used ++ mid ∧ top' = put ++ mid ∧ a.Round used put (mid ++ behind)

/-- A round may be made whatever it leaves alone. -/
theorem Above.follows (h : a.Above behind top' top) :
    a.Follows (top' ++ behind) (top ++ behind) := by
  obtain ⟨used, put, mid, rfl, rfl, hround⟩ := h
  rw [follows_iff_round]
  exact ⟨used, put, mid ++ behind, by simp, by simp, hround⟩

/-- A beginning of the names `y` spells the text `e`. -/
def Spells (y : List String) (e : String) : Prop :=
  ∃ v, v ≠ [] ∧ v <+: y ∧ dotted v = e

/-- Two lists of names begin with the same ends of names of modules. -/
def Alike (a : Analysis) (y y' : List String) : Prop :=
  ∀ start e, a.isRegistered (start ++ "." ++ e) = true → (Spells y e ↔ Spells y' e)

theorem Alike.symm {y y' : List String} (h : a.Alike y y') : a.Alike y' y :=
  fun start e hreg => (h start e hreg).symm

/-- If a list of names behind `before` names no module, neither does a list like it. -/
theorem NamesNone.of_alike {before y y' : List String} (h : a.NamesNone before y)
    (hbefore : before ≠ []) (halike : a.Alike y y') : a.NamesNone before y' := by
  intro more hne hprefix
  by_contra hreg
  rw [Bool.not_eq_false, dotted_append hbefore hne] at hreg
  obtain ⟨v, hv, hvprefix, hspell⟩ := (halike _ _ hreg).mpr ⟨more, hne, hprefix, rfl⟩
  have hnone := h v hv hvprefix
  rw [dotted_append hbefore hv, hspell, hreg] at hnone
  exact absurd hnone (by simp)

/-- Lists that are alike stay alike behind the same names. -/
theorem Alike.append {y y' : List String} (h : a.Alike y y') (u : List String) :
    a.Alike (u ++ y) (u ++ y') := by
  by_cases hu : u = []
  · subst hu
    exact h
  have key : ∀ {z z' : List String}, a.Alike z z' → ∀ start e,
      a.isRegistered (start ++ "." ++ e) = true → Spells (u ++ z) e → Spells (u ++ z') e := by
    rintro z z' hz start e hreg ⟨v, hv, hprefix, rfl⟩
    -- the beginning lies within `u`, or it takes in all of `u` and a beginning of `z`
    rcases List.prefix_or_prefix_of_prefix hprefix (List.prefix_append u z) with hin | ⟨w, rfl⟩
    · exact ⟨v, hv, hin.trans (List.prefix_append u z'), rfl⟩
    · have hw : w <+: z := (List.prefix_append_right_inj u).mp hprefix
      by_cases hwne : w = []
      · subst hwne
        exact ⟨u, hu, List.prefix_append u z', by simp⟩
      · rw [dotted_append hu hwne, ← String.append_assoc, ← String.append_assoc] at hreg
        obtain ⟨w', hw', hprefix', hspell⟩ := (hz _ _ hreg).mp ⟨w, hwne, hw, rfl⟩
        refine ⟨u ++ w', by simp [hu], (List.prefix_append_right_inj u).mpr hprefix', ?_⟩
        rw [dotted_append hu hw', dotted_append hu hwne, hspell]
  exact fun start e hreg => ⟨key h start e hreg, key h.symm start e hreg⟩

/-- Rounds do not distinguish lists that are alike. -/
theorem Above.of_alike (h : a.Above behind top' top) (halike : a.Alike behind behind')
    (hne : behind' ≠ []) : a.Above behind' top' top := by
  obtain ⟨used, put, mid, rfl, rfl, names, head, rfl, hnames, hreg, hnone, -, hput⟩ := h
  refine ⟨names ++ [head], put, mid, rfl, rfl, names, head, rfl, hnames, hreg, ?_, by simp [hne],
    hput⟩
  exact hnone.of_alike hnames (halike.append (head :: mid))

/-! ### Growing back -/

/-- Following the path, a beginning `top` comes to be put in which some rounds, leaving alone what
    stands behind it, put in again with names `more` behind it that make no difference. -/
def Regrows (a : Analysis) (path : List String) : Prop :=
  ∃ top behind more, Relation.ReflTransGen a.Follows (top ++ behind) path ∧ behind ≠ [] ∧
    Relation.TransGen (a.Above behind) (top ++ more) top ∧ a.Alike behind (more ++ behind)

/-- What has grown back grows back again, so following never ends. -/
theorem not_acc_of_regrows (h : a.Regrows path) : ¬ Acc a.Follows path := by
  obtain ⟨top, behind, more, hreach, hne, hgrow, halike⟩ := h
  intro hacc
  have hacc' : Acc a.Follows (top ++ behind) := by
    induction hreach with
    | refl => exact hacc
    | tail _ hstep ih => exact ih (hacc.inv hstep)
  clear hreach hacc
  -- each round leaves more behind the path it began with, and can be done again on it
  generalize hx : top ++ behind = x at hacc'
  induction hacc'.transGen generalizing behind with
  | intro x _ ih =>
    subst hx
    have hstep : Relation.TransGen a.Follows (top ++ (more ++ behind)) (top ++ behind) := by
      rw [← List.append_assoc]
      exact Relation.TransGen.lift (· ++ behind) (fun _ _ h => Above.follows h) _ _ hgrow
    have hne' : more ++ behind ≠ [] := by simp [hne]
    have hgrow' : Relation.TransGen (a.Above (more ++ behind)) (top ++ more) top :=
      Relation.TransGen.mono (fun _ _ h => Above.of_alike h halike hne') _ _ hgrow
    exact ih _ hstep (more ++ behind) hne' hgrow' (halike.append more) rfl
      (hacc'.inv_of_transGen hstep)

/-! ### Finitely many names to put in, finitely many differences -/

/-- All that rounds can put in: what imports name, and modules. -/
def putLists (a : Analysis) : List (List String) :=
  (a.registeredNames.flatMap fun module =>
    (a.importsOf module).map fun e => segments e.2.module ++ [e.2.name]) ++
  a.registeredNames.map segments

/-- What a round puts in is among all that rounds can put in. -/
theorem Round.mem_putLists {used put rest : List String} (h : a.Round used put rest) :
    put ∈ a.putLists := by
  obtain ⟨names, head, -, -, hreg, -, -, hput⟩ := h
  have horigin := a.comesFrom_originOf (dotted names, head)
  dsimp only at horigin
  cases ho : a.originOf (dotted names) head with
  | definition owner name => simp [ho, Origin.puts?] at hput
  | unresolved owner name reason => simp [ho, Origin.puts?] at hput
  | library owner name =>
    obtain rfl : segments owner ++ [name] = put := by simpa [ho, Origin.puts?] using hput
    rw [ho] at horigin
    -- the walk has left the module in which it began, so an import names its end
    rcases Relation.ReflTransGen.cases_tail horigin.1 with heq | ⟨site, _, himp⟩
    · obtain ⟨rfl, rfl⟩ : owner = dotted names ∧ name = head := by simpa using heq
      rw [horigin.2.1] at hreg
      exact absurd hreg (by simp)
    · obtain ⟨hmodule, e, he, -, htarget⟩ := himp.exists_import
      obtain ⟨rfl, rfl⟩ : owner = e.2.module ∧ name = e.2.name := by simpa using htarget
      exact List.mem_append_left _
        (List.mem_flatMap.mpr ⟨site.1, hmodule, List.mem_map.mpr ⟨e, he, rfl⟩⟩)
  | module owner =>
    obtain rfl : segments owner = put := by simpa [ho, Origin.puts?] using hput
    rw [ho] at horigin
    obtain ⟨d, x, rfl, hsub, -⟩ := horigin
    exact List.mem_append_right _
      (List.mem_map_of_mem (isRegistered_iff_mem_registeredNames.mp hsub))

/-- The ends of the names of all modules. -/
def nameEnds (a : Analysis) : List String :=
  a.registeredNames.flatMap fun name => name.toList.tails.map String.ofList

/-- The end of a registered name is among the ends of names. -/
theorem mem_nameEnds {start e : String} (h : a.isRegistered (start ++ "." ++ e) = true) :
    e ∈ a.nameEnds := by
  refine List.mem_flatMap.mpr ⟨_, isRegistered_iff_mem_registeredNames.mp h,
    List.mem_map.mpr ⟨e.toList, ?_, String.ofList_toList⟩⟩
  rw [List.mem_tails]
  exact ⟨start.toList ++ ['.'], by simp⟩

/-- All that rounds can see of a list of names that they leave alone. -/
def outlook (a : Analysis) (y : List String) : Set String :=
  {e | e ∈ a.nameEnds ∧ Spells y e}

/-- Lists of names with one outlook begin alike. -/
theorem alike_of_outlook_eq {y y' : List String} (h : a.outlook y = a.outlook y') :
    a.Alike y y' := by
  intro start e hreg
  have hmem := mem_nameEnds hreg
  have hiff : e ∈ a.outlook y ↔ e ∈ a.outlook y' := by rw [h]
  simpa [outlook, hmem] using hiff

/-! ### Endless runs -/

/-- Rounds without end, one after the other, that begin with `path`. -/
structure EndlessRun (a : Analysis) (path : List String) where
  used : ℕ → List String
  put : ℕ → List String
  rest : ℕ → List String
  start : used 0 ++ rest 0 = path
  round : ∀ n, a.Round (used n) (put n) (rest n)
  next : ∀ n, used (n + 1) ++ rest (n + 1) = put n ++ rest n

/-- A path whose rounds do not all come to an end has an endless run. -/
theorem exists_endlessRun (h : ¬ Acc a.Follows path) : Nonempty (a.EndlessRun path) := by
  obtain ⟨f, hstart, hf⟩ := not_acc_iff_exists_descending_chain.mp h
  choose used put rest hpath hnext hround using fun n => (follows_iff_round a _ _).mp (hf n)
  exact ⟨⟨used, put, rest, by rw [← hpath, hstart], hround, fun n => by rw [← hpath, hnext]⟩⟩

namespace EndlessRun

variable (run : a.EndlessRun path)

/-- Every round of a run comes from its first path. -/
theorem reaches (n : ℕ) :
    Relation.ReflTransGen a.Follows (run.put n ++ run.rest n) path := by
  have hstep : ∀ n, a.Follows (run.put n ++ run.rest n) (run.used n ++ run.rest n) := fun n =>
    (follows_iff_round a _ _).mpr ⟨_, _, _, rfl, rfl, run.round n⟩
  induction n with
  | zero => exact .single (by simpa [run.start] using hstep 0)
  | succ n ih => exact .head (by simpa [run.next n] using hstep (n + 1)) ih

/-- After the round `n` nothing is used up of what stood behind it. -/
def IsLow (n : ℕ) : Prop :=
  ∀ m, n ≤ m → (run.rest n).length ≤ (run.rest m).length

/-- Behind every round of an endless run there is a low one. -/
theorem exists_isLow (n : ℕ) : ∃ m, n < m ∧ run.IsLow m := by
  -- of the rounds after `n`, one with the fewest names behind it
  let lengths := fun k => (run.rest (n + 1 + k)).length
  refine ⟨n + 1 + Function.argmin lengths, by omega, fun m hm => ?_⟩
  have hmin := Function.argmin_le lengths (m - (n + 1))
  have hm' : n + 1 + (m - (n + 1)) = m := by omega
  simpa [lengths, hm'] using hmin

/-- The round after one that left alone what stands behind a low round leaves it alone too. -/
theorem IsLow.step {run : a.EndlessRun path} {n k : ℕ} {mid : List String} (h : run.IsLow n)
    (hmid : run.rest (n + k) = mid ++ run.rest n) :
    ∃ mid', run.rest (n + k + 1) = mid' ++ run.rest n ∧
      a.Above (run.rest n) (run.put (n + k + 1) ++ mid') (run.put (n + k) ++ mid) := by
  have hnext := run.next (n + k)
  rw [hmid, ← List.append_assoc] at hnext
  -- two endings of one path, the shorter of which is what stands behind the low round
  obtain ⟨mid', hmid'⟩ : run.rest n <:+ run.rest (n + k + 1) :=
    List.suffix_of_suffix_length_le ⟨_, rfl⟩ ⟨_, hnext⟩ (h _ (by omega))
  rw [← hmid', ← List.append_assoc] at hnext
  have htop : run.put (n + k) ++ mid = run.used (n + k + 1) ++ mid' :=
    (List.append_cancel_right hnext).symm
  refine ⟨mid', hmid'.symm, _, _, mid', htop, rfl, ?_⟩
  rw [hmid']
  exact run.round (n + k + 1)

/-- From a low round on, all rounds leave alone what stands behind it. -/
theorem IsLow.above {run : a.EndlessRun path} {n : ℕ} (h : run.IsLow n) (k : ℕ) :
    ∃ mid, run.rest (n + k + 1) = mid ++ run.rest n ∧
      Relation.TransGen (a.Above (run.rest n)) (run.put (n + k + 1) ++ mid) (run.put n) := by
  induction k with
  | zero =>
    obtain ⟨mid, hmid, hstep⟩ := h.step (k := 0) (List.nil_append _).symm
    rw [List.append_nil] at hstep
    exact ⟨mid, hmid, .single hstep⟩
  | succ k ih =>
    obtain ⟨mid, hmid, hreach⟩ := ih
    obtain ⟨mid', hmid', hstep⟩ := h.step (k := k + 1) hmid
    exact ⟨mid', hmid', .head hstep hreach⟩

end EndlessRun

/-- In a path that is followed for ever, something grows back. -/
theorem regrows_of_not_acc (h : ¬ Acc a.Follows path) : a.Regrows path := by
  obtain ⟨run⟩ := exists_endlessRun h
  have hlow : {n | run.IsLow n}.Infinite :=
    Set.infinite_of_forall_exists_gt fun n => by
      obtain ⟨m, hnm, hm⟩ := run.exists_isLow n
      exact ⟨m, hm, hnm⟩
  -- the low places are endless, but what is put in at them and what is seen from them is not
  have hfinite : ({put | put ∈ a.putLists} ×ˢ {ends | ends ⊆ {e | e ∈ a.nameEnds}}).Finite :=
    (List.finite_toSet _).prod (List.finite_toSet _).finite_subsets
  have hmaps : Set.MapsTo (fun n => (run.put n, a.outlook (run.rest n))) {n | run.IsLow n}
      ({put | put ∈ a.putLists} ×ˢ {ends | ends ⊆ {e | e ∈ a.nameEnds}}) :=
    fun n _ => ⟨(run.round n).mem_putLists, fun e he => he.1⟩
  obtain ⟨n, hn, m, hm, hne, heq⟩ := hlow.exists_ne_map_eq_of_mapsTo hmaps hfinite
  wlog hlt : n < m generalizing n m
  · exact this m hm n hn hne.symm heq.symm (by omega)
  obtain ⟨hput, houtlook⟩ := Prod.mk.inj heq
  obtain ⟨k, rfl⟩ := Nat.exists_eq_add_of_lt hlt
  obtain ⟨more, hmore, hgrow⟩ := hn.above k
  rw [← hput] at hgrow
  obtain ⟨_, _, _, _, _, _, hrest, _⟩ := run.round n
  refine ⟨run.put n, run.rest n, more, run.reaches n, hrest, hgrow, ?_⟩
  rw [← hmore]
  exact alike_of_outlook_eq houtlook

/-- **Endless paths.**  Following a path is well founded if and only if nothing grows back. -/
theorem acc_follows_iff_not_regrows (a : Analysis) (path : List String) :
    Acc a.Follows path ↔ ¬ a.Regrows path :=
  ⟨fun hacc hgrow => not_acc_of_regrows hgrow hacc,
    fun hgrow => by_contra fun hacc => hgrow (regrows_of_not_acc hacc)⟩

end PackageDoc.Analysis
