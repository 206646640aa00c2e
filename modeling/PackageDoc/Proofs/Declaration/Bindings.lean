import Mathlib.Data.List.Nodup
import PackageDoc.Declaration.Assoc

namespace PackageDoc

/-!
# Tables that are filled step by step

A table keeps each key where it was first bound.  When every step binds one key, by a rule that may
look at what the key was bound to, the order of the keys is that of their first steps, and what
happens to a key depends on the steps for it alone.

* `foldl_concat_new` — what is collected without repetition;
* `Assoc.get?_bind`, `Assoc.keys_bind` — the values and the keys after a key was bound;
* `Assoc.get?_eq_some_iff_mem` — a table with distinct keys is looked up as it is listed;
* `Assoc.ext_of_nodup` — such a table is known by its keys and their values;
* `Roster.get?_eq_some_iff_mem` — a roster is always looked up as it is listed;
* `Roster.change` — a step that binds one name anew;
* `Roster.change_change`, `Roster.change_comm` — steps for one name, and for two;
* `Roster.names_foldl_change`, `Roster.get?_foldl_change` — the names and the values after many
  steps.
-/

/-- What is collected behind `acc` are the first occurrences of what is not in `acc`. -/
theorem foldl_concat_new {α : Type} [DecidableEq α] (acc xs : List α) :
    xs.foldl (fun acc x => if x ∈ acc then acc else acc ++ [x]) acc =
      acc ++ (xs.filter (· ∉ acc)).eraseDups := by
  induction xs generalizing acc with
  | nil => simp
  | cons x xs ih =>
    rw [List.foldl_cons, ih]
    by_cases hx : x ∈ acc
    · rw [if_pos hx, List.filter_cons_of_neg (by simpa using hx)]
    · have hfilter : xs.filter (· ∉ acc ++ [x]) = (xs.filter (· ∉ acc)).filter (!· == x) := by
        rw [List.filter_filter]
        refine List.filter_congr fun y _ => ?_
        by_cases hy : y = x <;> simp [hy]
      rw [if_neg hx, List.filter_cons_of_pos (by simpa using hx), List.eraseDups_cons, hfilter]
      simp

namespace Assoc

variable {κ α : Type} [DecidableEq κ] {entries : List (κ × α)} {key other : κ} {value : α}

/-- A name is found exactly when it is a key. -/
theorem isSome_get?_iff : (get? entries key).isSome = true ↔ key ∈ keys entries := by
  rw [get?, Option.isSome_map, List.find?_isSome, keys, List.mem_map]
  exact exists_congr fun e => and_congr_right fun _ => decide_eq_true_iff

/-- Every value of a table stands in an entry of it. -/
theorem mem_of_get?_eq_some (h : get? entries key = some value) : (key, value) ∈ entries := by
  obtain ⟨e, he, rfl⟩ := Option.map_eq_some_iff.mp h
  have hkey : e.1 = key := by simpa using List.find?_some he
  rw [← hkey]
  exact List.mem_of_find?_eq_some he

/-- A table with distinct keys is looked up as it is listed. -/
theorem get?_eq_some_iff_mem (h : (keys entries).Nodup) :
    get? entries key = some value ↔ (key, value) ∈ entries := by
  refine ⟨mem_of_get?_eq_some, fun hmem => ?_⟩
  obtain ⟨found, hfound⟩ := Option.isSome_iff_exists.mp
    (isSome_get?_iff.mpr (List.mem_map_of_mem (f := Prod.fst) hmem))
  have heq := List.inj_on_of_nodup_map h (mem_of_get?_eq_some hfound) hmem rfl
  rw [hfound, (Prod.mk.inj heq).2]

/-- Two tables with distinct keys are equal when they have the same keys, in one order, with the same
    values. -/
theorem ext_of_nodup {others : List (κ × α)} (hkeys : keys entries = keys others)
    (hnodup : (keys entries).Nodup) (hget : ∀ key, get? entries key = get? others key) :
    entries = others := by
  induction entries generalizing others with
  | nil => exact (List.map_eq_nil_iff.mp hkeys.symm).symm
  | cons e entries ih =>
    obtain _ | ⟨o, others⟩ := others
    · exact absurd hkeys (by simp [keys])
    obtain ⟨hkey, hrest⟩ : e.1 = o.1 ∧ keys entries = keys others := by simpa [keys] using hkeys
    obtain ⟨hlacks, hnodup⟩ : e.1 ∉ keys entries ∧ (keys entries).Nodup := by
      simpa only [keys, List.map_cons, List.nodup_cons] using hnodup
    have hvalue : e.2 = o.2 := by simpa [get?, hkey] using hget e.1
    rw [Prod.ext hkey hvalue, ih hrest hnodup fun key => ?_]
    by_cases hfirst : e.1 = key
    · -- neither rest has the key of the first entry
      have hnone : ∀ es : List (κ × α), key ∉ keys es → get? es key = none := fun es hes => by
        rw [← Option.not_isSome_iff_eq_none, isSome_get?_iff]
        exact hes
      rw [hnone _ (hfirst ▸ hlacks), hnone _ (hrest ▸ hfirst ▸ hlacks)]
    · simpa [get?, hfirst, hkey ▸ hfirst] using hget key

/-! ### Binding a key -/

/-- Binding a new name puts it behind the others, and an old one keeps its place. -/
theorem keys_bind (entries : List (κ × α)) (key : κ) (value : α) :
    keys (bind entries key value) =
      if key ∈ keys entries then keys entries else keys entries ++ [key] := by
  unfold bind
  by_cases hkey : key ∈ keys entries
  · rw [if_pos (contains_iff.mpr hkey), if_pos hkey, keys, keys, List.map_map]
    apply List.map_congr_left
    intro e _
    show (if e.1 = key then (key, value) else e).1 = e.1
    split
    · exact Eq.symm ‹_›
    · rfl
  · rw [if_neg (mt contains_iff.mp hkey), if_neg hkey, keys, keys, List.map_append]
    rfl

/-- Binding repeats no name. -/
theorem nodup_keys_bind (h : (keys entries).Nodup) (key : κ) (value : α) :
    (keys (bind entries key value)).Nodup := by
  rw [keys_bind]
  split
  · exact h
  · rename_i hnew
    rw [← List.concat_eq_append]
    exact h.concat hnew

/-- Binding a key adds no other entry. -/
theorem mem_of_mem_bind {e : κ × α} (h : e ∈ bind entries key value) :
    e ∈ entries ∨ e = (key, value) := by
  unfold bind at h
  split at h
  · obtain ⟨e', he', rfl⟩ := List.mem_map.mp h
    split
    · exact .inr rfl
    · exact .inl he'
  · rcases List.mem_append.mp h with h | h
    · exact .inl h
    · exact .inr (by simpa using h)

/-- What is bound after many names was bound before or is one of them. -/
theorem mem_of_mem_foldl_bind {es : List (κ × α)} {e : κ × α}
    (h : e ∈ es.foldl (fun t e => bind t e.1 e.2) entries) : e ∈ entries ∨ e ∈ es := by
  induction es generalizing entries with
  | nil => exact .inl h
  | cons e' es ih =>
    rcases ih h with h | h
    · rcases mem_of_mem_bind h with h | rfl
      · exact .inl h
      · exact .inr (by simp)
    · exact .inr (List.mem_cons_of_mem _ h)

/-- Binding many names repeats none. -/
theorem nodup_keys_foldl_bind {es : List (κ × α)} (h : (keys entries).Nodup) :
    (keys (es.foldl (fun t e => bind t e.1 e.2) entries)).Nodup := by
  induction es generalizing entries with
  | nil => exact h
  | cons e es ih => exact ih (nodup_keys_bind h e.1 e.2)

/-- The value of a key after a key was bound. -/
theorem get?_bind (entries : List (κ × α)) (key other : κ) (value : α) :
    get? (bind entries key value) other = if key = other then some value else get? entries other := by
  by_cases hbound : contains entries key = true
  · -- the key is bound anew where it stands
    rw [bind, if_pos hbound]
    split
    · rename_i hkey
      subst hkey
      induction entries with
      | nil => exact absurd hbound (by simp [contains])
      | cons e entries ih =>
        by_cases he : e.1 = key
        · simp [get?, he]
        · have hrest := ih (by simpa [contains, he] using hbound)
          simpa [get?, he] using hrest
    · rename_i hkey
      clear hbound
      induction entries with
      | nil => rfl
      | cons e entries ih =>
        by_cases he : e.1 = other
        · simp [get?, he, Ne.symm hkey]
        · by_cases he' : e.1 = key
          · simpa [get?, he', hkey] using ih
          · simpa [get?, he, he'] using ih
  · -- or added behind all others
    rw [bind, if_neg hbound]
    split
    · rename_i hkey
      subst hkey
      have hfind : entries.find? (fun e => e.1 = key) = none := by
        refine List.find?_eq_none.mpr fun e he hkey => hbound ?_
        exact List.any_eq_true.mpr ⟨e, he, hkey⟩
      simp [get?, List.find?_append, hfind]
    · rename_i hkey
      simp [get?, List.find?_append, hkey]

end Assoc

/-! ### Rosters -/

namespace Roster

variable {α : Type} (s : Roster α) (name other : String) (value : α)

/-- A name is found exactly when it is listed. -/
theorem isSome_get?_iff : (s.get? name).isSome = true ↔ name ∈ s.names := by
  rw [get?_eq, Assoc.isSome_get?_iff, keys_toList]

/-- A name has the value that is listed beside it. -/
theorem get?_eq_some_iff_mem : s.get? name = some value ↔ (name, value) ∈ s.toList := by
  rw [get?_eq]
  exact Assoc.get?_eq_some_iff_mem s.nodup_keys

/-- The index has a place for a name exactly when the name is listed there. -/
theorem place_eq_some_iff (place : Nat) :
    Assoc.get? s.index name = some place ↔ s.names[place]? = some name := by
  have hdistinct : (Assoc.keys s.index).Nodup := by
    rw [keys_index]
    exact s.distinct
  rw [Assoc.get?_eq_some_iff_mem hdistinct, s.agrees, List.mk_mem_zipIdx_iff_getElem?]

/-- A name that is bound keeps its place, and a new one stands behind the others. -/
theorem names_bind :
    (s.bind name value).names = if name ∈ s.names then s.names else s.names ++ [name] := by
  rw [← keys_toList, toList_bind, Assoc.keys_bind, keys_toList]

/-- Binding a name changes what is found under that name alone. -/
theorem get?_bind :
    (s.bind name value).get? other = if name = other then some value else s.get? other := by
  rw [get?_eq, toList_bind, Assoc.get?_bind, ← get?_eq]

variable {s}

/-- Two rosters are equal when they have the same names, in one order, with the same values. -/
theorem ext_get? {t : Roster α} (hnames : s.names = t.names)
    (hget : ∀ name, s.get? name = t.get? name) : s = t := by
  apply eq_of_toList_eq
  apply Assoc.ext_of_nodup _ s.nodup_keys
  · intro name
    rw [← get?_eq, ← get?_eq]
    exact hget name
  · rw [keys_toList, keys_toList]
    exact hnames

/-! #### Many steps -/

/-- Bind a name to what a rule makes of its value. -/
def change (s : Roster α) (name : String) (rule : Option α → α) : Roster α :=
  s.bind name (rule (s.get? name))

variable {name other value}

/-- Changing a name by a rule changes what is found under that name alone. -/
theorem get?_change (s : Roster α) (name other : String) (rule : Option α → α) :
    (s.change name rule).get? other =
      if name = other then some (rule (s.get? name)) else s.get? other :=
  s.get?_bind name other _

/-- Changing a name that is bound keeps all names. -/
theorem names_change_of_mem (h : name ∈ s.names) (rule : Option α → α) :
    (s.change name rule).names = s.names := by
  rw [change, names_bind, if_pos h]

/-- A name that is bound to what a rule leaves alone stays so. -/
theorem change_eq_self (hget : s.get? name = some value) {rule : Option α → α}
    (hrule : rule (some value) = value) : s.change name rule = s := by
  have hname : name ∈ s.names := (s.isSome_get?_iff name).mp (by rw [hget]; rfl)
  refine ext_get? (names_change_of_mem hname rule) fun other => ?_
  rw [get?_change]
  split
  · rename_i heq
    rw [← heq, hget, hrule]
  · rfl

/-- Two changes of one name are one. -/
theorem change_change (s : Roster α) (name : String) (rule rule' : Option α → α) :
    (s.change name rule).change name rule' = s.change name fun v => rule' (some (rule v)) := by
  have hbound : name ∈ (s.change name rule).names :=
    (isSome_get?_iff _ name).mp (by rw [get?_change, if_pos rfl]; rfl)
  refine ext_get? ?_ fun other => ?_
  · rw [names_change_of_mem hbound, change, change, names_bind, names_bind]
  · simp only [get?_change]
    split <;> simp

/-- A name that is bound can be changed before or after another name. -/
theorem change_comm (hbound : name ∈ s.names) (hne : name ≠ other) (rule rule' : Option α → α) :
    (s.change name rule).change other rule' = (s.change other rule').change name rule := by
  have hbound' : name ∈ (s.change other rule').names :=
    (isSome_get?_iff _ name).mp
      (by rw [get?_change, if_neg hne.symm]; exact (s.isSome_get?_iff name).mpr hbound)
  refine ext_get? ?_ fun found => ?_
  · rw [names_change_of_mem hbound', change, names_bind, names_change_of_mem hbound, change,
      names_bind]
  · simp only [get?_change, if_neg hne, if_neg hne.symm]
    by_cases hname : name = found
    · rw [if_pos hname, if_pos hname, if_neg fun hother => hne (hname.trans hother.symm)]
    · rw [if_neg hname, if_neg hname]

section Steps

variable {ε : Type} (name? : ε → String) (rule : ε → Option α → α)

/-- **Names stand in the order of the first steps for them.** -/
theorem names_foldl_change (steps : List ε) (s : Roster α) :
    (steps.foldl (fun s step => s.change (name? step) (rule step)) s).names =
      s.names ++ ((steps.map name?).filter (· ∉ s.names)).eraseDups := by
  rw [← foldl_concat_new]
  induction steps generalizing s with
  | nil => rfl
  | cons step steps ih =>
    rw [List.foldl_cons, ih, change, names_bind, List.map_cons, List.foldl_cons]

/-- **The value of a name is what the steps for the name make of it.** -/
theorem get?_foldl_change (steps : List ε) (s : Roster α) (name : String) :
    (steps.foldl (fun s step => s.change (name? step) (rule step)) s).get? name =
      (steps.filter fun step => name? step = name).foldl (fun v step => some (rule step v))
        (s.get? name) := by
  induction steps generalizing s with
  | nil => rfl
  | cons step steps ih =>
    rw [List.foldl_cons, ih, change, get?_bind]
    by_cases hstep : name? step = name
    · rw [List.filter_cons_of_pos (by simpa using hstep), List.foldl_cons, if_pos hstep, hstep]
    · rw [List.filter_cons_of_neg (by simpa using hstep), if_neg hstep]

end Steps
end Roster
end PackageDoc
