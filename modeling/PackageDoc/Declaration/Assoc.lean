namespace PackageDoc

/-!
# Ordered bindings

Tables in which a key keeps the place of its first binding, whatever it is bound to later.  `Assoc` has
them as plain lists of keyed values, in which a key is searched for.

A roster lists values under distinct names and keeps an index beside the list, which says at which
place each name stands.  A value is read and written through the index; the list says in which order
the names were first bound.  Every roster carries the agreement of its two stores, so no operation
has to assume it, and each one that makes a roster shows it anew.

* `Assoc.get?`, `Assoc.bind` — a table as a list;
* `Entries` — values, one under each of some names;
* `Roster` — entries with the index of their places;
* `Roster.get?_eq` — what the index finds is what the list holds;
* `Roster.toList_bind`, `Roster.toList_set` — what writing through the index does to the list.
-/

/-! ### Tables by key -/

namespace Assoc

variable {κ α : Type} [DecidableEq κ]

/-- The value of a key. -/
def get? (entries : List (κ × α)) (key : κ) : Option α :=
  (entries.find? fun e => e.1 = key).map Prod.snd

/-- Is the key bound? -/
def contains (entries : List (κ × α)) (key : κ) : Bool :=
  entries.any fun e => e.1 = key

/-- Bind a key, or bind it anew where it stands. -/
def bind (entries : List (κ × α)) (key : κ) (value : α) : List (κ × α) :=
  if contains entries key then entries.map fun e => if e.1 = key then (key, value) else e
  else entries ++ [(key, value)]

/-- The keys in order. -/
def keys (entries : List (κ × α)) : List κ :=
  entries.map Prod.fst

/-- A key is bound exactly when it is among the keys. -/
theorem contains_iff {entries : List (κ × α)} {key : κ} :
    contains entries key = true ↔ key ∈ keys entries := by
  rw [contains, keys, List.any_eq_true, List.mem_map]
  exact exists_congr fun e => and_congr_right fun _ => decide_eq_true_iff

/-! #### Order -/

variable [LT κ] [DecidableLT κ]

/-- Add an entry to a list in the order of its keys, behind those with the same key. -/
def insertSorted (entry : κ × α) : List (κ × α) → List (κ × α)
  | [] => [entry]
  | e :: es => if entry.1 < e.1 then entry :: e :: es else e :: insertSorted entry es

/-- The entries in the order of their keys. -/
def sorted (entries : List (κ × α)) : List (κ × α) :=
  entries.foldl (fun es e => insertSorted e es) []

end Assoc

/-! ### Entries -/

/-- Values, one under each of some names. -/
inductive Entries (α : Type) : (names : List String) → Type where
  | nil : Entries α []
  | cons {names : List String} (name : String) (value : α) (rest : Entries α names) :
      Entries α (name :: names)

namespace Entries

variable {α : Type} {names : List String}

/-- The values with their names. -/
def toList {names : List String} : Entries α names → List (String × α)
  | nil => []
  | cons name value rest => (name, value) :: rest.toList

/-- The value at a place. -/
def get? {names : List String} : Entries α names → (place : Nat) → Option α
  | nil, _ => none
  | cons _ value _, 0 => some value
  | cons _ _ rest, place + 1 => rest.get? place

/-- Write a value to a place. -/
def set {names : List String} : Entries α names → (place : Nat) → α → Entries α names
  | nil, _, _ => nil
  | cons name _ rest, 0, value => cons name value rest
  | cons name first rest, place + 1, value => cons name first (rest.set place value)

/-- Add a value under a name behind all others. -/
def push {names : List String} : Entries α names → (name : String) → α → Entries α (names ++ [name])
  | nil, name, value => cons name value nil
  | cons first value rest, name, last => cons first value (rest.push name last)

@[simp] theorem toList_nil : (nil : Entries α []).toList = [] := rfl

@[simp] theorem toList_cons (name : String) (value : α) (rest : Entries α names) :
    (cons name value rest).toList = (name, value) :: rest.toList := rfl

/-- The names of entries are those by which they are indexed. -/
@[simp] theorem keys_toList (es : Entries α names) : Assoc.keys es.toList = names := by
  induction es with
  | nil => rfl
  | cons name value rest ih => exact congrArg (name :: ·) ih

/-- An entry that is added is listed last. -/
@[simp] theorem toList_push (es : Entries α names) (name : String) (value : α) :
    (es.push name value).toList = es.toList ++ [(name, value)] := by
  induction es with
  | nil => rfl
  | cons first _ rest ih => exact congrArg ((first, _) :: ·) ih

/-- The value at the place of a name is the one that is listed under it. -/
theorem get?_idxOf? (es : Entries α names) (name : String) :
    (names.idxOf? name).bind es.get? = Assoc.get? es.toList name := by
  induction es with
  | nil => rfl
  | cons first value rest ih =>
    by_cases hfirst : first = name
    · simp [List.idxOf?_cons, Assoc.get?, get?, hfirst]
    · have hrest : Assoc.get? (cons first value rest).toList name = Assoc.get? rest.toList name := by
        simp [Assoc.get?, hfirst]
      rw [hrest, ← ih, List.idxOf?_cons, if_neg (by simpa using hfirst), Option.bind_map]
      rfl

/-- Writing to the place of a name changes what is listed under it and nothing else. -/
theorem toList_set (es : Entries α names) {name : String} {place : Nat} (hdistinct : names.Nodup)
    (hplace : names.idxOf? name = some place) (value : α) :
    (es.set place value).toList =
      es.toList.map fun e => if e.1 = name then (name, value) else e := by
  induction es generalizing place with
  | nil => exact absurd hplace (by simp)
  | @cons names first old rest ih =>
    obtain ⟨hlacks, hdistinct⟩ := List.nodup_cons.mp hdistinct
    by_cases hfirst : first = name
    · -- behind the first entry nothing has its name
      obtain rfl : 0 = place := by simpa [List.idxOf?_cons, hfirst] using hplace
      have hrest : ∀ e ∈ rest.toList, e.1 ≠ name := by
        rintro e he rfl
        refine hlacks ?_
        rw [hfirst, ← keys_toList rest]
        exact List.mem_map_of_mem he
      have hsame : rest.toList.map (fun e => if e.1 = name then (name, value) else e) =
          rest.toList := by
        refine (List.map_congr_left fun e he => ?_).trans (List.map_id _)
        exact if_neg (hrest e he)
      simp [set, hfirst, hsame]
    · obtain ⟨before, hbefore, rfl⟩ : ∃ before, names.idxOf? name = some before ∧
          before + 1 = place := by
        simpa [List.idxOf?_cons, hfirst] using hplace
      simp [set, hfirst, ih hdistinct hbefore]

/-- Entries are known by what they list. -/
theorem eq_of_toList_eq {es es' : Entries α names} (h : es.toList = es'.toList) : es = es' := by
  induction es with
  | nil =>
    cases es'
    rfl
  | cons name value rest ih =>
    cases es' with
    | cons _ value' rest' =>
      obtain ⟨hvalue, hrest⟩ : value = value' ∧ rest.toList = rest'.toList := by simpa using h
      rw [hvalue, ih hrest]

end Entries

/-! ### Rosters -/

/-- The place of a name in a list that begins at `first`. -/
theorem Assoc.get?_zipIdx (names : List String) (first : Nat) (name : String) :
    Assoc.get? (names.zipIdx first) name = (names.idxOf? name).map (first + ·) := by
  induction names generalizing first with
  | nil => rfl
  | cons n names ih =>
    by_cases hn : n = name
    · simp [Assoc.get?, List.idxOf?_cons, hn]
    · have hrest : Assoc.get? ((n :: names).zipIdx first) name =
          Assoc.get? (names.zipIdx (first + 1)) name := by
        simp [Assoc.get?, hn]
      rw [hrest, ih, List.idxOf?_cons, if_neg (by simpa using hn), Option.map_map]
      refine congrArg (Option.map · _) (funext fun place => ?_)
      show first + 1 + place = first + (place + 1)
      omega

/-- Values under distinct names in the order of first binding, with the places of the names. -/
structure Roster (α : Type) where
  names : List String
  entries : Entries α names
  /-- The place of each name. -/
  index : List (String × Nat)
  distinct : names.Nodup
  agrees : index = names.zipIdx

namespace Roster

variable {α : Type}

/-- No names. -/
def empty : Roster α :=
  ⟨[], .nil, [], List.nodup_nil, rfl⟩

instance : Inhabited (Roster α) :=
  ⟨empty⟩

/-- The names with their values, in order. -/
def toList (s : Roster α) : List (String × α) :=
  s.entries.toList

instance [Repr α] : Repr (Roster α) :=
  ⟨fun s precedence => reprPrec s.toList precedence⟩

/-- The value of a name: what stands at the place that the index has for it. -/
def get? (s : Roster α) (name : String) : Option α :=
  (Assoc.get? s.index name).bind s.entries.get?

/-- Has the index the name? -/
def contains (s : Roster α) (name : String) : Bool :=
  Assoc.contains s.index name

/-- How many names are bound? -/
def length (s : Roster α) : Nat :=
  s.toList.length

/-- Is no name bound? -/
def isEmpty (s : Roster α) : Bool :=
  s.toList.isEmpty

/-- Write a value to a place. -/
def write (s : Roster α) (place : Nat) (value : α) : Roster α :=
  { s with entries := s.entries.set place value }

/-- Write to the place that the index has for a name; nothing is written for a name without one. -/
def set (s : Roster α) (name : String) (value : α) : Roster α :=
  match Assoc.get? s.index name with
  | some place => s.write place value
  | none => s

/-! #### What the index says -/

/-- The index has the names of the list. -/
theorem keys_index (s : Roster α) : Assoc.keys s.index = s.names := by
  rw [Assoc.keys, s.agrees, List.zipIdx_map_fst]

/-- The index has the place at which the name stands in the list. -/
theorem place_eq (s : Roster α) (name : String) :
    Assoc.get? s.index name = s.names.idxOf? name := by
  rw [s.agrees, Assoc.get?_zipIdx]
  simp

/-- A name without a place is not listed. -/
theorem not_mem_of_place_eq_none {s : Roster α} {name : String}
    (h : Assoc.get? s.index name = none) : name ∉ s.names := by
  rw [place_eq, List.idxOf?_eq_none_iff] at h
  exact h

/-- A new name is added behind the others in both stores. -/
theorem agrees_push {s : Roster α} {name : String} (h : name ∉ s.names) :
    Assoc.bind s.index name s.names.length = (s.names ++ [name]).zipIdx := by
  have hnew : ¬ Assoc.contains s.index name = true := by
    rw [Assoc.contains_iff, keys_index]
    exact h
  rw [Assoc.bind, if_neg hnew, List.zipIdx_append, s.agrees]
  simp

/-- Names stay distinct when a new one is added. -/
theorem distinct_push {s : Roster α} {name : String} (h : name ∉ s.names) :
    (s.names ++ [name]).Nodup := by
  rw [List.nodup_append]
  refine ⟨s.distinct, by simp, ?_⟩
  rintro other hother _ hname rfl
  rw [List.mem_singleton.mp hname] at hother
  exact h hother

/-- Add a name that the index lacks behind all others, to both stores. -/
def push (s : Roster α) (name : String) (value : α) (h : Assoc.get? s.index name = none) :
    Roster α where
  names := s.names ++ [name]
  entries := s.entries.push name value
  index := Assoc.bind s.index name s.names.length
  distinct := distinct_push (not_mem_of_place_eq_none h)
  agrees := agrees_push (not_mem_of_place_eq_none h)

/-- Bind a name: at the place that the index has for it, or else behind all others. -/
def bind (s : Roster α) (name : String) (value : α) : Roster α :=
  match h : Assoc.get? s.index name with
  | some place => s.write place value
  | none => s.push name value h

/-! #### The list behind the index -/

variable (s : Roster α) (name : String) (value : α)

@[simp] theorem toList_empty : (empty : Roster α).toList = [] := rfl

/-- The list is one of the names. -/
@[simp] theorem keys_toList : Assoc.keys s.toList = s.names :=
  s.entries.keys_toList

/-- No name is listed twice. -/
theorem nodup_keys : (Assoc.keys s.toList).Nodup := by
  rw [keys_toList]
  exact s.distinct

/-- **What the index finds is what the list holds.** -/
theorem get?_eq : s.get? name = Assoc.get? s.toList name := by
  rw [get?, place_eq]
  exact s.entries.get?_idxOf? name

/-- The index has exactly the names that are listed. -/
theorem contains_iff : s.contains name = true ↔ name ∈ s.names := by
  rw [contains, Assoc.contains_iff, keys_index]

/-- Whether a name is bound is the same in both stores. -/
theorem contains_eq : s.contains name = Assoc.contains s.toList name := by
  rw [Bool.eq_iff_iff, contains_iff, Assoc.contains_iff, keys_toList]

/-- A name with a place is listed. -/
theorem mem_names_of_place_eq {place : Nat} (h : Assoc.get? s.index name = some place) :
    name ∈ s.names := by
  rw [place_eq] at h
  rw [← List.isSome_idxOf?, h]
  rfl

/-- Writing to the place of a name binds it in the list. -/
theorem toList_write {place : Nat} (h : Assoc.get? s.index name = some place) :
    (s.write place value).toList = Assoc.bind s.toList name value := by
  have hbound : Assoc.contains s.toList name = true := by
    rw [← contains_eq, contains_iff]
    exact s.mem_names_of_place_eq name h
  rw [Assoc.bind, if_pos hbound]
  rw [place_eq] at h
  exact s.entries.toList_set s.distinct h value

/-- **Binding through the index binds in the list**: a name that is bound keeps its place. -/
theorem toList_bind : (s.bind name value).toList = Assoc.bind s.toList name value := by
  unfold bind
  split
  · rename_i place hplace
    exact s.toList_write name value hplace
  · rename_i hplace
    have hnew : ¬ Assoc.contains s.toList name = true := by
      rw [← contains_eq, contains_iff]
      exact not_mem_of_place_eq_none hplace
    rw [Assoc.bind, if_neg hnew]
    exact s.entries.toList_push name value

/-- Writing to a name that is bound is binding it. -/
theorem toList_set (h : (s.get? name).isSome) :
    (s.set name value).toList = Assoc.bind s.toList name value := by
  unfold set
  split
  · rename_i place hplace
    exact s.toList_write name value hplace
  · rename_i hplace
    exact absurd h (by simp [get?, hplace])

variable {s}

/-- A roster is known by what it lists. -/
theorem eq_of_toList_eq {t : Roster α} (h : s.toList = t.toList) : s = t := by
  obtain ⟨names, entries, index, distinct, agrees⟩ := s
  obtain ⟨names', entries', index', distinct', agrees'⟩ := t
  obtain rfl : names = names' := by
    rw [← entries.keys_toList, ← entries'.keys_toList]
    exact congrArg Assoc.keys h
  obtain rfl : entries = entries' := Entries.eq_of_toList_eq h
  subst agrees agrees'
  rfl

/-- Writing to a name that is bound is binding it. -/
theorem set_eq_bind {name : String} (h : (s.get? name).isSome) (value : α) :
    s.set name value = s.bind name value :=
  eq_of_toList_eq ((s.toList_set name value h).trans (s.toList_bind name value).symm)

end Roster

end PackageDoc
