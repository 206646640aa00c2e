namespace PackageDoc

/-!
# Numbers of modules
-/

/-- The number of a registered module, counted from 1 in the order of registration.  Numbers are
    32-bit words. -/
structure ModuleId where
  raw : Nat
  pos : 0 < raw
  lt_size : raw < UInt32.size
  deriving Repr, DecidableEq

namespace ModuleId

/-- The number `raw`, if it is one. -/
def ofRaw? (raw : Nat) : Option ModuleId :=
  if h : 0 < raw ∧ raw < UInt32.size then some ⟨raw, h.1, h.2⟩ else none

/-- The number of the module at a place, counted from 0. -/
def ofIndex? (index : Nat) : Option ModuleId :=
  ofRaw? (index + 1)

/-- The place of a module, counted from 0. -/
def index (id : ModuleId) : Nat :=
  id.raw - 1

/-- The number as logs show it. -/
def text (id : ModuleId) : String :=
  "#" ++ toString id.raw

/-- The number of a module that has one is the index that it was made of. -/
@[simp] theorem index_eq_of_ofIndex? {i : Nat} {id : ModuleId} (h : ofIndex? i = some id) :
    id.index = i := by
  unfold ofIndex? ofRaw? at h
  split at h
  · injection h with h
    subst h
    simp [index]
  · simp at h

/-- Numbers run out where a 32-bit word does. -/
theorem ofIndex?_eq_none_iff {i : Nat} : ofIndex? i = none ↔ UInt32.size ≤ i + 1 := by
  unfold ofIndex? ofRaw?
  split
  · rename_i h
    exact iff_of_false (by simp) (by omega)
  · rename_i h
    exact iff_of_true rfl (by omega)

/-- Different numbers have different indices. -/
theorem index_inj {id id' : ModuleId} : id.index = id'.index ↔ id = id' := by
  refine ⟨fun h => ?_, congrArg index⟩
  obtain ⟨raw, hpos, _⟩ := id
  obtain ⟨raw', hpos', _⟩ := id'
  obtain rfl : raw = raw' := by
    have h : raw - 1 = raw' - 1 := h
    omega
  rfl

end ModuleId
end PackageDoc
