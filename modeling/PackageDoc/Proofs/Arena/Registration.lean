import PackageDoc.Proofs.Arena.Index

namespace PackageDoc

/-!
# Which inputs are registered

Registration goes through the inputs in order.  It leaves out those that the configuration skips and
those whose name is taken, and gives every other one the next number.  Numbers are 32-bit words that
begin with 1, so `UInt32.size - 1` modules can have one.

* `Config.firstInputs` — of the inputs that are not skipped, the first of each name;
* `Analysis.inputs_registerInput`, `Analysis.inputs_foldl_registerInput` — what is registered after
  one input and after several;
* `Analysis.inputs_register` — the first inputs are registered, in order, as long as there are
  numbers;
* `Analysis.inputs_register_of_nodup` — with distinct names and numbers enough, nothing is left out
  but what is skipped.
-/

/-! ### First inputs -/

/-- What is left of a list without what is like an earlier element. -/
theorem sublist_eraseDupsBy {α : Type} (r : α → α → Bool) (xs : List α) :
    (xs.eraseDupsBy r).Sublist xs := by
  match xs with
  | [] => exact .slnil
  | x :: xs =>
    rw [List.eraseDupsBy_cons]
    exact ((sublist_eraseDupsBy r _).trans List.filter_sublist).cons_cons x
termination_by xs.length
decreasing_by exact Nat.lt_succ_of_le (List.length_filter_le _ _)

/-- Nothing is left out of a list of which no element is like an earlier one. -/
theorem eraseDupsBy_of_pairwise {α : Type} {r : α → α → Bool} {xs : List α}
    (h : xs.Pairwise fun x y => r y x = false) : xs.eraseDupsBy r = xs := by
  induction xs with
  | nil => rfl
  | cons x xs ih =>
    obtain ⟨hx, hxs⟩ := List.pairwise_cons.mp h
    have hall : xs.filter (fun y => decide (r y x = false)) = xs :=
      List.filter_eq_self.mpr fun y hy => decide_eq_true (hx y hy)
    rw [List.eraseDupsBy_cons, hall, ih hxs]

/-- Of the inputs that are not skipped, the first of each name, in order. -/
def Config.firstInputs (config : Config) (inputs : List ModuleInput) : List ModuleInput :=
  (inputs.filter fun input => !config.isSkipped input.name).eraseDupsBy fun x y => x.name == y.name

/-- No input that is kept is skipped by the configuration. -/
theorem Config.isSkipped_of_mem_firstInputs {config : Config} {inputs : List ModuleInput}
    {input : ModuleInput} (h : input ∈ config.firstInputs inputs) :
    config.isSkipped input.name = false := by
  have hkept := List.of_mem_filter ((sublist_eraseDupsBy _ _).subset h)
  simpa using hkept

/-- Inputs of distinct names are each the first of its own. -/
theorem Config.firstInputs_of_nodup {inputs : List ModuleInput} (config : Config)
    (h : (inputs.map ModuleInput.name).Nodup) :
    config.firstInputs inputs = inputs.filter fun input => !config.isSkipped input.name := by
  have hnames := (List.pairwise_map.mp h).filter fun input => !config.isSkipped input.name
  exact eraseDupsBy_of_pairwise (hnames.imp fun hne => by simpa using Ne.symm hne)

example : (Config.firstInputs { skip := ⟨["p.s"]⟩ } [{ name := "p" }, { name := "p.s" },
    { name := "p.a" }, { name := "p", isPackage := true }]).map (fun i => (i.name, i.isPackage)) =
    [("p", false), ("p.a", false)] := by decide +kernel

/-! ### One input -/

namespace Analysis

variable {a : Analysis} {given : List ModuleInput} {name : String}

/-- A name is registered exactly when the input of some module has it. -/
theorem isRegistered_iff_any (hindexed : a.WellIndexed) : a.isRegistered name = true ↔
    (a.modules.map ModuleState.input).any (fun input => input.name == name) = true := by
  rw [hindexed.isRegistered_iff, List.any_map, List.any_eq_true, List.mem_map]
  simp only [Function.comp_apply, beq_iff_eq]
  rfl

/-- When the registered inputs are the first of some that were given, so they are after another
    input: it counts unless it is skipped or one of those has its name. -/
theorem inputs_registerInput (input : ModuleInput) (hindexed : a.WellIndexed)
    (h : a.modules.map ModuleState.input = given.take (UInt32.size - 1)) :
    (a.registerInput input).modules.map ModuleState.input =
      (if a.config.isSkipped input.name || given.any (fun other => other.name == input.name)
        then given else given ++ [input]).take (UInt32.size - 1) := by
  have hlength : a.modules.length = min (UInt32.size - 1) given.length := by
    rw [← List.length_map (f := ModuleState.input), h, List.length_take]
  have htaken : a.isRegistered input.name = true ↔
      (given.take (UInt32.size - 1)).any (fun other => other.name == input.name) = true := by
    rw [isRegistered_iff_any hindexed, h]
  rcases registerInput_cases a input with ⟨hsame, hcause⟩ | ⟨hskip, hfree, id, hid, hadd⟩
  · rw [hsame, h]
    split
    · rfl
    · rename_i hnew
      rw [Bool.or_eq_true, not_or] at hnew
      obtain ⟨hskip, hnew⟩ := hnew
      -- it can only have been kept out because there are no more numbers
      have hfull : UInt32.size ≤ a.modules.length + 1 := by
        rcases hcause with hcause | hcause | hcause
        · exact absurd hcause hskip
        · obtain ⟨other, hother, hname⟩ := List.any_eq_true.mp (htaken.mp hcause)
          exact absurd (List.any_eq_true.mpr ⟨other, List.mem_of_mem_take hother, hname⟩) hnew
        · exact ModuleId.ofIndex?_eq_none_iff.mp hcause
      rw [List.take_append_of_le_length (by omega)]
  · -- there are numbers left, so all that were given are registered
    have hroom : ¬ UInt32.size ≤ a.modules.length + 1 := by
      rw [← ModuleId.ofIndex?_eq_none_iff, hid]
      exact Option.some_ne_none id
    have hall : given.length < UInt32.size - 1 := by omega
    rw [List.take_of_length_le (Nat.le_of_lt hall)] at h htaken
    have hnew : given.any (fun other => other.name == input.name) = false := by
      rw [← Bool.not_eq_true, ← htaken, hfree]
      exact Bool.false_ne_true
    rw [hadd, hskip, hnew, Bool.or_self, if_neg Bool.false_ne_true, addModule_modules,
      List.map_append, h,
      List.take_of_length_le (by rw [List.length_append, List.length_singleton]; omega)]
    rfl

/-! ### All inputs -/

/-- Registering an input changes no setting. -/
theorem config_registerInput (a : Analysis) (input : ModuleInput) :
    (a.registerInput input).config = a.config := by
  rcases registerInput_cases a input with ⟨hsame, -⟩ | ⟨-, -, id, -, hadd⟩
  · rw [hsame]
  · rw [hadd, addModule_config]

/-- **Registering several inputs adds the first of each name** that is not skipped and that none
    given before has. -/
theorem inputs_foldl_registerInput (inputs : List ModuleInput) (hindexed : a.WellIndexed)
    (h : a.modules.map ModuleState.input = given.take (UInt32.size - 1)) :
    (inputs.foldl registerInput a).modules.map ModuleState.input =
      (given ++ (inputs.filter fun input => !(a.config.isSkipped input.name ||
        given.any fun other => other.name == input.name)).eraseDupsBy
          fun x y => x.name == y.name).take (UInt32.size - 1) := by
  induction inputs generalizing a given with
  | nil => simpa using h
  | cons input inputs ih =>
    have hone := inputs_registerInput input hindexed h
    rw [List.foldl_cons, ih (hindexed.registerInput input) hone, config_registerInput]
    split
    · rename_i hout
      rw [List.filter_cons_of_neg (by simp [hout])]
    · rename_i hcounts
      -- what has the name of this input is no longer new
      have hlater : ∀ other : ModuleInput,
          (!(a.config.isSkipped other.name ||
            (given ++ [input]).any fun earlier => earlier.name == other.name)) =
          (decide ((other.name == input.name) = false) &&
            !(a.config.isSkipped other.name || given.any fun earlier => earlier.name == other.name)) := by
        intro other
        have hcomm : (input.name == other.name) = (other.name == input.name) := BEq.comm
        rw [List.any_append, List.any_cons, List.any_nil, Bool.or_false, hcomm]
        cases other.name == input.name <;> simp
      rw [List.filter_cons_of_pos (by simpa using hcounts), List.eraseDupsBy_cons,
        List.filter_filter, List.append_assoc, List.singleton_append]
      simp only [hlater]

/-- **The first inputs are registered**, in order, as long as there are numbers. -/
theorem inputs_register (root : String) (inputs : List ModuleInput) (config : Config) :
    (start root inputs config).register.modules.map ModuleState.input =
      (config.firstInputs inputs).take (UInt32.size - 1) := by
  have hnone : (start root [] config).modules.map ModuleState.input =
      ([] : List ModuleInput).take (UInt32.size - 1) := rfl
  have hfold := inputs_foldl_registerInput inputs (.start root [] config) hnone
  simp only [List.any_nil, Bool.or_false, List.nil_append] at hfold
  exact hfold

/-- **Inputs of distinct names are all registered**, but for those that are skipped, when there are
    numbers enough. -/
theorem inputs_register_of_nodup (root : String) {inputs : List ModuleInput} (config : Config)
    (hnames : (inputs.map ModuleInput.name).Nodup) (hlength : inputs.length + 1 < UInt32.size) :
    (start root inputs config).register.modules.map ModuleState.input =
      inputs.filter fun input => !config.isSkipped input.name := by
  have hkept := List.length_filter_le (fun input => !config.isSkipped input.name) inputs
  rw [inputs_register, config.firstInputs_of_nodup hnames, List.take_of_length_le (by omega)]

end Analysis
end PackageDoc
