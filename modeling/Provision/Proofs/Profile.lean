import Provision.Profile
import Provision.Fallible
import Provision.Proofs.OrderedMap
import Provision.Proofs.Text.Trimming

/-!
What a profile requests of a package: the settings that the recipe depends on, and the defaults of
its options under the assignments that are for the package. The last assignment to an option gives
its value, and the first assignment at fault is the one that is reported.
-/

namespace Provision

namespace OptionAssignment

/-- An assignment is for a package: without a scope for the root, and with one for what it
matches. -/
def Applies (a : OptionAssignment) (r : Reference) (isRoot : Bool) : Prop :=
  (a.scope? = none ∧ isRoot = true) ∨ ∃ pattern ∈ a.scope?, pattern.isMatch r = true

private theorem appliesTo_iff {a : OptionAssignment} {r : Reference} {isRoot : Bool} :
    a.appliesTo r isRoot = true ↔ a.Applies r isRoot := by
  unfold appliesTo Applies
  cases a.scope? <;> simp

instance (a : OptionAssignment) (r : Reference) (isRoot : Bool) : Decidable (a.Applies r isRoot) :=
  decidable_of_iff _ appliesTo_iff

/-- What is wrong with an assignment that is for a package: it has no scope and its option is not
declared, or the option is declared and does not allow its value. -/
inductive Fault (a : OptionAssignment) (recipe : Recipe) : OptionError → Prop
  | unknown (hscope : a.scope? = none) (hoption : recipe.options.get? a.name = none) :
      Fault a recipe (.unknownOption recipe.reference a.name)
  | rejected {decl : OptionDecl} (hoption : recipe.options.get? a.name = some decl)
      (hvalues : decl.values ≠ []) (hvalue : a.value ∉ decl.values) :
      Fault a recipe (.invalidValue recipe.reference a.name a.value decl.values)

end OptionAssignment

private theorem OptionDecl.accepts_eq_false_iff {decl : OptionDecl} {value : String} :
    decl.accepts value = false ↔ decl.values ≠ [] ∧ value ∉ decl.values := by
  simp [accepts]

theorem Recipe.declaresSetting_iff {recipe : Recipe} {key : String} :
    recipe.declaresSetting key = true ↔
      ∃ declared ∈ recipe.settings, key = declared ∨ ∃ rest, key = declared ++ "." ++ rest := by
  have hcontinues : ∀ declared,
      (∃ tail, Text.dropStart declared key = some tail ∧ (Text.dropStart "." tail).isSome = true) ↔
        ∃ rest, key = declared ++ "." ++ rest := by
    intro declared
    simp only [Option.isSome_iff_exists, Text.dropStart_eq_some_iff, String.append_assoc]
    exact ⟨fun ⟨tail, htail, rest, hrest⟩ => ⟨rest, hrest ▸ htail⟩,
      fun ⟨rest, hrest⟩ => ⟨_, hrest, rest, rfl⟩⟩
  simp only [declaresSetting, List.any_eq_true, Bool.or_eq_true, beq_iff_eq, Option.any_eq_true,
    hcontinues]

private theorem Recipe.get?_defaultOptions (recipe : Recipe) (name : String) :
    recipe.defaultOptions.get? name = (recipe.options.get? name).bind (·.default?) := by
  have hmem : ∀ value, (name, value) ∈ (recipe.options.entries.filterMap fun entry =>
      entry.2.default?.map (entry.1, ·)) ↔
        (recipe.options.get? name).bind (·.default?) = some value := by
    intro value
    simp [Option.bind_eq_some_iff, OrderedMap.get?_eq_some_iff]
  refine Option.ext fun value => ⟨fun h => ?_, fun h => ?_⟩
  · rw [defaultOptions, OrderedMap.get?_ofList] at h
    exact (hmem value).mp (List.mem_reverse.mp (OrderedMap.mem_of_lookup_eq_some h))
  · refine OrderedMap.get?_ofList_of_forall ((hmem value).mpr h) fun other hother => ?_
    exact Option.some.inj (((hmem other).mp hother).symm.trans h)

namespace Profile

variable {p : Profile} {recipe : Recipe} {isRoot : Bool} {a : OptionAssignment}
  {assignments : List OptionAssignment} {options options' : Values} {e : OptionError}
  {c : Configuration}

def applicable (p : Profile) (recipe : Recipe) (isRoot : Bool) : List OptionAssignment :=
  p.options.filter fun a => a.Applies recipe.reference isRoot

/-- The value of an option: that of the last assignment to it that is for the package, or else its
default. An option that is not declared has none. -/
def optionValue? (p : Profile) (recipe : Recipe) (isRoot : Bool) (name : String) : Option String :=
  (recipe.options.get? name).bind fun decl =>
    (((p.applicable recipe isRoot).filter (·.name == name)).getLast?.map (·.value)).or
      decl.default?

/-- What a profile requests of a package, told by its values. -/
structure Requests (p : Profile) (recipe : Recipe) (isRoot : Bool) (c : Configuration) :
    Prop where
  settings : ∀ key value, c.settings.get? key = some value ↔
    p.settings.get? key = some value ∧
      ∃ declared ∈ recipe.settings, key = declared ∨ ∃ rest, key = declared ++ "." ++ rest
  options : ∀ name, c.options.get? name = p.optionValue? recipe isRoot name
  requires : c.requires = ∅

private theorem optionsFor_eq :
    p.optionsFor recipe.reference isRoot = p.applicable recipe isRoot := by
  refine List.filter_congr fun a _ => ?_
  rw [Bool.eq_iff_iff, decide_eq_true_eq]
  exact OptionAssignment.appliesTo_iff

section Assigning

/-- The options after an assignment that is not at fault: one to an option that is not declared is
passed over. -/
def assigned (recipe : Recipe) (options : Values) (a : OptionAssignment) : Values :=
  if (recipe.options.get? a.name).isSome then options.insert a.name a.value else options

private theorem assignOption_eq_error_iff :
    assignOption recipe options a = .error e ↔ a.Fault recipe e := by
  unfold assignOption
  constructor
  · intro h
    split at h
    · rename_i hoption
      split at h
      · rename_i hscope
        cases h
        exact .unknown (Option.isNone_iff_eq_none.mp hscope) hoption
      · cases h
    · rename_i decl hoption
      split at h
      · cases h
      · rename_i hrejects
        cases h
        rw [Bool.not_eq_true, OptionDecl.accepts_eq_false_iff] at hrejects
        exact .rejected hoption hrejects.1 hrejects.2
  · rintro (⟨hscope, hoption⟩ | ⟨hoption, hvalues, hvalue⟩)
    · simp [hoption, hscope]
    · simp [hoption, OptionDecl.accepts_eq_false_iff.mpr ⟨hvalues, hvalue⟩]

private theorem assigned_eq_of_assignOption (h : assignOption recipe options a = .ok options') :
    assigned recipe options a = options' := by
  unfold assignOption at h
  unfold assigned
  split at h
  · rename_i hoption
    split at h
    · cases h
    · cases h
      simp [hoption]
  · rename_i decl hoption
    split at h
    · cases h
      simp [hoption]
    · cases h

private theorem assignOption_eq_ok_iff : assignOption recipe options a = .ok options' ↔
    (∀ e, ¬a.Fault recipe e) ∧ assigned recipe options a = options' := by
  constructor
  · intro h
    refine ⟨fun e hfault => ?_, assigned_eq_of_assignOption h⟩
    rw [assignOption_eq_error_iff.mpr hfault] at h
    cases h
  · rintro ⟨hfaultless, rfl⟩
    cases h : assignOption recipe options a with
    | error e => exact absurd (assignOption_eq_error_iff.mp h) (hfaultless e)
    | ok result => rw [assigned_eq_of_assignOption h]

private theorem foldlM_assignOption_eq_ok_iff :
    assignments.foldlM (assignOption recipe) options = .ok options' ↔
      (∀ a ∈ assignments, ∀ e, ¬a.Fault recipe e) ∧
        assignments.foldl (assigned recipe) options = options' := by
  induction assignments generalizing options with
  | nil => simp [pure, Except.pure]
  | cons a rest ih =>
    rw [List.foldlM_cons, bind_eq_ok_iff]
    simp [assignOption_eq_ok_iff, ih, and_assoc]

private theorem foldlM_assignOption_eq_error_iff :
    assignments.foldlM (assignOption recipe) options = .error e ↔
      ∃ before a after, assignments = before ++ a :: after ∧ a.Fault recipe e ∧
        ∀ b ∈ before, ∀ e', ¬b.Fault recipe e' :=
  foldlM_eq_error_iff fun _ _ _ => assignOption_eq_error_iff

/-- Of several assignments to a declared option the last one counts. -/
theorem get?_foldl_assigned (name : String) :
    (assignments.foldl (assigned recipe) options).get? name =
      ((recipe.options.get? name).bind fun _ =>
        (assignments.filter (·.name == name)).getLast?.map (·.value)).or (options.get? name) := by
  induction assignments generalizing options with
  | nil => cases recipe.options.get? name <;> rfl
  | cons a rest ih =>
    have hget : (assigned recipe options a).get? name =
        ((recipe.options.get? name).bind fun _ =>
          if a.name == name then some a.value else none).or (options.get? name) := by
      unfold assigned
      by_cases hname : a.name = name
      · cases hoption : recipe.options.get? name <;> simp [hname, hoption, OrderedMap.get?_insert]
      · split <;> cases recipe.options.get? name <;>
          simp [hname, Ne.symm hname, OrderedMap.get?_insert]
    rw [List.foldl_cons, ih, hget, List.filter_cons]
    cases recipe.options.get? name with
    | none => rfl
    | some decl =>
      split
      · cases hlast : (rest.filter (·.name == name)).getLast? <;> simp [hlast, List.getLast?_cons]
      · simp

end Assigning

theorem requests_iff : p.Requests recipe isRoot c ↔
    c = ⟨recipe.filterSettings p.settings,
      (p.applicable recipe isRoot).foldl (assigned recipe) recipe.defaultOptions, ∅⟩ := by
  have hsettings : ∀ key value, (recipe.filterSettings p.settings).get? key = some value ↔
      p.settings.get? key = some value ∧
        ∃ declared ∈ recipe.settings, key = declared ∨ ∃ rest, key = declared ++ "." ++ rest := by
    intro key value
    rw [Recipe.filterSettings, OrderedMap.get?_filter, Option.filter_eq_some_iff,
      Recipe.declaresSetting_iff]
  have hoptions : ∀ name,
      ((p.applicable recipe isRoot).foldl (assigned recipe) recipe.defaultOptions).get? name =
        p.optionValue? recipe isRoot name := by
    intro name
    rw [get?_foldl_assigned, Recipe.get?_defaultOptions, optionValue?]
    cases recipe.options.get? name <;> rfl
  constructor
  · intro h
    obtain ⟨settings, options, requires⟩ := c
    rw [Configuration.mk.injEq]
    refine ⟨OrderedMap.ext_get? fun key => Option.ext fun value => ?_,
      OrderedMap.ext_get? fun name => ?_, h.requires⟩
    · rw [hsettings]
      exact h.settings key value
    · rw [hoptions]
      exact h.options name
  · rintro rfl
    exact ⟨hsettings, hoptions, rfl⟩

/-- What becomes of a request for a package. It fails exactly if some assignment for the package is
at fault, and then with the first of them; otherwise it is what the profile requests. -/
structure Configures (p : Profile) (recipe : Recipe) (isRoot : Bool) : Prop where
  fails_iff : (∃ e, p.configure recipe isRoot = .error e) ↔
    ∃ a ∈ p.applicable recipe isRoot, ∃ e, a.Fault recipe e
  error_iff : ∀ e, p.configure recipe isRoot = .error e ↔
    ∃ before a after, p.applicable recipe isRoot = before ++ a :: after ∧ a.Fault recipe e ∧
      ∀ b ∈ before, ∀ e', ¬b.Fault recipe e'
  ok_iff : ∀ c, p.configure recipe isRoot = .ok c ↔
    (∀ a ∈ p.applicable recipe isRoot, ∀ e, ¬a.Fault recipe e) ∧ p.Requests recipe isRoot c

private theorem configure_eq_error_iff : p.configure recipe isRoot = .error e ↔
    ∃ before a after, p.applicable recipe isRoot = before ++ a :: after ∧ a.Fault recipe e ∧
      ∀ b ∈ before, ∀ e', ¬b.Fault recipe e' := by
  rw [configure, optionsFor_eq, bind_eq_error_iff, foldlM_assignOption_eq_error_iff]
  simp [pure, Except.pure]

theorem configure_eq_ok_iff : p.configure recipe isRoot = .ok c ↔
    (∀ a ∈ p.applicable recipe isRoot, ∀ e, ¬a.Fault recipe e) ∧ p.Requests recipe isRoot c := by
  rw [configure, optionsFor_eq, bind_eq_ok_iff, requests_iff]
  simp only [foldlM_assignOption_eq_ok_iff, and_assoc, exists_and_left, exists_eq_left']
  exact and_congr_right fun _ => ⟨fun h => (Except.ok.inj h).symm, fun h => congrArg _ h.symm⟩

/-- A profile configures every recipe, as the root and as a dependency, or names the first of its
assignments that is at fault. -/
theorem configures (p : Profile) (recipe : Recipe) (isRoot : Bool) :
    p.Configures recipe isRoot where
  fails_iff := by
    constructor
    · rintro ⟨e, h⟩
      obtain ⟨before, a, after, hsplit, hfault, -⟩ := configure_eq_error_iff.mp h
      exact ⟨a, by simp [hsplit], e, hfault⟩
    · rintro ⟨a, ha, e, hfault⟩
      cases h : p.configure recipe isRoot with
      | error e' => exact ⟨e', rfl⟩
      | ok c => exact absurd hfault ((configure_eq_ok_iff.mp h).1 a ha e)
  error_iff _ := configure_eq_error_iff
  ok_iff _ := configure_eq_ok_iff

end Profile

end Provision
