import Provision.Proofs.Profile

/-!
What lies under a setting is the same to a recipe that asks for its settings and to the removal of a
setting. The recipe cuts a declared name off a key and looks for a dot after it; the removal looks
for the name and the dot together. So what a recipe keeps of some values and what is left of them
without its settings share the values out, whichever setting is removed first.
-/

namespace Provision

namespace Values

variable {values : Values} {names : List String} {name : String} {entry : String × String}

private theorem mem_entries_remove : entry ∈ (values.remove name).entries ↔
    entry ∈ values.entries ∧ isKeyOrSubKey name entry.1 = false := by
  simp [remove]

/-- One removal after another leaves what lies under none of the names. -/
theorem mem_entries_foldl_remove : entry ∈ (names.foldl remove values).entries ↔
    entry ∈ values.entries ∧ ∀ name ∈ names, isKeyOrSubKey name entry.1 = false := by
  induction names generalizing values with
  | nil => simp
  | cons name rest ih =>
    rw [List.foldl_cons, ih, mem_entries_remove, List.forall_mem_cons, and_assoc]

/-- Two maps share out the entries of a third: each entry is in one of them, with its value, nothing
else is in either, and no key is in both. -/
structure AreSharedOut (whole part rest : Values) : Prop where
  mem_iff : ∀ entry, entry ∈ whole.entries ↔ entry ∈ part.entries ∨ entry ∈ rest.entries
  disjoint : ∀ key ∈ part.keys, key ∉ rest.keys

end Values

namespace Recipe

variable {recipe : Recipe} {values : Values} {order : List String} {key : String}
  {entry : String × String}

/-- Both rules for what lies under a setting say the same. -/
theorem declaresSetting_iff_isKeyOrSubKey : recipe.declaresSetting key = true ↔
    ∃ declared ∈ recipe.settings, Values.isKeyOrSubKey declared key = true := by
  simp only [declaresSetting_iff, Values.isKeyOrSubKey_iff]

private theorem mem_entries_filterSettings : entry ∈ (recipe.filterSettings values).entries ↔
    entry ∈ values.entries ∧ recipe.declaresSetting entry.1 = true := by
  simp [filterSettings]

private theorem mem_entries_foldl_remove (horder : order.Perm recipe.settings) :
    entry ∈ (order.foldl Values.remove values).entries ↔
      entry ∈ values.entries ∧ ¬recipe.declaresSetting entry.1 = true := by
  rw [Values.mem_entries_foldl_remove, declaresSetting_iff_isKeyOrSubKey]
  simp [horder.mem_iff]

/-- What a recipe keeps of some values, and what the removal of all its settings leaves of them, share
the values out. -/
theorem areSharedOut_filterSettings (recipe : Recipe) (values : Values)
    (horder : order.Perm recipe.settings) :
    values.AreSharedOut (recipe.filterSettings values) (order.foldl Values.remove values) where
  mem_iff entry := by
    rw [mem_entries_filterSettings, mem_entries_foldl_remove horder, ← and_or_left,
      and_iff_left (em _)]
  disjoint key hkept hleft := by
    obtain ⟨entry, hentry, rfl⟩ := List.mem_map.mp hkept
    obtain ⟨other, hother, hkey⟩ := List.mem_map.mp hleft
    have hdeclared := (mem_entries_filterSettings.mp hentry).2
    have hundeclared := ((mem_entries_foldl_remove horder).mp hother).2
    rw [hkey] at hundeclared
    exact hundeclared hdeclared

/-- A recipe with a setting under another one, a setting of two parts, and one without a name. -/
def ofNestedSettings : Recipe where
  reference := .ofTexts "pkg" "0.1"
  settings := ["compiler", "compiler.version", "arch.abi", ""]
  options := ∅
  requires := []
  hooks := .none

/-- A key that only begins like a setting is left, and so is one above a setting. -/
theorem areSharedOut_ofNestedSettings :
    let order := ["", "compiler.version", "arch.abi", "compiler"]
    let values : Values := .ofList [("compiler", "gcc"), ("compiler.version", "12"),
      ("compilerx", "no"), ("arch", "arm"), ("arch.abi.float", "hard"), ("arch.abix", "no"),
      ("", "unnamed"), (".x", "unnamed"), ("os", "Linux")]
    order.Perm ofNestedSettings.settings ∧
      values.AreSharedOut (ofNestedSettings.filterSettings values)
        (order.foldl Values.remove values) ∧
      (ofNestedSettings.filterSettings values).keys =
        ["", ".x", "arch.abi.float", "compiler", "compiler.version"] ∧
      (order.foldl Values.remove values).keys = ["arch", "arch.abix", "compilerx", "os"] := by
  intro order values
  have horder : order.Perm ofNestedSettings.settings := by decide
  exact ⟨horder, areSharedOut_filterSettings ofNestedSettings values horder, by decide +kernel,
    by decide +kernel⟩

end Recipe

end Provision
