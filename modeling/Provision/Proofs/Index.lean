import Provision.Catalog
import Provision.Index.Directory
import Provision.Fallible
import Provision.Proofs.OrderedMap

/-!
Recipe indexes hold every recipe under its own reference, however they come about: an index starts
without recipes, and recipes are inserted one by one.
-/

namespace Provision.RecipeIndex

/-- Every recipe stands under its own reference. -/
def IsKeyed (index : RecipeIndex) : Prop :=
  ∀ entry ∈ index.recipes.entries, entry.2.reference = entry.1

variable {index : RecipeIndex} {r : Reference} {recipe : Recipe}

theorem isKeyed_empty : (∅ : RecipeIndex).IsKeyed := by
  intro entry hentry
  cases hentry

theorem IsKeyed.upsert (h : index.IsKeyed) (recipe : Recipe) : (index.upsert recipe).IsKeyed := by
  intro entry hentry
  rcases OrderedMap.mem_of_mem_insertEntry hentry with rfl | hold
  · rfl
  · exact h entry hold

theorem IsKeyed.foldl_upsert (h : index.IsKeyed) (recipes : List Recipe) :
    (recipes.foldl RecipeIndex.upsert index).IsKeyed := by
  induction recipes generalizing index with
  | nil => exact h
  | cons recipe recipes ih => exact ih (h.upsert recipe)

/-- The index of a directory holds every recipe under its own reference. -/
theorem isKeyed_of_load {directory : Directory} (h : load directory = .ok index) :
    index.IsKeyed := by
  unfold load at h
  cases directory with
  | none => cases h
  | some files =>
    obtain ⟨recipes, -, h⟩ := bind_eq_ok_iff.mp h
    cases h
    exact isKeyed_empty.foldl_upsert recipes

theorem mem_ofName {name : PackageName} {v : Version} :
    (v, recipe) ∈ index.ofName name ↔ (⟨name, v⟩, recipe) ∈ index.recipes.entries := by
  simp only [ofName, List.mem_map, List.mem_filter, beq_iff_eq, Prod.mk.injEq]
  constructor
  · rintro ⟨⟨r, recipe⟩, ⟨hmem, rfl⟩, rfl, rfl⟩
    exact hmem
  · intro hmem
    exact ⟨_, ⟨hmem, rfl⟩, rfl, rfl⟩

/-- The recipe of a reference is the one that stands under it, if there is one. -/
theorem recipe?_of_mem (h : (r, recipe) ∈ index.recipes.entries) :
    index.recipe? r = some recipe := by
  have hlookup : (index.ofName r.name).lookup r.version = some recipe := by
    refine OrderedMap.lookup_eq_some_of_forall (mem_ofName.mpr h) fun other hother => ?_
    exact OrderedMap.eq_of_mem_entries (mem_ofName.mp hother) h
  rw [recipe?, hlookup]
  rfl

/-- A recipe that is found under some reference is found under its own. -/
theorem IsKeyed.recipe?_reference (h : index.IsKeyed) (hrecipe : index.recipe? r = some recipe) :
    index.recipe? recipe.reference = some recipe := by
  obtain ⟨entry, hentry, rfl⟩ :=
    List.mem_map.mp (Catalog.mem_recipes_of_recipe? (c := .ofIndex index) hrecipe)
  exact recipe?_of_mem (h entry hentry ▸ hentry)

end Provision.RecipeIndex
