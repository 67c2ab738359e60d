import Provision.Recipe.Basic

/-!
Recipe indexes and catalogs. An index has the recipes that are known, by reference. `available`
lists the versions of a package from the least to the greatest, and `recipe?` finds the recipe of a
reference, where different spellings of one semantic version count as the same version. A catalog
is everything that graph expansion knows about packages: an index together with announced versions,
which are known to exist although no recipe is at hand.
-/

namespace Provision

structure RecipeIndex where
  recipes : OrderedMap Reference Recipe

namespace RecipeIndex

def empty : RecipeIndex := ⟨∅⟩

instance : EmptyCollection RecipeIndex := ⟨empty⟩

def upsert (index : RecipeIndex) (recipe : Recipe) : RecipeIndex :=
  ⟨index.recipes.insert recipe.reference recipe⟩

def size (index : RecipeIndex) : Nat :=
  index.recipes.size

def isEmpty (index : RecipeIndex) : Bool :=
  index.recipes.isEmpty

def ofName (index : RecipeIndex) (name : PackageName) : List (Version × Recipe) :=
  (index.recipes.entries.filter (·.1.name == name)).map fun (r, recipe) => (r.version, recipe)

def available (index : RecipeIndex) (name : PackageName) : List Version :=
  (index.ofName name).map (·.1)

/-- The recipe of a reference: the one of that very version, or else the first whose version is
another spelling of it. -/
def recipe? (index : RecipeIndex) (r : Reference) : Option Recipe :=
  let recipes := index.ofName r.name
  recipes.lookup r.version <|>
    (recipes.find? fun e => (Constraint.exact r.version).isSatisfied e.1).map (·.2)

end RecipeIndex

structure Catalog where
  index : RecipeIndex
  announced : List Reference

namespace Catalog

def ofIndex (index : RecipeIndex) : Catalog := ⟨index, []⟩

def announcedOf (c : Catalog) (name : PackageName) : List Version :=
  (c.announced.filter (·.name == name)).map (·.version)

def available (c : Catalog) (name : PackageName) : List Version :=
  (c.index.available name ++ c.announcedOf name).mergeSort fun a b => (compare a b).isLE

def recipe? (c : Catalog) (r : Reference) : Option Recipe :=
  c.index.recipe? r

def recipes (c : Catalog) : List Recipe :=
  c.index.recipes.entries.map (·.2)

def names (c : Catalog) : List PackageName :=
  (c.index.recipes.entries.map (·.1) ++ c.announced).map (·.name)

theorem mem_names_of_mem_available {c : Catalog} {name : PackageName} {v : Version}
    (h : v ∈ c.available name) : name ∈ c.names := by
  simp only [available, List.mem_mergeSort, List.mem_append, RecipeIndex.available,
    RecipeIndex.ofName, announcedOf, List.mem_map, List.mem_filter, beq_iff_eq] at h
  simp only [names, List.mem_map, List.mem_append]
  rcases h with ⟨_, ⟨e, ⟨he, rfl⟩, rfl⟩, rfl⟩ | ⟨r, ⟨hr, rfl⟩, rfl⟩
  · exact ⟨e.1, .inl ⟨e, he, rfl⟩, rfl⟩
  · exact ⟨r, .inr hr, rfl⟩

theorem mem_recipes_of_recipe? {c : Catalog} {r : Reference} {recipe : Recipe}
    (h : c.recipe? r = some recipe) : recipe ∈ c.recipes := by
  have hmem : ∃ v, (v, recipe) ∈ c.index.ofName r.name := by
    simp only [recipe?, RecipeIndex.recipe?, Option.orElse_eq_orElse, Option.orElse_eq_or,
      Option.or_eq_some_iff, Option.map_eq_some_iff] at h
    rcases h with h | ⟨-, e, he, rfl⟩
    · obtain ⟨l, r', heq, -⟩ := List.lookup_eq_some_iff.mp h
      exact ⟨r.version, by rw [heq]; simp⟩
    · exact ⟨e.1, List.mem_of_find?_eq_some he⟩
  obtain ⟨v, hv⟩ := hmem
  simp only [RecipeIndex.ofName, List.mem_map, List.mem_filter, Prod.mk.injEq] at hv
  obtain ⟨e, ⟨he, -⟩, -, rfl⟩ := hv
  exact List.mem_map_of_mem he

end Catalog

end Provision
