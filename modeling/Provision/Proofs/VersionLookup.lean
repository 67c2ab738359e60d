import Mathlib.Data.List.Sort
import Provision.Proofs.Expansion.Soundness
import Provision.Proofs.Index

/-!
Versions of a package in an index that recipes were put into one after the other. Each version is
listed once, in increasing order, with the recipe that came last under it; recipes of different
references may come in any order. A constraint chooses the greatest listed version that satisfies
it.
-/

namespace Provision

namespace RecipeIndex

/-- The index of recipes that are inserted one after the other. -/
def ofRecipes (recipes : List Recipe) : RecipeIndex :=
  recipes.foldl upsert ∅

variable {index : RecipeIndex} {recipes : List Recipe} {r : Reference} {name : PackageName}
  {v : Version}

theorem isKeyed_ofRecipes (recipes : List Recipe) : (ofRecipes recipes).IsKeyed :=
  isKeyed_empty.foldl_upsert recipes

private theorem recipes_foldl_upsert (recipes : List Recipe) (index : RecipeIndex) :
    (recipes.foldl upsert index).recipes =
      recipes.foldl (fun m recipe => m.insert recipe.reference recipe) index.recipes := by
  induction recipes generalizing index with
  | nil => rfl
  | cons recipe recipes ih => exact ih (index.upsert recipe)

private theorem lookup_map_reference (recipes : List Recipe) (r : Reference) :
    (recipes.map fun recipe => (recipe.reference, recipe)).lookup r =
      recipes.find? (·.reference == r) := by
  induction recipes with
  | nil => rfl
  | cons recipe recipes ih =>
    rw [List.map_cons, List.lookup_cons, List.find?_cons, ih, BEq.comm]

/-- Under a reference stands the last recipe that was inserted there. -/
theorem get?_ofRecipes (recipes : List Recipe) (r : Reference) :
    (ofRecipes recipes).recipes.get? r = recipes.reverse.find? (·.reference == r) := by
  have hlist : (ofRecipes recipes).recipes =
      .ofList (recipes.map fun recipe => (recipe.reference, recipe)) := by
    rw [ofRecipes, recipes_foldl_upsert, OrderedMap.ofList, List.foldl_map]
    rfl
  rw [hlist, OrderedMap.get?_ofList, ← List.map_reverse, lookup_map_reference]

theorem mem_available_iff :
    v ∈ index.available name ↔ ∃ recipe, index.recipes.get? ⟨name, v⟩ = some recipe := by
  simp only [OrderedMap.get?_eq_some_iff, ← mem_ofName, available, List.mem_map]
  constructor
  · rintro ⟨⟨w, recipe⟩, hmem, rfl⟩
    exact ⟨recipe, hmem⟩
  · rintro ⟨recipe, hmem⟩
    exact ⟨(v, recipe), hmem, rfl⟩

/-- The recipe of a listed version is the one that stands under it. -/
theorem recipe?_eq_get? (h : v ∈ index.available name) :
    index.recipe? ⟨name, v⟩ = index.recipes.get? ⟨name, v⟩ := by
  obtain ⟨recipe, hget⟩ := mem_available_iff.mp h
  rw [hget, recipe?_of_mem (OrderedMap.get?_eq_some_iff.mp hget)]

/-- Versions are listed in strictly increasing order. -/
theorem pairwise_available_lt (index : RecipeIndex) (name : PackageName) :
    (index.available name).Pairwise fun v w => compare v w = .lt := by
  rw [available, ofName, List.map_map, List.pairwise_map, List.pairwise_filter]
  refine index.recipes.sorted.imp fun {a b} hlt ha hb => ?_
  have hsame : compareOn Reference.name a.1 b.1 = .eq := by
    rw [compareOn, beq_iff_eq.mp ha, beq_iff_eq.mp hb]
    exact Std.ReflCmp.compare_self
  rcases Ordering.then_eq_lt.mp hlt with hname | ⟨-, hversion⟩
  · rw [hsame] at hname
    cases hname
  · exact hversion

private theorem ofRecipes_congr {others : List Recipe}
    (h : ∀ r, others.filter (·.reference == r) = recipes.filter (·.reference == r)) :
    ofRecipes others = ofRecipes recipes := by
  have hrecipes : (ofRecipes others).recipes = (ofRecipes recipes).recipes := by
    refine OrderedMap.ext_get? fun r => ?_
    rw [get?_ofRecipes, get?_ofRecipes, ← List.getLast?_filter, ← List.getLast?_filter, h]
  exact congrArg RecipeIndex.mk hrecipes

end RecipeIndex

namespace Catalog

/-- What a constraint chooses among the versions of a package. -/
inductive Chooses (c : Catalog) (name : PackageName) (constraint : Constraint)
    (requester : Reference) : Except GraphError Version → Prop
  | greatest {v : Version} (hgreatest : c.IsGreatest name constraint v) :
      Chooses c name constraint requester (.ok v)
  | unsatisfied (hlisted : c.available name ≠ [])
      (hnone : ∀ v ∈ c.available name, constraint.isSatisfied v = false) :
      Chooses c name constraint requester
        (.error (.unsolvable name constraint requester (c.available name)))
  | unlisted (hempty : c.available name = []) :
      Chooses c name constraint requester (.error (.notFound name.text requester))

variable {c : Catalog} {index : RecipeIndex} {name : PackageName} {constraint : Constraint}
  {requester : Reference} {v w : Version} {x y : Except GraphError Version}

theorem available_ofIndex (index : RecipeIndex) (name : PackageName) :
    (ofIndex index).available name = index.available name := by
  rw [available, announcedOf, ofIndex, List.filter_nil, List.map_nil, List.append_nil]
  refine List.mergeSort_of_pairwise ((index.pairwise_available_lt name).imp fun hlt => ?_)
  rw [hlt]
  rfl

private theorem IsGreatest.unique (hv : c.IsGreatest name constraint v)
    (hw : c.IsGreatest name constraint w) : v = w :=
  Std.LawfulEqOrd.eq_of_compare <| Std.OrientedCmp.isLE_antisymm
    (hw.greatest v hv.available hv.satisfies) (hv.greatest w hw.available hw.satisfies)

private theorem chooses_chooseVersion (c : Catalog) (name : PackageName) (constraint : Constraint)
    (requester : Reference) :
    c.Chooses name constraint requester (c.chooseVersion name constraint requester) := by
  cases hchoose : c.chooseVersion name constraint requester with
  | ok v => exact .greatest (isGreatest_of_chooseVersion hchoose)
  | error e =>
    simp only [chooseVersion] at hchoose
    split at hchoose
    · rename_i hempty
      cases hchoose
      exact .unlisted (List.isEmpty_iff.mp hempty)
    · rename_i hlisted
      split at hchoose
      · cases hchoose
      · rename_i hfind
        cases hchoose
        refine .unsatisfied (fun hempty => hlisted (List.isEmpty_iff.mpr hempty)) fun v hv => ?_
        simpa using List.find?_eq_none.mp hfind v (List.mem_reverse.mpr hv)

/-- The ways to choose exclude each other, and each of them has one result. -/
theorem Chooses.unique (hx : c.Chooses name constraint requester x)
    (hy : c.Chooses name constraint requester y) : x = y := by
  cases hx with
  | greatest hv =>
    cases hy with
    | greatest hw => rw [hv.unique hw]
    | unsatisfied _ hnone => exact absurd hv.satisfies (by simp [hnone _ hv.available])
    | unlisted hempty => exact absurd hv.available (by simp [hempty])
  | unsatisfied hlisted hnone =>
    cases hy with
    | greatest hw => exact absurd hw.satisfies (by simp [hnone _ hw.available])
    | unsatisfied => rfl
    | unlisted hempty => exact absurd hempty hlisted
  | unlisted hempty =>
    cases hy with
    | greatest hw => exact absurd hw.available (by simp [hempty])
    | unsatisfied hlisted => exact absurd hempty hlisted
    | unlisted => rfl

theorem chooseVersion_eq_iff :
    c.chooseVersion name constraint requester = x ↔ c.Chooses name constraint requester x := by
  have hchooses := c.chooses_chooseVersion name constraint requester
  constructor
  · rintro rfl
    exact hchooses
  · exact hchooses.unique

end Catalog

/-- What an index knows of the recipes that were inserted one after the other. -/
structure RecipeIndex.Recalls (index : RecipeIndex) (recipes : List Recipe) : Prop where
  mem_available : ∀ name v,
    v ∈ index.available name ↔ ∃ recipe ∈ recipes, recipe.reference = ⟨name, v⟩
  increasing : ∀ name, (index.available name).Pairwise fun v w => compare v w = .lt
  /-- The recipe of a listed version is the last one that was inserted under it. -/
  last : ∀ name, ∀ v ∈ index.available name, ∃ before recipe after,
    recipes = before ++ recipe :: after ∧ recipe.reference = ⟨name, v⟩ ∧
      (∀ later ∈ after, later.reference ≠ ⟨name, v⟩) ∧ index.recipe? ⟨name, v⟩ = some recipe
  /-- Only the order among recipes of the same reference counts. -/
  reordered : ∀ others : List Recipe,
    (∀ r, others.filter (·.reference == r) = recipes.filter (·.reference == r)) →
      RecipeIndex.ofRecipes others = index
  available_eq : ∀ name, (Catalog.ofIndex index).available name = index.available name
  chooses : ∀ name constraint requester result,
    (Catalog.ofIndex index).chooseVersion name constraint requester = result ↔
      (Catalog.ofIndex index).Chooses name constraint requester result

/-- An index knows each version once, with its last recipe, and chooses among these versions. -/
theorem RecipeIndex.recalls_ofRecipes (recipes : List Recipe) :
    (ofRecipes recipes).Recalls recipes where
  mem_available name v := by
    simp only [mem_available_iff, get?_ofRecipes, ← Option.isSome_iff_exists, List.find?_isSome,
      List.mem_reverse, beq_iff_eq]
  increasing := pairwise_available_lt _
  last name v hv := by
    obtain ⟨recipe, hget⟩ := mem_available_iff.mp hv
    have hrecipe := (recipe?_eq_get? hv).trans hget
    rw [get?_ofRecipes, List.find?_eq_some_iff_append] at hget
    obtain ⟨hreference, after, before, hsplit, hafter⟩ := hget
    refine ⟨before.reverse, recipe, after.reverse, ?_, beq_iff_eq.mp hreference, ?_, hrecipe⟩
    · rw [← List.reverse_reverse recipes, hsplit]
      simp
    · intro later hlater
      simpa using hafter later (List.mem_reverse.mp hlater)
  reordered others h := ofRecipes_congr h
  available_eq := Catalog.available_ofIndex _
  chooses name constraint requester result := Catalog.chooseVersion_eq_iff

end Provision
