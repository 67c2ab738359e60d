import Mathlib.Data.List.Find
import Mathlib.Data.List.Forall2
import Mathlib.Data.List.Nodup
import Mathlib.Logic.Relation
import Provision.Proofs.Expansion.Evaluation
import Provision.Proofs.Graph.LongestPaths
import Provision.Proofs.Releases
import Provision.Proofs.VersionLookup

/-!
Spellings of one release. An exact constraint holds for every spelling of its version and chooses
the greatest that is listed, while a lookup takes the version as it is written, or the least
spelling where that one is not listed. Both find a recipe in the same cases, but the same recipe
only where the greatest spelling is the one that was written, or the only one.
-/

namespace Provision

namespace RecipeIndex

def spellings (index : RecipeIndex) (name : PackageName) (v : Version) : List Version :=
  (index.available name).filter (Constraint.exact v).isSatisfied

/-- The spelling that a lookup takes: the version itself if it is listed, and else the least. -/
def lookedUp? (index : RecipeIndex) (name : PackageName) (v : Version) : Option Version :=
  if v ∈ index.available name then some v else (index.spellings name v).head?

variable {index : RecipeIndex} {name : PackageName} {v w : Version} {recipe : Recipe}
  {requester : Reference}

private theorem mem_spellings_self : v ∈ index.spellings name v ↔ v ∈ index.available name := by
  rw [spellings, List.mem_filter, Constraint.isSatisfied_exact_self]
  exact and_iff_left rfl

private theorem mem_available_of_mem_spellings (h : w ∈ index.spellings name v) :
    w ∈ index.available name :=
  (List.mem_filter.mp h).1

private theorem nodup_spellings (index : RecipeIndex) (name : PackageName) (v : Version) :
    (index.spellings name v).Nodup :=
  ((index.pairwise_available_lt name).imp OrderedMap.ne_of_compare_lt).filter _

private theorem lookedUp?_isSome_iff :
    (index.lookedUp? name v).isSome ↔ index.spellings name v ≠ [] := by
  unfold lookedUp?
  split
  · rename_i hlisted
    exact iff_of_true rfl (List.ne_nil_of_mem (mem_spellings_self.mpr hlisted))
  · rw [List.isSome_head?]

private theorem mem_spellings_of_lookedUp? (h : index.lookedUp? name v = some w) :
    w ∈ index.spellings name v := by
  unfold lookedUp? at h
  split at h
  · rename_i hlisted
    cases h
    exact mem_spellings_self.mpr hlisted
  · exact List.mem_of_head? h

private theorem recipe?_eq_bind (index : RecipeIndex) (name : PackageName) (v : Version) :
    index.recipe? ⟨name, v⟩ =
      (index.lookedUp? name v).bind fun w => index.recipes.get? ⟨name, w⟩ := by
  by_cases hlisted : v ∈ index.available name
  · rw [recipe?_eq_get? hlisted, lookedUp?, if_pos hlisted, Option.bind_some]
  · have hlookup : (index.ofName name).lookup v = none := by
      refine List.lookup_eq_none_iff.mpr fun entry hentry => ?_
      have hne : v ≠ entry.1 := by
        rintro rfl
        exact hlisted (List.mem_map_of_mem hentry)
      exact bne_iff_ne.mpr hne
    rw [recipe?, hlookup, Option.orElse_eq_orElse, Option.orElse_eq_or, Option.none_or, lookedUp?,
      if_neg hlisted, spellings, List.head?_filter, available, List.find?_map]
    cases hfind : (index.ofName name).find? fun e => (Constraint.exact v).isSatisfied e.1 with
    | none => simp [hfind]
    | some entry =>
      have hget : index.recipes.get? ⟨name, entry.1⟩ = some entry.2 :=
        OrderedMap.get?_eq_some_iff.mpr (mem_ofName.mp (List.mem_of_find?_eq_some hfind))
      simp [hfind, hget]

/-- A recipe that is found has the reference of the spelling that the lookup takes. -/
theorem IsKeyed.reference_of_recipe? (h : index.IsKeyed)
    (hrecipe : index.recipe? ⟨name, v⟩ = some recipe) :
    ∃ w, index.lookedUp? name v = some w ∧ recipe.reference = ⟨name, w⟩ := by
  rw [recipe?_eq_bind, Option.bind_eq_some_iff] at hrecipe
  obtain ⟨w, hw, hget⟩ := hrecipe
  exact ⟨w, hw, h _ (OrderedMap.get?_eq_some_iff.mp hget)⟩

private theorem exists_recipe?_iff :
    (∃ recipe, index.recipe? ⟨name, v⟩ = some recipe) ↔ index.spellings name v ≠ [] := by
  rw [← lookedUp?_isSome_iff, Option.isSome_iff_exists]
  constructor
  · rintro ⟨recipe, hrecipe⟩
    rw [recipe?_eq_bind, Option.bind_eq_some_iff] at hrecipe
    obtain ⟨w, hw, -⟩ := hrecipe
    exact ⟨w, hw⟩
  · rintro ⟨w, hw⟩
    have hlisted := mem_available_of_mem_spellings (mem_spellings_of_lookedUp? hw)
    obtain ⟨recipe, hget⟩ := mem_available_iff.mp hlisted
    exact ⟨recipe, by rw [recipe?_eq_bind, hw, Option.bind_some, hget]⟩

private theorem chooseVersion_exact_eq_ok_iff :
    (Catalog.ofIndex index).chooseVersion name (.exact v) requester = .ok w ↔
      (index.spellings name v).getLast? = some w := by
  rw [spellings, List.getLast?_filter, Catalog.chooseVersion, Catalog.available_ofIndex]
  split
  · rename_i hempty
    simp [List.isEmpty_iff.mp hempty]
  · split
    · rename_i hfind
      simp [hfind]
    · rename_i hfind
      simp [hfind]

/-- The lookup takes the greatest spelling just where that one is written, or no other one is
listed. -/
theorem lookedUp?_eq_iff (hlast : (index.spellings name v).getLast? = some w) :
    index.lookedUp? name v = some w ↔ w = v ∨ index.spellings name v = [w] := by
  unfold lookedUp?
  split
  · rename_i hlisted
    rw [Option.some.injEq]
    constructor
    · rintro rfl
      exact .inl rfl
    · rintro (rfl | hsingle)
      · rfl
      · have hself := mem_spellings_self.mpr hlisted
        rw [hsingle, List.mem_singleton] at hself
        exact hself
  · rename_i hunlisted
    have hne : w ≠ v := by
      rintro rfl
      exact hunlisted (mem_spellings_self.mp (List.mem_of_getLast? hlast))
    rw [or_iff_right hne]
    constructor
    · intro hhead
      have hcons := List.ne_nil_of_mem (List.mem_of_head? hhead)
      have hends : (index.spellings name v).head hcons = (index.spellings name v).getLast hcons := by
        rw [← Option.some.injEq, ← List.head?_eq_some_head, ← List.getLast?_eq_some_getLast, hhead,
          hlast]
      obtain ⟨u, hsingle⟩ := ((index.nodup_spellings name v).head_eq_getLast_iff hcons).mp hends
      rw [hsingle] at hhead ⊢
      rw [← Option.some.inj hhead]
    · intro hsingle
      rw [hsingle]
      rfl

end RecipeIndex

namespace Catalog

variable {c : Catalog} {root : RootSpec} {g : Graph} {e : Edge} {r : Reference}

/-- No edge leads back to the root. -/
theorem IsSound.pos_target (h : c.IsSound root g) (hacyclic : g.IsAcyclic) (he : e ∈ g.edges) :
    0 < e.target := by
  have hreaches := h.reaches e.source (h.edgesInside e he).1
  refine Nat.pos_of_ne_zero fun htarget => hacyclic 0 ?_
  exact Relation.TransGen.tail' hreaches ⟨e, he, rfl, htarget⟩

private theorem IsSound.isSatisfied_target (h : c.IsSound root g) (he : e ∈ g.edges)
    (hr : g.IsPackage e.target r) : e.constraint.isSatisfied r.version = true := by
  obtain ⟨n, hn⟩ := Graph.exists_getElem?_of_lt_size (h.edgesInside e he).1
  obtain ⟨l, hl, hget⟩ := List.getElem_of_mem (Graph.mem_dependencies.mpr ⟨he, rfl⟩)
  have hmeets := h.meets e.source n hn
  obtain ⟨s, hs, -, hfits⟩ := (hmeets.get hl (hmeets.length_eq ▸ hl)).target
  rw [List.get_eq_getElem, hget] at hs hfits
  exact hr.unique hs ▸ hfits

/-- The target of an edge has the greatest version that the first edge to it allows. -/
theorem IsSound.exists_first (h : c.IsSound root g) (hacyclic : g.IsAcyclic) (he : e ∈ g.edges)
    (hr : g.IsPackage e.target r) :
    ∃ first, (g.dependents e.target).head? = some first ∧
      c.IsGreatest r.name first.constraint r.version := by
  obtain ⟨n, hn, -, rfl⟩ := hr
  obtain ⟨first, rest, hfirst, hgreatest⟩ :=
    h.greatest e.target n (h.pos_target hacyclic he) hn
  exact ⟨first, by rw [hfirst, List.head?_cons], hgreatest⟩

/-- A graph that is built keeps all promises and has no cycle. -/
theorem isSound_and_isAcyclic (h : c.build root = .ok g) : c.IsSound root g ∧ g.IsAcyclic := by
  obtain ⟨hlayers, pins, i, met, x, hrestarted, hunderway, hlast, rfl⟩ := build_eq_ok h
  have hsound := isSound_of_underway hrestarted hunderway hlast
  exact ⟨hsound, (Graph.exists_layers_iff hsound.edgesInside).mp hlayers⟩

end Catalog

namespace RecipeIndex

/-- What an index makes of a version of a package: in an exact requirement, in a lookup, and in
graphs. -/
structure FindsRelease (index : RecipeIndex) (name : PackageName) (v : Version) : Prop where
  /-- A requirement finds a version just if a lookup finds a recipe. -/
  chosen_iff : ∀ requester,
    (∃ w, (Catalog.ofIndex index).chooseVersion name (.exact v) requester = .ok w) ↔
      ∃ recipe, index.recipe? ⟨name, v⟩ = some recipe
  chosen : ∀ requester w,
    (Catalog.ofIndex index).chooseVersion name (.exact v) requester = .ok w →
      (index.spellings name v).getLast? = some w ∧
        ∃ recipe, index.recipe? ⟨name, w⟩ = some recipe ∧ recipe.reference = ⟨name, w⟩
  found : ∀ recipe, index.recipe? ⟨name, v⟩ = some recipe →
    ∃ w, index.lookedUp? name v = some w ∧ recipe.reference = ⟨name, w⟩
  /-- They find the same just where the greatest spelling is the one that was written, or the only
  one. -/
  same_iff : ∀ requester w recipe,
    (Catalog.ofIndex index).chooseVersion name (.exact v) requester = .ok w →
      index.recipe? ⟨name, v⟩ = some recipe →
        (recipe.reference = ⟨name, w⟩ ↔ w = v ∨ index.spellings name v = [w])
  root : ∀ g, (Catalog.ofIndex index).build (.package ⟨name, v⟩) = .ok g →
    ∃ w, index.lookedUp? name v = some w ∧ g.IsPackage 0 ⟨name, w⟩
  /-- An exact requirement leads to a spelling, and to the greatest if it is the first that leads
  there. -/
  required : ∀ root g e r, (Catalog.ofIndex index).build root = .ok g → e ∈ g.edges →
    e.constraint = .exact v → g.IsPackage e.target r → r.name = name →
      r.version ∈ index.spellings name v ∧
        ((g.dependents e.target).head? = some e →
          (index.spellings name v).getLast? = some r.version)

/-- Requirements and lookups find a recipe for the same versions. Which one they find differs where
a release has several spellings, and so do the graphs that they lead to. -/
theorem findsRelease_of_isKeyed {index : RecipeIndex} (h : index.IsKeyed) (name : PackageName)
    (v : Version) :
    index.FindsRelease name v where
  chosen_iff requester := by
    simp only [exists_recipe?_iff, chooseVersion_exact_eq_ok_iff]
    rw [← Option.isSome_iff_exists, List.getLast?_isSome]
  chosen requester w hchoose := by
    have hlast := chooseVersion_exact_eq_ok_iff.mp hchoose
    have hlisted := mem_available_of_mem_spellings (List.mem_of_getLast? hlast)
    obtain ⟨recipe, hget⟩ := mem_available_iff.mp hlisted
    exact ⟨hlast, recipe, (recipe?_eq_get? hlisted).trans hget,
      h _ (OrderedMap.get?_eq_some_iff.mp hget)⟩
  found recipe hrecipe := h.reference_of_recipe? hrecipe
  same_iff requester w recipe hchoose hrecipe := by
    obtain ⟨u, hfound, hreference⟩ := h.reference_of_recipe? hrecipe
    rw [← lookedUp?_eq_iff (chooseVersion_exact_eq_ok_iff.mp hchoose), hfound, hreference]
    simp
  root g hbuild := by
    obtain ⟨hsound, -⟩ := Catalog.isSound_and_isAcyclic hbuild
    obtain ⟨n, hn⟩ := Graph.exists_getElem?_of_lt_size hsound.nonempty
    have hentered := hsound.entered 0 n hn
    generalize hzero : 0 = i at hentered
    cases hentered with
    | package hrecipe =>
      obtain ⟨w, hw, hreference⟩ := h.reference_of_recipe? hrecipe
      exact ⟨w, hw, _, hn, rfl, hreference⟩
    | dependency hpos => omega
  required root g e r hbuild he hconstraint hr hname := by
    obtain ⟨hsound, hacyclic⟩ := Catalog.isSound_and_isAcyclic hbuild
    have hfits := hsound.isSatisfied_target he hr
    obtain ⟨first, hfirst, hgreatest⟩ := hsound.exists_first hacyclic he hr
    rw [hconstraint] at hfits
    rw [hname] at hgreatest
    have hlisted := Catalog.mem_available_ofIndex.mp hgreatest.available
    refine ⟨List.mem_filter.mpr ⟨hlisted, hfits⟩, fun hhead => ?_⟩
    obtain rfl := Option.some.inj (hfirst.symm.trans hhead)
    rw [hconstraint] at hgreatest
    have hchoose : (Catalog.ofIndex index).chooseVersion name (.exact v) consumerReference =
        .ok r.version := Catalog.chooseVersion_eq_iff.mpr (.greatest hgreatest)
    exact chooseVersion_exact_eq_ok_iff.mp hchoose

/-- An index with two spellings of one release. -/
def ofTwoSpellings : RecipeIndex :=
  ofRecipes [⟨.ofTexts "lib" "1.0", [], ∅, [], .none⟩, ⟨.ofTexts "lib" "1.0.0", [], ∅, [], .none⟩]

theorem findsRelease_ofTwoSpellings :
    ofTwoSpellings.IsKeyed ∧ ofTwoSpellings.FindsRelease (.ofText "lib") (.ofText "1.0") := by
  have hkeyed : ofTwoSpellings.IsKeyed := isKeyed_ofRecipes _
  exact ⟨hkeyed, findsRelease_of_isKeyed hkeyed _ _⟩

/-- A requirement and a lookup of the same text find different recipes, and so do the graphs of a
consumer with that requirement and of the package itself. -/
theorem chosen_ne_found_ofTwoSpellings :
    let c : Catalog := .ofIndex ofTwoSpellings
    let r : Reference := .ofTexts "lib" "1.0"
    c.chooseVersion r.name (.exact r.version) consumerReference = .ok (.ofText "1.0.0") ∧
      (c.recipe? r).map (·.reference) = some r ∧
      (∃ g, c.build (.consumer [⟨r.name, .exact r.version, false, true⟩]) = .ok g ∧
        g.nodes.map (·.reference.version.text) = ["virtual", "1.0.0"]) ∧
      ∃ g, c.build (.package r) = .ok g ∧ g.nodes.map (·.reference.version.text) = ["1.0"] := by
  intro c r
  have hchosen : (ofTwoSpellings.spellings r.name r.version).getLast? = some (.ofText "1.0.0") := by
    decide +kernel
  have hfound : (c.recipe? r).map (·.reference) = some r := by decide +kernel
  -- the bounds leave room for the consumer, the library and the end of the queue
  have hrequired : (Catalog.expandFromWithin ofTwoSpellings
      (.consumer [⟨.ofText "lib", .exact (.ofText "1.0"), false, true⟩]) 3 1 []).bind (fun result =>
        result.toOption.map fun x => x.graph.nodes.map (·.reference.version.text)) =
      some ["virtual", "1.0.0"] := by decide +kernel
  have hroot : (c.build (.package r)).toOption.map
      (fun g => g.nodes.map (·.reference.version.text)) = some ["1.0"] := by decide +kernel
  exact ⟨chooseVersion_exact_eq_ok_iff.mpr hchosen, hfound,
    Catalog.exists_build_of_within (fun g => g.nodes.map (·.reference.version.text)) hrequired,
    exists_ok_of_map_toOption hroot⟩

end RecipeIndex

end Provision
