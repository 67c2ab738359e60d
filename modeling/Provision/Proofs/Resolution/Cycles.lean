import Provision.Proofs.Expansion.Evaluation
import Provision.Proofs.Expansion.Failures
import Provision.Proofs.Index
import Provision.Proofs.Resolution.Stages

/-!
Cycles among packages. An edge that would close one is refused when it is met, so that the graph of
an expansion is acyclic in every state and the layers of a graph that has been built are always
found. What is refused is a cycle: each package on the path that is reported requires the next one.
-/

namespace Provision

namespace Graph

variable {g : Graph} {j : Nat} {r : Reference}

/-- The reference of a node, and that of a consumer beyond the nodes. -/
def referenceAt (g : Graph) (j : Nat) : Reference :=
  (g.nodes[j]?.map (·.reference)).getD consumerReference

private theorem IsPackage.referenceAt_eq (h : g.IsPackage j r) : g.referenceAt j = r := by
  obtain ⟨n, hn, -, rfl⟩ := h
  rw [referenceAt, hn]
  rfl

/-- The references of packages are all there. -/
theorem filterMap_references {indexes : List Nat} (h : ∀ j ∈ indexes, ∃ r, g.IsPackage j r) :
    (indexes.filterMap fun j => g.nodes[j]?.map (·.reference)) = indexes.map g.referenceAt := by
  rw [← List.filterMap_eq_map]
  refine List.filterMap_congr fun j hj => ?_
  obtain ⟨r, n, hn, -⟩ := h j hj
  rw [Function.comp_apply, referenceAt, hn]
  rfl

end Graph

namespace Expansion

variable {c : Catalog} {root : RootSpec} {pins : List Pin} {x : Expansion} {i j k : Nat}
  {met left : List Requirement}

theorem Underway.metOf_subset {n : Node} (h : Underway c root pins i met left x)
    (hn : x.graph.nodes[j]? = some n) : metOf root i met j n ⊆ requirementsOf root n := by
  unfold metOf
  split
  · exact List.Subset.refl _
  · split
    · rename_i heq
      obtain ⟨m, hm, hreqs⟩ := h.exists_node
      obtain rfl : n = m := Option.some.inj (hn.symm.trans (heq ▸ hm))
      rw [hreqs]
      exact List.subset_append_left met left
    · exact List.nil_subset _

/-- An edge leads to the package of a name that its source requires. -/
theorem Underway.exists_requirement (h : Underway c root pins i met left x)
    (hpins : ∀ pin ∈ pins, pin.name ∈ c.overrideNames root) (hedge : x.graph.HasEdge j k) :
    ∃ n, x.graph.nodes[j]? = some n ∧ ∃ req ∈ requirementsOf root n, req.isOverride = false ∧
      ∃ s, x.graph.IsPackage k s ∧ s.name = req.name := by
  obtain ⟨e, he, rfl, rfl⟩ := hedge
  obtain ⟨n, hn⟩ := Graph.exists_getElem?_of_lt_size (h.edgesInside e he).1
  obtain ⟨l, hl, hget⟩ := List.getElem_of_mem (Graph.mem_dependencies.mpr ⟨he, rfl⟩)
  have hmeets := h.meets hpins e.source n hn
  have hreq := hmeets.get hl (hmeets.length_eq ▸ hl)
  obtain ⟨s, hs, hname, -⟩ := hreq.target
  rw [List.get_eq_getElem, hget] at hs
  obtain ⟨hmem, hplain⟩ := List.mem_filter.mp (List.get_mem _ _)
  exact ⟨n, hn, _, h.metOf_subset hn hmem, by simpa using hplain, s, hs, hname⟩

private theorem Entered.recipe?_reference {n : Node} {recipe : Recipe} (h : Entered c root i n)
    (hkeyed : c.index.IsKeyed) (hrecipe : n.recipe? = some recipe) :
    c.recipe? n.reference = some recipe := by
  cases h with
  | consumer => cases hrecipe
  | package hfound =>
    cases hrecipe
    exact hkeyed.recipe?_reference hfound
  | dependency hi hfound =>
    cases hrecipe
    exact hfound

end Expansion

namespace Catalog

open Expansion

/-- The recipe of a reference requires the name of another one, and not as an override. -/
def Requires (c : Catalog) (r s : Reference) : Prop :=
  ∃ recipe, c.recipe? r = some recipe ∧
    ∃ req ∈ recipe.requires, req.isOverride = false ∧ req.name = s.name

/-- A list of references leads from requirement to requirement back to where it begins. -/
structure IsCycle (c : Catalog) (path : List Reference) : Prop where
  two_le_length : 2 ≤ path.length
  head?_eq_getLast? : path.head? = path.getLast?
  isChain : path.IsChain c.Requires

variable {c : Catalog} {root : RootSpec} {pins : List Pin} {x : Expansion} {i j k : Nat}
  {met left : List Requirement}

private theorem requires_of_isPackage {r s : Reference} {n : Node} {req : Requirement}
    (h : Underway c root pins i met left x) (hkeyed : c.index.IsKeyed)
    (hr : x.graph.IsPackage j r) (hn : x.graph.nodes[j]? = some n)
    (hreq : req ∈ requirementsOf root n) (hplain : req.isOverride = false)
    (hname : s.name = req.name) : c.Requires r s := by
  obtain ⟨m, hm, hpackage, rfl⟩ := hr
  obtain rfl : m = n := Option.some.inj (hm.symm.trans hn)
  cases hrecipe : m.recipe? with
  | none => simp [Node.isVirtual, hrecipe] at hpackage
  | some recipe =>
    rw [requirementsOf, hrecipe] at hreq
    exact ⟨recipe, (h.entered j m hm).recipe?_reference hkeyed hrecipe, req, hreq, hplain,
      hname.symm⟩

/-- An edge joins a package to another one that it requires. -/
theorem requires_of_hasEdge {r : Reference} (h : Underway c root pins i met left x)
    (hkeyed : c.index.IsKeyed) (hpins : ∀ pin ∈ pins, pin.name ∈ c.overrideNames root)
    (hr : x.graph.IsPackage j r) (hedge : x.graph.HasEdge j k) :
    ∃ s, x.graph.IsPackage k s ∧ c.Requires r s := by
  obtain ⟨n, hn, req, hreq, hplain, s, hs, hname⟩ := h.exists_requirement hpins hedge
  exact ⟨s, hs, requires_of_isPackage h hkeyed hr hn hreq hplain hname⟩

/-- The path from a chosen node to the node in hand, whose requirement asks for the chosen node
again, is a cycle of references. -/
theorem isCycle_cycleAlong {req : Requirement} {chosen : Choice} {path : List Nat}
    (h : Underway c root pins i met (req :: left) x) (hkeyed : c.index.IsKeyed)
    (hpins : ∀ pin ∈ pins, pin.name ∈ c.overrideNames root) (hplain : req.isOverride = false)
    (hchosen : x.choice? req.name = some chosen) (hpath : x.graph.path? chosen.node i = some path) :
    c.IsCycle (x.cycleAlong path chosen.node) := by
  have hwalk := Graph.isPath_of_path? hpath
  have hstart := h.isPackage_choice hchosen
  have hpackages : ∀ j ∈ path, ∃ r, x.graph.IsPackage j r := by
    refine hwalk.forall_mem ⟨_, hstart⟩ fun a b hab ⟨r, hr⟩ => ?_
    obtain ⟨s, hs, -⟩ := requires_of_hasEdge h hkeyed hpins hr hab
    exact ⟨s, hs⟩
  have hreferences : x.cycleAlong path chosen.node =
      (path ++ [chosen.node]).map x.graph.referenceAt := by
    refine Graph.filterMap_references fun j hj => ?_
    rcases List.mem_append.mp hj with hj | hj
    · exact hpackages j hj
    · exact ⟨_, List.mem_singleton.mp hj ▸ hstart⟩
  have hsteps : path.IsChain fun a b =>
      c.Requires (x.graph.referenceAt a) (x.graph.referenceAt b) := by
    refine hwalk.chain.imp_of_mem_imp fun {a b} ha _ hab => ?_
    obtain ⟨r, hr⟩ := hpackages a ha
    obtain ⟨s, hs, hrequires⟩ := requires_of_hasEdge h hkeyed hpins hr hab
    rwa [hr.referenceAt_eq, hs.referenceAt_eq]
  -- the requirement in hand leads from the end of the path back to its start
  have hback : c.Requires (x.graph.referenceAt i) (x.graph.referenceAt chosen.node) := by
    obtain ⟨r, hr⟩ := hpackages i (List.mem_of_getLast? hwalk.getLast?_eq)
    obtain ⟨n, hn, hreqs⟩ := h.exists_node
    have hreq : req ∈ requirementsOf root n :=
      hreqs ▸ List.mem_append_right met List.mem_cons_self
    rw [hr.referenceAt_eq, hstart.referenceAt_eq]
    exact requires_of_isPackage h hkeyed hr hn hreq hplain rfl
  rw [hreferences]
  refine ⟨?_, ?_, ?_⟩
  · have hpos := hwalk.length_pos
    rw [List.length_map, List.length_append, List.length_singleton]
    omega
  · rw [List.head?_map, List.getLast?_map, List.head?_append, hwalk.head?_eq,
      List.getLast?_concat]
    rfl
  · rw [List.isChain_map, List.isChain_append]
    refine ⟨hsteps, List.isChain_singleton _, fun a ha b hb => ?_⟩
    rw [hwalk.getLast?_eq] at ha
    obtain rfl := Option.some.inj ha
    obtain rfl : chosen.node = b := Option.some.inj hb
    exact hback

private theorem isCycle_of_expandFrom {path : List Reference} (hkeyed : c.index.IsKeyed)
    (h : c.expandFrom root [] = .error (.cycle path)) : c.IsCycle path := by
  obtain ⟨pins, hpins, hfails⟩ := failsUnder_of_expandFrom .none h
  generalize herror : GraphError.cycle path = e at hfails
  cases hfails with
  | unknownRoot => cases herror
  | unmet hunderway hnode hfails =>
    cases hfails with
    | competing => cases herror
    | rejected => cases herror
    | closing chosen nodes hplain hchosen hpath =>
      cases herror
      exact isCycle_cycleAlong hunderway hkeyed hpins.pins_subset hplain hchosen hpath
    | unavailable e hplain hfree hchoose =>
      rcases choose_error_cases hchoose with ⟨what, rfl⟩ | rfl <;> cases herror

/-- The layers that are asked for in a resolution never fail: it has no graph just if its build
fails. -/
theorem resolve_eq_graph_error_iff {resolver : Resolver} {request : ResolveRequest}
    {e : GraphError} : (resolver.resolve request).1 = .error (.graph e) ↔
      resolver.catalog.build request.root = .error e := by
  have hlayers : ∀ g, resolver.catalog.build request.root = .ok g → g.layers ≠ .error e := by
    intro g hbuild hfail
    obtain ⟨⟨layers, hok⟩, -⟩ := build_eq_ok hbuild
    rw [hok] at hfail
    cases hfail
  rw [Resolver.resolve_eq_answer]
  simp only [Resolver.answer, Resolver.prepare, bind_assoc, bind_eq_error_iff, mapError_eq_error_iff,
    mapError_eq_ok_iff, ResolveError.graph.injEq, exists_eq_right, pure, Except.pure, reduceCtorEq,
    and_false, exists_false, or_false]
  constructor
  · rintro (hbuild | ⟨g, hbuild, hfail⟩)
    · exact hbuild
    · exact absurd hfail (hlayers g hbuild)
  · exact .inl

/-- Cycles are found while a graph is expanded, and nowhere else. -/
structure DetectsCycles (c : Catalog) (root : RootSpec) : Prop where
  /-- No edge that is added closes a cycle. -/
  isAcyclic : ∀ pins i met left x, Underway c root pins i met left x → x.graph.IsAcyclic
  exists_layers : ∀ pins x, c.expand root pins = .ok x → ∃ layers, x.graph.layers = .ok layers
  build_eq : c.build root = Expansion.graph <$> c.expandFrom root []
  resolve_iff : ∀ stores config executor profile policy e,
    (Resolver.resolve ⟨c, stores, config, executor⟩ ⟨root, profile, policy⟩).1 = .error (.graph e) ↔
      c.expandFrom root [] = .error e
  isCycle : ∀ path, c.build root = .error (.cycle path) → c.IsCycle path

/-- Cycles are detected completely, and what is reported as one is a cycle of requirements. -/
theorem detectsCycles (hkeyed : c.index.IsKeyed) (root : RootSpec) : c.DetectsCycles root := by
  refine
    { isAcyclic := fun pins i met left x h => h.isAcyclic
      exists_layers := fun pins x h => exists_layers_of_expand h
      build_eq := build_eq_expandFrom c root
      resolve_iff := fun stores config executor profile policy e =>
        resolve_eq_graph_error_iff.trans build_eq_error_iff
      isCycle := fun path h => isCycle_of_expandFrom hkeyed (build_eq_error_iff.mp h) }

/-- A catalog whose two packages require each other. -/
def ofCircle : Catalog :=
  .ofIndex <|
    (RecipeIndex.empty.upsert ⟨.ofTexts "app" "1.0", [], ∅,
      [⟨.ofText "lib", .exact (.ofText "1.0"), false, false⟩], .none⟩).upsert
        ⟨.ofTexts "lib" "1.0", [], ∅,
          [⟨.ofText "app", .exact (.ofText "1.0"), false, false⟩], .none⟩

theorem detectsCycles_ofCircle :
    ofCircle.index.IsKeyed ∧
      ofCircle.build (.package (.ofTexts "app" "1.0")) =
        .error (.cycle [.ofTexts "app" "1.0", .ofTexts "lib" "1.0", .ofTexts "app" "1.0"]) ∧
      ofCircle.DetectsCycles (.package (.ofTexts "app" "1.0")) := by
  have hkeyed : ofCircle.index.IsKeyed := (RecipeIndex.isKeyed_empty.upsert _).upsert _
  exact ⟨hkeyed, eq_error_of_failure? (by decide +kernel), detectsCycles hkeyed _⟩

end Catalog

end Provision
