import Provision.Proofs.Propagation

/-!
Skipping solves its rule: a package is skipped just if nobody needs its binary, as the statuses of
its dependents are in the end. The pass writes statuses while it reads them, but it settles the
dependents of a node before the node, so that what it reads is final.
-/

namespace Provision.Graph

variable {g g' : Graph} {layers : List (List Nat)} {i : Nat} {n : Node}

/-- Some node depends on a node, and all that do have no need of its binary: they do not pass it on,
and their own binaries exist or are not needed either. -/
structure IsSpared (g : Graph) (i : Nat) : Prop where
  exists_dependent : ∃ e ∈ g.edges, e.target = i
  idle : ∀ e ∈ g.edges, e.target = i → e.isTransitive = false ∧
    ∃ n, g.nodes[e.source]? = some n ∧ n.status ∈ [.cache, .download, .skip]

private theorem isUnneeded_iff : g.isUnneeded i = true ↔ g.IsSpared i := by
  have hidle : ∀ e, g.isIdleEdge e = true ↔ e.isTransitive = false ∧
      ∃ n, g.nodes[e.source]? = some n ∧ n.status ∈ [.cache, .download, .skip] := by
    intro e
    rw [isIdleEdge_iff, IdleAt]
    simp [BinaryStatus.hasBinary, or_assoc]
  have hdependents : (g.dependents i).isEmpty = false ↔ ∃ e ∈ g.edges, e.target = i := by
    simp only [List.isEmpty_eq_false_iff_exists_mem, mem_dependents]
  rw [isUnneeded, Bool.and_eq_true, Bool.not_eq_true', hdependents, List.all_eq_true]
  simp only [hidle, mem_dependents, and_imp]
  constructor
  · rintro ⟨hsome, hall⟩
    exact ⟨hsome, hall⟩
  · rintro ⟨hsome, hall⟩
    exact ⟨hsome, hall⟩

/-- The nodes that there is nothing to do for: a virtual root, and packages that are spared and not
invalid. -/
def HasNothingToDo (g : Graph) (i : Nat) (n : Node) : Prop :=
  i = 0 ∧ n.isVirtual = true ∨ 0 < i ∧ n.invalid? = none ∧ g.IsSpared i

private theorem isSkipped_iff : g.isSkipped i n = true ↔ g.HasNothingToDo i n := by
  unfold isSkipped HasNothingToDo
  split
  · rename_i hzero
    simp [hzero]
  · rename_i hpos
    rw [Bool.and_eq_true, Option.isNone_iff_eq_none, isUnneeded_iff]
    simp [hpos, Nat.pos_of_ne_zero hpos]

private theorem isSkipped_skippedIf {condition : Bool} :
    g.isSkipped i (n.skippedIf condition) = g.isSkipped i n := by
  cases condition <;> rfl

private theorem isSkipped_congr (h : g'.isUnneeded i = g.isUnneeded i) :
    g'.isSkipped i n = g.isSkipped i n := by
  rw [isSkipped, isSkipped, h]

/-- What is skipped already is not changed by skipping again: by induction from the dependents down,
each node finds the same condition. -/
theorem markSkipped_markSkipped (hlayering : g.IsLayering layers) :
    (g.markSkipped layers).markSkipped layers = g.markSkipped layers := by
  obtain ⟨hedges, hsize⟩ := g.markSkipped_frame layers
  obtain ⟨hedges', hsize'⟩ := (g.markSkipped layers).markSkipped_frame layers
  have hlayering' := hlayering.congr hedges hsize
  have hinside : ∀ i < g.size, ((g.markSkipped layers).markSkipped layers).nodes[i]? =
      (g.markSkipped layers).nodes[i]? := by
    refine hlayering.induction_down fun i hi ih => ?_
    obtain ⟨n, hn⟩ := exists_getElem?_of_lt_size hi
    have hfirst := getElem?_markSkipped hlayering hn
    have hsecond := getElem?_markSkipped hlayering' hfirst
    have hunneeded : ((g.markSkipped layers).markSkipped layers).isUnneeded i =
        (g.markSkipped layers).isUnneeded i := by
      refine isUnneeded_congr hedges' fun j hji => ?_
      by_cases hj : j < g.size
      · exact ih j hj (by rwa [HasEdge, ← hedges])
      · rw [getElem?_eq_none_of_size_le (by omega), getElem?_eq_none_of_size_le (by omega)]
    rw [hsecond, hfirst, isSkipped_skippedIf, isSkipped_congr hunneeded, Node.skippedIf_skippedIf]
  refine eq_of_nodes_of_edges (List.ext_getElem? fun i => ?_) hedges'
  by_cases hi : i < g.size
  · exact hinside i hi
  · rw [getElem?_eq_none_of_size_le (by omega), getElem?_eq_none_of_size_le (by omega)]

/-- Skipping, told by the graph that it ends with: a virtual root and the spared packages end
skipped, all other nodes stay as they are, and there is nothing more to skip. -/
structure SkipsSpared (g : Graph) (layers : List (List Nat)) : Prop where
  frame : (g.markSkipped layers).edges = g.edges ∧ (g.markSkipped layers).size = g.size
  virtualRoot : ∀ n, g.nodes[0]? = some n → n.isVirtual = true →
    ∃ m, (g.markSkipped layers).nodes[0]? = some m ∧ m.status = .skip
  skip_iff : ∀ i n m, 0 < i → g.nodes[i]? = some n → n.invalid? = none →
    (g.markSkipped layers).nodes[i]? = some m →
      (m.status = .skip ↔ (g.markSkipped layers).IsSpared i)
  kept : ∀ i n, g.nodes[i]? = some n → ¬(g.markSkipped layers).HasNothingToDo i n →
    (g.markSkipped layers).nodes[i]? = some n
  again : (g.markSkipped layers).markSkipped layers = g.markSkipped layers

/-- Where no package is skipped yet, the nodes that end skipped are those that the final statuses of
their dependents spare. -/
theorem skipsSpared_of_layers (hlayers : g.layers = .ok layers)
    (hfresh : ∀ i n, g.nodes[i]? = some n → n.status = .skip → i = 0 ∧ n.isVirtual = true) :
    g.SkipsSpared layers := by
  have hlayering := isLayering_of_layers hlayers
  refine
    { frame := g.markSkipped_frame layers
      virtualRoot := fun n hn hvirtual => ?_
      skip_iff := fun i n m hi hn hvalid hm => ?_
      kept := fun i n hn hbusy => ?_
      again := markSkipped_markSkipped hlayering }
  · have hskipped : (g.markSkipped layers).isSkipped 0 n = true :=
      isSkipped_iff.mpr (.inl ⟨rfl, hvirtual⟩)
    refine ⟨_, getElem?_markSkipped hlayering hn, ?_⟩
    rw [hskipped]
    rfl
  · rw [getElem?_markSkipped hlayering hn] at hm
    obtain rfl := Option.some.inj hm
    have hskipped : (g.markSkipped layers).isSkipped i n = true ↔
        (g.markSkipped layers).IsSpared i := by
      rw [isSkipped_iff, HasNothingToDo]
      simp [hi, hvalid, Nat.ne_of_gt hi]
    rw [← hskipped]
    cases hcase : (g.markSkipped layers).isSkipped i n with
    | true => simp [Node.skippedIf, Node.status]
    | false =>
      have hnot : n.status ≠ .skip := fun hskip => Nat.ne_of_gt hi (hfresh i n hn hskip).1
      simpa [Node.skippedIf] using hnot
  · rw [getElem?_markSkipped hlayering hn]
    have hskipped : (g.markSkipped layers).isSkipped i n = false := by
      rwa [← Bool.not_eq_true, isSkipped_iff]
    rw [hskipped]
    rfl

/-- A consumer of a library with a binary, which a tool was needed to build. -/
def ofBuiltLibrary : Graph :=
  let package (r : Reference) (status : BinaryStatus) : Node :=
    { Node.new r (some ⟨r, [], ∅, [], .none⟩) with status? := some status }
  ⟨[.new (.ofTexts "consumer" "virtual") none, package (.ofTexts "lib" "1.0") .cache,
      package (.ofTexts "tool" "1.0") .missing],
    [⟨0, 1, .exact (.ofText "1.0"), true, 1⟩, ⟨1, 2, .exact (.ofText "1.0"), false, 2⟩]⟩

theorem skipsSpared_ofBuiltLibrary :
    (ofBuiltLibrary.markSkipped [[2], [1], [0]]).nodes.map (·.status) = [.skip, .cache, .skip] ∧
      ofBuiltLibrary.SkipsSpared [[2], [1], [0]] := by
  refine ⟨by decide +kernel, skipsSpared_of_layers (by decide +kernel) fun i n hn hskip => ?_⟩
  have hstatus : ∀ n ∈ ofBuiltLibrary.nodes, n.status ≠ .skip := by decide
  exact absurd hskip (hstatus n (List.mem_of_getElem? hn))

end Provision.Graph
