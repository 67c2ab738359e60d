import Mathlib.Data.List.Induction
import Mathlib.Data.List.Nodup
import Mathlib.Data.List.Perm.Subperm
import Provision.Graph.Layers
import Provision.Proofs.Graph.Reachability

/-!
Layers hold every node once, and every edge leads to a lower layer. The proof follows the counts:
between two rounds, the count of a node is the number of its edges to nodes that are in no layer
yet, and the released nodes are those whose count has come down to zero.
-/

namespace Provision.Graph

/-- Layers of a graph: every node stands in one of them, and every edge leads to a lower one. -/
structure IsLayering (g : Graph) (layers : List (List Nat)) : Prop where
  nodup : layers.flatten.Nodup
  mem_iff : ∀ i, i ∈ layers.flatten ↔ i < g.size
  below : ∀ lower layer upper, layers = lower ++ layer :: upper →
    ∀ i ∈ layer, ∀ j, g.HasEdge i j → j ∈ lower.flatten

namespace Progress

theorem getElem?_settle (p : Progress) (d i : Nat) :
    (p.settle d).pending[i]? =
      if d = i then p.pending[i]?.map (· - 1) else p.pending[i]? := by
  unfold settle
  split
  · rename_i hone
    simp only [List.getElem?_set]
    grind
  · rename_i count _ hcount
    simp only [List.getElem?_set]
    grind
  · rename_i hnone
    grind

private theorem mem_released_settle (p : Progress) (d i : Nat) :
    i ∈ (p.settle d).released ↔ i ∈ p.released ∨ d = i ∧ p.pending[d]? = some 1 := by
  unfold settle
  split
  · rename_i hone
    simp [hone, eq_comm]
  · rename_i hne hcount
    rw [hcount]
    grind
  · rename_i hnone
    simp [hnone]

/-- Settling lowers the count of a node once for each time that the node is listed. -/
theorem getElem?_foldl_settle (p : Progress) (ds : List Nat) (i : Nat) :
    (ds.foldl settle p).pending[i]? = p.pending[i]?.map (· - ds.count i) := by
  induction ds generalizing p with
  | nil => simp
  | cons d ds ih =>
    rw [List.foldl_cons, ih, getElem?_settle, List.count_cons]
    cases p.pending[i]? with
    | none => simp
    | some count =>
      by_cases hd : d = i
      · simp only [hd, if_true, Option.map_some, beq_self_eq_true, Option.some.injEq]
        omega
      · simp [hd]

private theorem mem_released_foldl_settle (p : Progress) (ds : List Nat) (i : Nat) :
    i ∈ (ds.foldl settle p).released ↔
      i ∈ p.released ∨ ∃ count, p.pending[i]? = some count ∧ 0 < count ∧ count ≤ ds.count i := by
  induction ds generalizing p with
  | nil => grind
  | cons d ds ih =>
    rw [List.foldl_cons, ih, mem_released_settle, getElem?_settle, List.count_cons]
    by_cases hd : d = i
    · subst hd
      cases hcount : p.pending[d]? with
      | none => simp
      | some count => simp; grind
    · simp [hd]

private theorem nodup_released_foldl_settle
    (p : Progress) (ds : List Nat) (hnodup : p.released.Nodup)
    (hzero : ∀ i ∈ p.released, p.pending[i]? = some 0) :
    (ds.foldl settle p).released.Nodup := by
  induction ds generalizing p with
  | nil => exact hnodup
  | cons d ds ih =>
    rw [List.foldl_cons]
    apply ih
    · unfold settle
      split
      · rename_i hone
        refine List.nodup_append.mpr ⟨hnodup, List.nodup_singleton d, ?_⟩
        intro i hi j hj hij
        rw [List.mem_singleton.mp hj] at hij
        rw [← hij, hzero i hi] at hone
        cases hone
      · exact hnodup
      · exact hnodup
    · intro i hi
      rw [getElem?_settle]
      rcases (mem_released_settle p d i).mp hi with hi | ⟨rfl, hone⟩
      · simp [hzero i hi]
      · simp [hone]

end Progress

theorem mem_sortByName {g : Graph} {nodes : List Nat} {i : Nat} :
    i ∈ g.sortByName nodes ↔ i ∈ nodes :=
  List.mem_mergeSort

theorem nodup_sortByName {g : Graph} {nodes : List Nat} (h : nodes.Nodup) :
    (g.sortByName nodes).Nodup :=
  (List.mergeSort_perm ..).nodup_iff.mpr h

def edgesTo (g : Graph) (i : Nat) (p : Nat → Bool) : Nat :=
  g.edges.countP fun e => e.source == i && p e.target

/-- The edges to nodes of a kind are those to either of two kinds that have no node in common. -/
theorem edgesTo_eq_add (g : Graph) (i : Nat) {p q r : Nat → Bool}
    (heither : ∀ j, r j = (p j || q j)) (hapart : ∀ j, p j = true → q j = false) :
    g.edgesTo i r = g.edgesTo i p + g.edgesTo i q := by
  unfold edgesTo
  induction g.edges with
  | nil => rfl
  | cons e edges ih =>
    have hkind := heither e.target
    have hother := hapart e.target
    simp only [List.countP_cons, ih]
    grind

/-- The dependents of a layer name a node once for each of its edges into the layer. -/
theorem count_dependentsOfLayer (g : Graph) {layer : List Nat} (hnodup : layer.Nodup) (i : Nat) :
    (g.dependentsOfLayer layer).count i = g.edgesTo i layer.contains := by
  induction layer with
  | nil => simp [dependentsOfLayer, edgesTo]
  | cons j layer ih =>
    obtain ⟨hj, hnodup⟩ := List.nodup_cons.mp hnodup
    have hfirst : ((g.dependents j).map (·.source)).count i = g.edgesTo i (· == j) := by
      simp only [dependents, edgesTo, List.count, List.countP_map, List.countP_filter]
      rfl
    have hsplit : g.edgesTo i (j :: layer).contains =
        g.edgesTo i (· == j) + g.edgesTo i layer.contains := by
      apply edgesTo_eq_add
      · intro k
        exact List.contains_cons
      · intro k hk
        rw [beq_iff_eq.mp hk]
        simpa using hj
    rw [hsplit, ← ih hnodup, ← hfirst]
    simp [dependentsOfLayer]

/-- A round lowers the count of a node by the number of its edges into the layer. -/
theorem getElem?_settleAll (g : Graph) {layer : List Nat} (hnodup : layer.Nodup)
    (pending : List Nat) (i : Nat) :
    (Progress.settleAll pending (g.dependentsOfLayer layer)).pending[i]? =
      pending[i]?.map (· - g.edgesTo i layer.contains) := by
  rw [Progress.settleAll, Progress.getElem?_foldl_settle, count_dependentsOfLayer g hnodup]

/-- A round releases the nodes whose remaining edges all lead into the layer. -/
theorem mem_released_settleAll (g : Graph) {layer : List Nat} (hnodup : layer.Nodup)
    (pending : List Nat) (i : Nat) :
    i ∈ (Progress.settleAll pending (g.dependentsOfLayer layer)).released ↔
      ∃ count, pending[i]? = some count ∧ 0 < count ∧ count ≤ g.edgesTo i layer.contains := by
  rw [Progress.settleAll, Progress.mem_released_foldl_settle, count_dependentsOfLayer g hnodup]
  simp

/-- The state between two rounds: which nodes stand in a layer, which counts remain, and which
nodes are released for the next layer. -/
structure IsSettling (g : Graph) (settled pending released : List Nat) : Prop where
  nodup : (settled ++ released).Nodup
  count : ∀ i, pending[i]? =
    if i < g.size then some (g.edgesTo i fun j => !settled.contains j) else none
  mem_iff : ∀ i, i ∈ settled ∨ i ∈ released ↔ pending[i]? = some 0

variable {g : Graph} {settled pending released : List Nat}

private theorem IsSettling.mem_of_hasEdge (h : g.IsSettling settled pending released) {i j : Nat}
    (hi : i ∈ released) (hij : g.HasEdge i j) : j ∈ settled := by
  have hzero := (h.mem_iff i).mp (.inr hi)
  rw [h.count i] at hzero
  split at hzero
  · obtain ⟨e, he, hsource, htarget⟩ := hij
    have hnone := List.countP_eq_zero.mp (Option.some.inj hzero) e he
    simpa [hsource, htarget] using hnone
  · cases hzero

theorem IsSettling.initial (g : Graph) :
    g.IsSettling [] g.initialPending
      ((List.range g.size).filter fun i => (g.dependencies i).isEmpty) := by
  have hcount (i : Nat) : g.initialPending[i]? =
      if i < g.size then some (g.edgesTo i fun _ => true) else none := by
    simp only [initialPending, List.getElem?_map]
    split <;> simp_all [edgesTo, dependencies, List.countP_eq_length_filter]
  refine ⟨?_, ?_, ?_⟩
  · exact List.nodup_range.filter _
  · simpa using hcount
  · intro i
    rw [hcount i]
    simp only [List.not_mem_nil, false_or, List.mem_filter, List.mem_range, List.isEmpty_iff]
    split
    · simp_all [edgesTo, dependencies, List.countP_eq_length_filter]
    · rename_i hi
      simp [hi]

/-- A round keeps the state: the released nodes become a layer, and the counts are those of the
edges that now remain. -/
theorem IsSettling.round (h : g.IsSettling settled pending released) {layer : List Nat}
    (hlayer : layer = g.sortByName released) {progress : Progress}
    (hprogress : progress = Progress.settleAll pending (g.dependentsOfLayer layer)) :
    g.IsSettling (settled ++ layer) progress.pending progress.released := by
  obtain ⟨hsettled, hreleased, hdisjoint⟩ := List.nodup_append.mp h.nodup
  have hmem (i : Nat) : i ∈ layer ↔ i ∈ released := by
    rw [hlayer, mem_sortByName]
  have hnodup : layer.Nodup := hlayer ▸ nodup_sortByName hreleased
  have hcount (i : Nat) : progress.pending[i]? =
      pending[i]?.map (· - g.edgesTo i layer.contains) := by
    rw [hprogress, g.getElem?_settleAll hnodup]
  have hnew (i : Nat) : i ∈ progress.released ↔
      ∃ count, pending[i]? = some count ∧ 0 < count ∧ count ≤ g.edgesTo i layer.contains := by
    rw [hprogress, g.mem_released_settleAll hnodup]
  have hold (i : Nat) : i ∈ settled ++ layer ↔ pending[i]? = some 0 := by
    rw [List.mem_append, hmem, h.mem_iff]
  refine ⟨?_, ?_, ?_⟩
  · refine List.nodup_append.mpr ⟨?_, ?_, ?_⟩
    · refine List.nodup_append.mpr ⟨hsettled, hnodup, ?_⟩
      intro i hi j hj
      exact hdisjoint i hi j ((hmem j).mp hj)
    · rw [hprogress]
      exact Progress.nodup_released_foldl_settle _ _ List.nodup_nil (by simp)
    · rintro i hi _ hj rfl
      obtain ⟨count, hpending, hpos, -⟩ := (hnew i).mp hj
      rw [(hold i).mp hi] at hpending
      cases hpending
      exact absurd hpos (Nat.lt_irrefl 0)
  · intro i
    rw [hcount, h.count]
    split
    · have hsplit : g.edgesTo i (fun j => !settled.contains j) =
          g.edgesTo i layer.contains + g.edgesTo i fun j => !(settled ++ layer).contains j := by
        apply edgesTo_eq_add
        · intro j
          have hnew := hdisjoint j
          have hsame := hmem j
          grind
        · intro j hj
          simp_all
      rw [hsplit, Option.map_some, Nat.add_sub_cancel_left]
    · rfl
  · intro i
    rw [hold, hnew, hcount]
    cases pending[i]? with
    | none => simp
    | some count => simp; omega

theorem layersFrom_cons {progress : Progress} {later : List (List Nat)} {final : List Nat}
    (hempty : ¬released.isEmpty = true)
    (hround : Progress.settleAll pending (g.dependentsOfLayer (g.sortByName released)) = progress)
    (hnext : g.layersFrom progress.pending progress.released = (later, final)) :
    g.layersFrom pending released = (g.sortByName released :: later, final) := by
  rw [layersFrom, if_neg hempty]
  dsimp only
  rw [hround, hnext]

/-- From any state between two rounds on, the layers that are still to come end in a state without
released nodes, and every edge of a layer leads to a lower one. -/
theorem layersFrom_spec {layers : List (List Nat)} {rest : List Nat}
    (h : g.IsSettling settled pending released)
    (hrun : g.layersFrom pending released = (layers, rest)) :
    g.IsSettling (settled ++ layers.flatten) rest [] ∧
      ∀ lower layer upper, layers = lower ++ layer :: upper →
        ∀ i ∈ layer, ∀ j, g.HasEdge i j → j ∈ settled ++ lower.flatten := by
  induction pending, released using layersFrom.induct (g := g) generalizing settled layers with
  | case1 pending released hempty =>
    rw [layersFrom, if_pos hempty] at hrun
    obtain ⟨rfl, rfl⟩ := Prod.mk.inj hrun
    rw [List.isEmpty_iff.mp hempty] at h
    exact ⟨by simpa using h, by simp⟩
  | case2 pending released hempty layer progress later final =>
    rename_i hnext ih
    rw [layersFrom_cons hempty rfl hnext] at hrun
    obtain ⟨rfl, rfl⟩ := Prod.mk.inj hrun
    obtain ⟨hfinal, hbelow⟩ := ih (h.round rfl rfl) hnext
    refine ⟨by simpa using hfinal, ?_⟩
    intro lower this upper heq i hi j hij
    cases lower with
    | nil =>
      obtain ⟨rfl, -⟩ := List.cons.inj heq
      simpa using h.mem_of_hasEdge (mem_sortByName.mp hi) hij
    | cons first lower =>
      obtain ⟨rfl, htail⟩ := List.cons.inj heq
      simpa using hbelow lower this upper htail i hi j hij

theorem isLayering_of_layers {layers : List (List Nat)} (h : g.layers = .ok layers) :
    g.IsLayering layers := by
  simp only [Graph.layers] at h
  split at h
  · cases h
  · rename_i hsize
    cases h
    obtain ⟨hfinal, hbelow⟩ := layersFrom_spec (IsSettling.initial g) (Prod.eta _).symm
    simp only [List.nil_append] at hfinal hbelow
    have hnodup := hfinal.nodup
    rw [List.append_nil] at hnodup
    have hsub : ∀ i ∈ (layersFrom g g.initialPending
        ((List.range g.size).filter fun i => (g.dependencies i).isEmpty)).1.flatten,
        i ∈ List.range g.size := by
      intro i hi
      have hzero := (hfinal.mem_iff i).mp (.inl hi)
      rw [hfinal.count i] at hzero
      split at hzero
      · exact List.mem_range.mpr ‹_›
      · cases hzero
    have hperm := (hnodup.subperm hsub).perm_of_length_le (by simpa using hsize)
    refine ⟨hnodup, ?_, hbelow⟩
    intro i
    rw [hperm.mem_iff, List.mem_range]

namespace IsLayering

variable {layers lower upper : List (List Nat)} {layer : List Nat}

private theorem exists_layer (h : g.IsLayering layers) {i : Nat} (hi : i < g.size) :
    ∃ lower layer upper, layers = lower ++ layer :: upper ∧ i ∈ layer := by
  obtain ⟨layer, hlayer, hmem⟩ := List.mem_flatten.mp ((h.mem_iff i).mpr hi)
  obtain ⟨lower, upper, rfl⟩ := List.append_of_mem hlayer
  exact ⟨lower, layer, upper, rfl, hmem⟩

/-- Seen from below, every dependent of a node stands in a higher layer. -/
theorem above (h : g.IsLayering layers) (heq : layers = lower ++ layer :: upper) {i j : Nat}
    (hi : i ∈ layer) (hji : g.HasEdge j i) (hj : j < g.size) : j ∈ upper.flatten := by
  have hnodup := h.nodup
  have hmem := (h.mem_iff j).mpr hj
  rw [heq, List.flatten_append, List.flatten_cons] at hnodup hmem
  have hfresh : i ∉ lower.flatten := fun hlower =>
    (List.nodup_append.mp hnodup).2.2 i hlower i (List.mem_append_left _ hi) rfl
  rcases List.mem_append.mp hmem with hlower | hrest
  · obtain ⟨low, hlow, hjlow⟩ := List.mem_flatten.mp hlower
    obtain ⟨front, back, rfl⟩ := List.append_of_mem hlow
    have hi' := h.below front low (back ++ layer :: upper) (by simp [heq]) j hjlow i hji
    rw [List.flatten_append] at hfresh
    exact absurd (List.mem_append_left _ hi') hfresh
  · rcases List.mem_append.mp hrest with hlayer | hupper
    · exact absurd (h.below lower layer upper heq j hlayer i hji) hfresh
    · exact hupper

/-- In the order of the layers, the nodes before a node hold its dependencies, and their own. -/
theorem exists_split (h : g.IsLayering layers) {i : Nat} (hi : i < g.size) :
    ∃ before after, layers.flatten = before ++ i :: after ∧
      (∀ j, g.HasEdge i j → j ∈ before) ∧
      ∀ a b, a ∈ before → g.HasEdge a b → b ∈ before := by
  obtain ⟨lower, layer, upper, heq, hlayer⟩ := h.exists_layer hi
  obtain ⟨front, back, hsplit⟩ := List.append_of_mem hlayer
  refine ⟨lower.flatten ++ front, back ++ upper.flatten, by simp [heq, hsplit], ?_, ?_⟩
  · intro j hij
    exact List.mem_append_left _ (h.below lower layer upper heq i hlayer j hij)
  · intro a b ha hab
    refine List.mem_append_left _ ?_
    rcases List.mem_append.mp ha with ha | ha
    · obtain ⟨low, hlow, halow⟩ := List.mem_flatten.mp ha
      obtain ⟨below, above, rfl⟩ := List.append_of_mem hlow
      have hb := h.below below low (above ++ layer :: upper) (by simp [heq]) a halow b hab
      rw [List.flatten_append]
      exact List.mem_append_left _ hb
    · refine h.below lower layer upper heq a ?_ b hab
      rw [hsplit]
      exact List.mem_append_left _ ha

/-- With the layers reversed, the nodes before a node hold its dependents. -/
theorem exists_split_reverse (h : g.IsLayering layers) {i : Nat} (hi : i < g.size) :
    ∃ before after, layers.reverse.flatten = before ++ i :: after ∧
      ∀ j < g.size, g.HasEdge j i → j ∈ before := by
  obtain ⟨lower, layer, upper, heq, hlayer⟩ := h.exists_layer hi
  obtain ⟨front, back, hsplit⟩ := List.append_of_mem hlayer
  refine ⟨upper.reverse.flatten ++ front, back ++ lower.reverse.flatten,
    by simp [heq, hsplit], ?_⟩
  intro j hj hji
  obtain ⟨high, hhigh, hjhigh⟩ := List.mem_flatten.mp (h.above heq hlayer hji hj)
  refine List.mem_append_left _ (List.mem_flatten.mpr ⟨high, ?_, hjhigh⟩)
  exact List.mem_reverse.mpr hhigh

theorem nodup_reverse (h : g.IsLayering layers) : layers.reverse.flatten.Nodup :=
  ((List.reverse_perm layers).flatten.nodup_iff).mpr h.nodup

/-- What holds of a node whenever it holds of its dependencies holds of every node. -/
theorem induction_up (h : g.IsLayering layers) {P : Nat → Prop}
    (hstep : ∀ i < g.size, (∀ j, g.HasEdge i j → P j) → P i) : ∀ i < g.size, P i := by
  have hlower (lower : List (List Nat)) :
      ∀ upper, layers = lower ++ upper → ∀ i ∈ lower.flatten, P i := by
    induction lower using List.reverseRecOn with
    | nil => simp
    | append_singleton lower layer ih =>
      intro upper heq i hi
      have heq' : layers = lower ++ layer :: upper := by simp [heq]
      rw [List.flatten_append, List.mem_append] at hi
      rcases hi with hi | hi
      · exact ih (layer :: upper) heq' i hi
      · have hi : i ∈ layer := by simpa using hi
        refine hstep i ((h.mem_iff i).mp (by simp [heq', hi])) fun j hij => ?_
        exact ih (layer :: upper) heq' j (h.below lower layer upper heq' i hi j hij)
  intro i hi
  exact hlower layers [] (by simp) i ((h.mem_iff i).mpr hi)

/-- What holds of a node whenever it holds of its dependents holds of every node. -/
theorem induction_down (h : g.IsLayering layers) {P : Nat → Prop}
    (hstep : ∀ i < g.size, (∀ j < g.size, g.HasEdge j i → P j) → P i) : ∀ i < g.size, P i := by
  have hupper (upper : List (List Nat)) :
      ∀ lower, layers = lower ++ upper → ∀ i ∈ upper.flatten, P i := by
    induction upper with
    | nil => simp
    | cons layer upper ih =>
      intro lower heq i hi
      have hrest := ih (lower ++ [layer]) (by simp [heq])
      rcases List.mem_append.mp (List.flatten_cons ▸ hi) with hi | hi
      · refine hstep i ((h.mem_iff i).mp (by simp [heq, hi])) fun j hj hji => ?_
        exact hrest j (h.above heq hi hji hj)
      · exact hrest i hi
  intro i hi
  exact hupper layers [] rfl i ((h.mem_iff i).mpr hi)

end IsLayering

end Provision.Graph
