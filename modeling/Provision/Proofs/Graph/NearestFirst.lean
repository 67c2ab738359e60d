import Mathlib.Logic.Function.Iterate
import Provision.Proofs.Graph.Closure
import Provision.Proofs.Graph.LongestPaths

/-!
The order of an identity closure. The queue of the search holds nodes at the current distance, and
behind them nodes that are one edge further away, while everything closer has been found already. A
node that is found is therefore at the current distance, and the distances never decrease.
-/

namespace Provision.Graph

/-- A path of a length leads from the node `i` along edges that are transitive but for the first. -/
inductive HasVisiblePath (g : Graph) (i : Nat) : Nat → Nat → Prop
  | direct {e : Edge} (he : e ∈ g.edges) (hsource : e.source = i) : HasVisiblePath g i 1 e.target
  | further {length : Nat} {e : Edge} (hpath : HasVisiblePath g i length e.source)
      (he : e ∈ g.edges) (htransitive : e.isTransitive = true) :
      HasVisiblePath g i (length + 1) e.target

def closureRound (g : Graph) : List Nat × List Nat → List Nat × List Nat
  | ([], found) => ([], found)
  | (j :: rest, found) =>
    if found.contains j then (rest, found) else (rest ++ g.exposed j, found ++ [j])

/-- What an identity closure lists, and in which order. -/
structure ListsNearestFirst (g : Graph) (i : Nat) (closure : List Nat) : Prop where
  /-- The queue runs empty, and the nodes that have been found by then are those of the list. -/
  terminates : ∃ rounds ≤ g.edges.length + (g.dependencies i).length,
    g.closureRound^[rounds] ((g.dependencies i).map (·.target), []) = ([], closure)
  nodup : closure.Nodup
  mem_iff : ∀ j, j ∈ closure ↔ ∃ length, g.HasVisiblePath i length j
  nearestFirst : closure.Pairwise fun j k => ∀ near far,
    IsLeast {length | g.HasVisiblePath i length j} near →
      IsLeast {length | g.HasVisiblePath i length k} far → near ≤ far
  not_mem_self : g.IsAcyclic → i ∉ closure

variable {g : Graph} {i j k length level : Nat} {queue found near far : List Nat}

section Paths

private theorem HasVisiblePath.length_pos (h : g.HasVisiblePath i length j) : 0 < length := by
  cases h with
  | direct => exact Nat.one_pos
  | further => exact Nat.succ_pos _

private theorem hasVisiblePath_one_iff : g.HasVisiblePath i 1 j ↔ g.HasEdge i j := by
  constructor
  · intro h
    cases h with
    | direct he hsource => exact ⟨_, he, hsource, rfl⟩
    | further hpath => exact absurd hpath.length_pos (Nat.lt_irrefl 0)
  · rintro ⟨e, he, hsource, rfl⟩
    exact .direct he hsource

private theorem HasVisiblePath.exposed
    (h : g.HasVisiblePath i length j) (hexposes : g.Exposes j k) :
    g.HasVisiblePath i (length + 1) k := by
  obtain ⟨e, he, rfl, rfl, htransitive⟩ := exposes_iff.mp hexposes
  exact .further h he htransitive

/-- The last edge of a longer path is one along which its source exposes a dependency. -/
theorem HasVisiblePath.exists_exposes (h : g.HasVisiblePath i (length + 1) k)
    (hpos : 0 < length) : ∃ j, g.HasVisiblePath i length j ∧ g.Exposes j k := by
  cases h with
  | direct => exact absurd hpos (Nat.lt_irrefl 0)
  | @further _ e hpath he htransitive =>
    exact ⟨e.source, hpath, exposes_iff.mpr ⟨e, he, rfl, rfl, htransitive⟩⟩

private theorem HasVisiblePath.transGen (h : g.HasVisiblePath i length j) :
    Relation.TransGen g.HasEdge i j := by
  induction h with
  | @direct e he hsource => exact .single ⟨e, he, hsource, rfl⟩
  | @further length e hpath he htransitive ih => exact ih.tail ⟨e, he, rfl, rfl⟩

private theorem mem_identityClosure_iff_hasVisiblePath :
    j ∈ g.identityClosure i ↔ ∃ length, g.HasVisiblePath i length j := by
  rw [mem_identityClosure_iff]
  constructor
  · rintro ⟨a, ha, hpath⟩
    induction hpath with
    | refl => exact ⟨1, hasVisiblePath_one_iff.mpr ha⟩
    | tail _ hexposes ih =>
      obtain ⟨length, hvisible⟩ := ih
      exact ⟨length + 1, hvisible.exposed hexposes⟩
  · rintro ⟨length, hvisible⟩
    induction hvisible with
    | @direct e he hsource => exact ⟨e.target, ⟨e, he, hsource, rfl⟩, .refl⟩
    | @further length e hpath he htransitive ih =>
      obtain ⟨a, ha, hreaches⟩ := ih
      exact ⟨a, ha, hreaches.tail (exposes_iff.mpr ⟨e, he, rfl, rfl, htransitive⟩)⟩

end Paths

section Rounds

private theorem edgesOutside_nil (g : Graph) : g.edgesOutside [] = g.edges.length := by
  simp [edgesOutside]

/-- Each round takes a node off the queue, and each edge puts one on it at most once. -/
theorem exists_rounds (g : Graph) (queue found : List Nat) :
    ∃ rounds ≤ g.edgesOutside found + queue.length,
      g.closureRound^[rounds] (queue, found) = ([], g.closureFrom queue found) := by
  induction queue, found using closureFrom.induct (g := g) with
  | case1 found =>
    refine ⟨0, Nat.zero_le _, ?_⟩
    rw [closureFrom]
    rfl
  | case2 found a rest hseen ih =>
    obtain ⟨rounds, hle, hrun⟩ := ih
    refine ⟨rounds + 1, ?_, ?_⟩
    · rw [List.length_cons]
      omega
    · rw [closureFrom, Function.iterate_succ_apply, closureRound, if_pos hseen, if_pos hseen, hrun]
  | case3 found a rest hseen ih =>
    obtain ⟨rounds, hle, hrun⟩ := ih
    refine ⟨rounds + 1, ?_, ?_⟩
    · have hspent := g.edgesOutside_append (by simpa using hseen)
      have hqueued := g.length_exposed_le a
      rw [List.length_append] at hle
      rw [List.length_cons]
      omega
    · rw [closureFrom, Function.iterate_succ_apply, closureRound, if_neg hseen, if_neg hseen, hrun]

private theorem nodup_closureFrom (h : found.Nodup) : (g.closureFrom queue found).Nodup := by
  induction queue, found using closureFrom.induct (g := g) with
  | case1 found =>
    rw [closureFrom]
    exact h
  | case2 found a rest hseen ih =>
    rw [closureFrom, if_pos hseen]
    exact ih h
  | case3 found a rest hseen ih =>
    rw [closureFrom, if_neg hseen]
    apply ih
    rw [← List.concat_eq_append, List.nodup_concat]
    exact ⟨by simpa using hseen, h⟩

end Rounds

section Levels

/-- Every path to a node is at least as long as some path to another one. -/
def NoFarther (g : Graph) (i j k : Nat) : Prop :=
  ∀ length, g.HasVisiblePath i length k → ∃ shorter ≤ length, g.HasVisiblePath i shorter j

/-- The search between two rounds: the nodes at the current distance are near or found, those that
are closer are found, and what the finds expose is on the queue or found. -/
structure IsAtLevel (g : Graph) (i level : Nat) (near far found : List Nat) : Prop where
  level_pos : 0 < level
  near_path : ∀ j ∈ near, g.HasVisiblePath i level j
  far_path : ∀ j ∈ far, g.HasVisiblePath i (level + 1) j
  found_path : ∀ j ∈ found, ∃ length ≤ level, g.HasVisiblePath i length j
  closer : ∀ length < level, ∀ j, g.HasVisiblePath i length j → j ∈ found
  current : ∀ j, g.HasVisiblePath i level j → j ∈ near ∨ j ∈ found
  exposed : ∀ j ∈ found, ∀ k, g.Exposes j k → k ∈ near ++ far ∨ k ∈ found
  sorted : found.Pairwise (g.NoFarther i)

namespace IsAtLevel

private theorem start (g : Graph) (i : Nat) :
    g.IsAtLevel i 1 ((g.dependencies i).map (·.target)) [] [] where
  level_pos := Nat.one_pos
  near_path j hj := hasVisiblePath_one_iff.mpr (mem_targets_iff.mp hj)
  far_path := by simp
  found_path := by simp
  closer length hlt j hpath := by
    have := hpath.length_pos
    omega
  current j hpath := .inl (mem_targets_iff.mpr (hasVisiblePath_one_iff.mp hpath))
  exposed := by simp
  sorted := .nil

/-- When nothing near is left, the far nodes are the near ones of the next level. -/
theorem next (h : g.IsAtLevel i level [] far found) : g.IsAtLevel i (level + 1) far [] found where
  level_pos := Nat.succ_pos level
  near_path := h.far_path
  far_path := by simp
  found_path j hj := by
    obtain ⟨length, hle, hpath⟩ := h.found_path j hj
    exact ⟨length, by omega, hpath⟩
  closer length hlt j hpath := by
    rcases Nat.lt_succ_iff_lt_or_eq.mp hlt with hlt | rfl
    · exact h.closer length hlt j hpath
    · simpa using h.current j hpath
  current k hpath := by
    obtain ⟨j, hj, hexposes⟩ := hpath.exists_exposes h.level_pos
    have hfound : j ∈ found := by simpa using h.current j hj
    simpa using h.exposed j hfound k hexposes
  exposed j hj k hexposes := by simpa using h.exposed j hj k hexposes
  sorted := h.sorted

private theorem skip
    (h : g.IsAtLevel i level (j :: near) far found) (hseen : found.contains j = true) :
    g.IsAtLevel i level near far found where
  level_pos := h.level_pos
  near_path k hk := h.near_path k (.tail j hk)
  far_path := h.far_path
  found_path := h.found_path
  closer := h.closer
  current k hpath := mem_or_mem_of_skip hseen (h.current k hpath)
  exposed a ha k hexposes := mem_or_mem_of_skip hseen (h.exposed a ha k hexposes)
  sorted := h.sorted

/-- A find is at the current distance, as it would have been found before if it were closer. -/
theorem noFarther (h : g.IsAtLevel i level (j :: near) far found)
    (hfresh : found.contains j ≠ true) (hk : k ∈ found) : g.NoFarther i k j := by
  intro length hpath
  have hle : level ≤ length := by
    by_contra hlt
    exact hfresh (List.contains_iff_mem.mpr (h.closer length (by omega) j hpath))
  obtain ⟨shorter, hshorter, hpath⟩ := h.found_path k hk
  exact ⟨shorter, hshorter.trans hle, hpath⟩

private theorem visit (h : g.IsAtLevel i level (j :: near) far found)
    (hfresh : found.contains j ≠ true) :
    g.IsAtLevel i level near (far ++ g.exposed j) (found ++ [j]) where
  level_pos := h.level_pos
  near_path k hk := h.near_path k (.tail j hk)
  far_path k hk := by
    rcases List.mem_append.mp hk with hk | hk
    · exact h.far_path k hk
    · exact (h.near_path j List.mem_cons_self).exposed hk
  found_path k hk := by
    rcases List.mem_append.mp hk with hk | hk
    · exact h.found_path k hk
    · rw [List.mem_singleton.mp hk]
      exact ⟨level, Nat.le_refl level, h.near_path j List.mem_cons_self⟩
  closer length hlt k hpath := List.mem_append_left [j] (h.closer length hlt k hpath)
  current k hpath := by
    rcases h.current k hpath with hnear | hfound
    · rcases List.mem_cons.mp hnear with rfl | hnear
      · exact .inr List.mem_concat_self
      · exact .inl hnear
    · exact .inr (List.mem_append_left [j] hfound)
  exposed a ha k hexposes := by
    rw [← List.append_assoc]
    rcases List.mem_append.mp ha with ha | ha
    · exact mem_or_mem_of_visit (h.exposed a ha k hexposes)
    · -- what the new find exposes has just been queued
      rw [List.mem_singleton.mp ha] at hexposes
      exact .inl (List.mem_append_right _ hexposes)
  sorted := by
    refine List.pairwise_append.mpr ⟨h.sorted, List.pairwise_singleton _ j, fun k hk a ha => ?_⟩
    rw [List.mem_singleton.mp ha]
    exact h.noFarther hfresh hk

/-- The head of a queue is near, at the current level or at the next one. -/
theorem exists_cons (h : g.IsAtLevel i level near far found) (hqueue : near ++ far = j :: queue) :
    ∃ level near far, g.IsAtLevel i level (j :: near) far found ∧ near ++ far = queue := by
  cases near with
  | nil =>
    obtain rfl : far = j :: queue := hqueue
    exact ⟨level + 1, queue, [], h.next, List.append_nil queue⟩
  | cons a near =>
    obtain ⟨rfl, rfl⟩ := List.cons.inj hqueue
    exact ⟨level, near, far, h, rfl⟩

private theorem pairwise_closureFrom (h : g.IsAtLevel i level near far found)
    (hqueue : near ++ far = queue) : (g.closureFrom queue found).Pairwise (g.NoFarther i) := by
  induction queue, found using closureFrom.induct (g := g) generalizing level near far with
  | case1 found =>
    rw [closureFrom]
    exact h.sorted
  | case2 found a rest hseen ih =>
    rw [closureFrom, if_pos hseen]
    obtain ⟨level, near, far, hlevel, hrest⟩ := h.exists_cons hqueue
    exact ih (hlevel.skip hseen) hrest
  | case3 found a rest hseen ih =>
    rw [closureFrom, if_neg hseen]
    obtain ⟨level, near, far, hlevel, hrest⟩ := h.exists_cons hqueue
    refine ih (hlevel.visit hseen) ?_
    rw [← List.append_assoc, hrest]

end IsAtLevel

private theorem NoFarther.le {near far : Nat} (h : g.NoFarther i j k)
    (hnear : IsLeast {length | g.HasVisiblePath i length j} near)
    (hfar : IsLeast {length | g.HasVisiblePath i length k} far) : near ≤ far := by
  obtain ⟨shorter, hle, hpath⟩ := h far hfar.1
  exact (hnear.2 hpath).trans hle

end Levels

/-- An identity closure lists what is visible from a node, each node once and the nearest first. -/
theorem listsNearestFirst (g : Graph) (i : Nat) : g.ListsNearestFirst i (g.identityClosure i) where
  terminates := by
    have hrounds := g.exists_rounds ((g.dependencies i).map (·.target)) []
    rwa [List.length_map, edgesOutside_nil] at hrounds
  nodup := nodup_closureFrom List.nodup_nil
  mem_iff j := mem_identityClosure_iff_hasVisiblePath
  nearestFirst := by
    refine ((IsAtLevel.start g i).pairwise_closureFrom (List.append_nil _)).imp ?_
    intro j k hle near far hnear hfar
    exact hle.le hnear hfar
  not_mem_self hacyclic hself := by
    obtain ⟨length, hpath⟩ := mem_identityClosure_iff_hasVisiblePath.mp hself
    exact hacyclic i hpath.transGen

end Provision.Graph
