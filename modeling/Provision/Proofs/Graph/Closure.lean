import Provision.Proofs.Graph.Reachability

/-!
What an identity closure lists: the nodes that a direct dependency is, or exposes to its dependents
along transitive edges. The search behind it finds its queue and everything that is exposed from
there, and nothing else.
-/

namespace Provision.Graph

/-- A node exposes another to its dependents. -/
def Exposes (g : Graph) (i j : Nat) : Prop :=
  j ∈ g.exposed i

variable {g : Graph} {i j : Nat} {queue found : List Nat}

theorem exposes_iff :
    g.Exposes i j ↔ ∃ e ∈ g.edges, e.source = i ∧ e.target = j ∧ e.isTransitive = true := by
  simp only [Exposes, exposed, List.mem_map, List.mem_filter, mem_dependencies]
  constructor
  · rintro ⟨e, ⟨⟨he, hsource⟩, htransitive⟩, htarget⟩
    exact ⟨e, he, hsource, htarget, htransitive⟩
  · rintro ⟨e, he, hsource, htarget, htransitive⟩
    exact ⟨e, ⟨⟨he, hsource⟩, htransitive⟩, htarget⟩

/-- Whatever a search lists was found before or is exposed from its queue. -/
theorem exists_exposed_of_mem_closureFrom (h : j ∈ g.closureFrom queue found) :
    j ∈ found ∨ ∃ a ∈ queue, Relation.ReflTransGen g.Exposes a j := by
  induction queue, found using closureFrom.induct (g := g) with
  | case1 found =>
    rw [closureFrom] at h
    exact .inl h
  | case2 found a rest hseen ih =>
    rw [closureFrom, if_pos hseen] at h
    rcases ih h with hfound | ⟨b, hb, hpath⟩
    · exact .inl hfound
    · exact .inr ⟨b, List.mem_cons_of_mem _ hb, hpath⟩
  | case3 found a rest hseen ih =>
    rw [closureFrom, if_neg hseen] at h
    rcases ih h with hfound | ⟨b, hb, hpath⟩
    · rcases List.mem_append.mp hfound with hfound | hhere
      · exact .inl hfound
      · rw [List.mem_singleton.mp hhere]
        exact .inr ⟨a, List.mem_cons_self, .refl⟩
    · rcases List.mem_append.mp hb with hb | hexposed
      · exact .inr ⟨b, List.mem_cons_of_mem _ hb, hpath⟩
      · exact .inr ⟨a, List.mem_cons_self, .head hexposed hpath⟩

section Visit

variable {a : Nat} {rest : List Nat}

/-- A node that is taken off the queue has been found before, or is found now. -/
theorem mem_or_mem_of_skip (hseen : found.contains a = true) (h : j ∈ a :: rest ∨ j ∈ found) :
    j ∈ rest ∨ j ∈ found := by
  rcases h with hqueue | hfound
  · rcases List.mem_cons.mp hqueue with rfl | hrest
    · exact .inr (by simpa using hseen)
    · exact .inl hrest
  · exact .inr hfound

theorem mem_or_mem_of_visit (h : j ∈ a :: rest ∨ j ∈ found) :
    j ∈ rest ++ g.exposed a ∨ j ∈ found ++ [a] := by
  rcases h with hqueue | hfound
  · rcases List.mem_cons.mp hqueue with rfl | hrest
    · exact .inr List.mem_concat_self
    · exact .inl (List.mem_append_left _ hrest)
  · exact .inr (List.mem_append_left _ hfound)

end Visit

/-- A search keeps what it has found, and finds its queue. -/
theorem mem_closureFrom (h : j ∈ queue ∨ j ∈ found) : j ∈ g.closureFrom queue found := by
  induction queue, found using closureFrom.induct (g := g) with
  | case1 found =>
    rw [closureFrom]
    simpa using h
  | case2 found a rest hseen ih =>
    rw [closureFrom, if_pos hseen]
    exact ih (mem_or_mem_of_skip hseen h)
  | case3 found a rest hseen ih =>
    rw [closureFrom, if_neg hseen]
    exact ih (mem_or_mem_of_visit h)

/-- A search that has found or queued what its finds expose ends with a list that exposes nothing
beyond itself. -/
theorem mem_closureFrom_of_exposes
    (hclosed : ∀ a ∈ found, ∀ b, g.Exposes a b → b ∈ queue ∨ b ∈ found)
    (hi : i ∈ g.closureFrom queue found) (hij : g.Exposes i j) :
    j ∈ g.closureFrom queue found := by
  induction queue, found using closureFrom.induct (g := g) with
  | case1 found =>
    rw [closureFrom] at hi ⊢
    simpa using hclosed i hi j hij
  | case2 found a rest hseen ih =>
    rw [closureFrom, if_pos hseen] at hi ⊢
    apply ih _ hi
    intro b hb c hbc
    exact mem_or_mem_of_skip hseen (hclosed b hb c hbc)
  | case3 found a rest hseen ih =>
    rw [closureFrom, if_neg hseen] at hi ⊢
    apply ih _ hi
    intro b hb c hbc
    rcases List.mem_append.mp hb with hb | hhere
    · exact mem_or_mem_of_visit (hclosed b hb c hbc)
    · -- what the new find exposes has just been queued
      rw [List.mem_singleton.mp hhere] at hbc
      exact .inl (List.mem_append_right _ hbc)

/-- An identity closure lists the direct dependencies and what they expose, at whatever distance. -/
theorem mem_identityClosure_iff :
    j ∈ g.identityClosure i ↔ ∃ a, g.HasEdge i a ∧ Relation.ReflTransGen g.Exposes a j := by
  constructor
  · intro h
    rcases exists_exposed_of_mem_closureFrom h with hfound | ⟨a, ha, hpath⟩
    · cases hfound
    · exact ⟨a, mem_targets_iff.mp ha, hpath⟩
  · rintro ⟨a, ha, hpath⟩
    induction hpath with
    | refl => exact mem_closureFrom (.inl (mem_targets_iff.mpr ha))
    | tail _ hexposes ih => exact mem_closureFrom_of_exposes (by simp) ih hexposes

theorem mem_identityClosure_of_hasEdge (h : g.HasEdge i j) : j ∈ g.identityClosure i :=
  mem_identityClosure_iff.mpr ⟨j, h, .refl⟩

/-- The last edge to a member of a closure is transitive, unless it comes from the node itself. -/
theorem exists_dependent_of_mem_identityClosure (h : j ∈ g.identityClosure i) :
    ∃ e ∈ g.dependents j, e.source = i ∨ e.isTransitive = true := by
  obtain ⟨a, ⟨e, he, hsource, htarget⟩, hpath⟩ := mem_identityClosure_iff.mp h
  rcases Relation.ReflTransGen.cases_tail hpath with rfl | ⟨b, -, hexposes⟩
  · exact ⟨e, mem_dependents.mpr ⟨he, htarget⟩, .inl hsource⟩
  · obtain ⟨d, hd, -, hlast, htransitive⟩ := exposes_iff.mp hexposes
    exact ⟨d, mem_dependents.mpr ⟨hd, hlast⟩, .inr htransitive⟩

end Provision.Graph
