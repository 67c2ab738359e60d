import Mathlib.Data.List.Chain
import Provision.Proofs.Graph.Arrows
import Provision.Proofs.Graph.LongestPaths

/-!
The search for a path finds one whenever there is one, and what it finds is one. An edge whose
source cannot be reached from its target therefore closes no cycle.
-/

namespace Provision.Graph

variable {g : Graph} {i j source target : Nat} {path : List Nat}

/-- A list of nodes leads along dependencies from one node to another, both included. -/
structure IsPath (g : Graph) (source target : Nat) (path : List Nat) : Prop where
  chain : path.IsChain g.HasEdge
  head?_eq : path.head? = some source
  getLast?_eq : path.getLast? = some target

theorem IsPath.length_pos (h : g.IsPath source target path) : 0 < path.length := by
  refine List.length_pos_iff.mpr ?_
  rintro rfl
  cases h.head?_eq

/-- What holds of the first node of a path, and moves along edges, holds of every node on it. -/
theorem IsPath.forall_mem {P : Nat → Prop} (h : g.IsPath source target path) (hsource : P source)
    (hstep : ∀ a b, g.HasEdge a b → P a → P b) : ∀ a ∈ path, P a := by
  refine List.IsChain.induction P path h.chain (fun a b hab => hstep a b hab) fun hne => ?_
  have hhead := List.head?_eq_some_head hne
  rw [h.head?_eq] at hhead
  rwa [← Option.some.inj hhead]

section Soundness

/-- A path that is kept backwards: each node has an edge to the one before it, and the last of them
is where the search began. -/
def IsTrail (g : Graph) (source : Nat) (trail : List Nat) : Prop :=
  trail.IsChain (fun a b => g.HasEdge b a) ∧ trail.getLast? = some source

private theorem IsTrail.cons (h : g.IsTrail source (i :: path)) (hij : g.HasEdge i j) :
    g.IsTrail source (j :: i :: path) :=
  ⟨List.isChain_cons_cons.mpr ⟨hij, h.1⟩, h.2⟩

private theorem IsTrail.reverse (h : g.IsTrail source (target :: path)) :
    g.IsPath source target (target :: path).reverse where
  chain := List.isChain_reverse.mpr h.1
  head?_eq := by rw [List.head?_reverse, h.2]
  getLast?_eq := by rw [List.getLast?_reverse, List.head?_cons]

/-- A search whose queue holds trails finds a path. -/
theorem isPath_of_searchPath {queue : List (List Nat)} {seen : List Nat}
    (hqueue : ∀ trail ∈ queue, trail ≠ [] → g.IsTrail source trail)
    (h : g.searchPath target queue seen = some path) : g.IsPath source target path := by
  fun_induction searchPath g target queue seen with
  | case1 seen => cases h
  | case2 seen rest ih => exact ih (fun trail htrail => hqueue trail (.tail [] htrail)) h
  | case3 seen trail rest =>
    cases h
    exact (hqueue _ List.mem_cons_self (List.cons_ne_nil _ _)).reverse
  | case4 seen i trail rest hi fresh ih =>
    refine ih (fun longer hlonger hne => ?_) h
    rcases List.mem_append.mp hlonger with hold | hnew
    · exact hqueue longer (.tail _ hold) hne
    · obtain ⟨j, hj, rfl⟩ := List.mem_map.mp hnew
      obtain ⟨e, he, rfl⟩ := mem_freshTargets hj
      obtain ⟨hmem, hsource⟩ := mem_dependencies.mp he
      exact (hqueue _ List.mem_cons_self (List.cons_ne_nil _ _)).cons ⟨e, hmem, hsource, rfl⟩

theorem isPath_of_path? (h : g.path? source target = some path) :
    g.IsPath source target path := by
  refine isPath_of_searchPath (fun trail htrail _ => ?_) h
  rw [List.mem_singleton.mp htrail]
  exact ⟨List.isChain_singleton source, rfl⟩

end Soundness

section Completeness

private theorem mem_freshTargets_or
    {edges : List Edge} {e : Edge} (he : e ∈ edges) (seen : List Nat) :
    e.target ∈ seen ∨ e.target ∈ freshTargets seen edges := by
  induction edges generalizing seen with
  | nil => cases he
  | cons first edges ih =>
    rw [freshTargets]
    rcases List.mem_cons.mp he with rfl | he
    · split
      · rename_i hseen
        exact .inl (List.contains_iff_mem.mp hseen)
      · exact .inr List.mem_cons_self
    · split
      · exact ih he seen
      · rcases ih he (seen ++ [first.target]) with hseen | hfresh
        · rcases List.mem_append.mp hseen with hseen | hfirst
          · exact .inl hseen
          · rw [List.mem_singleton.mp hfirst]
            exact .inr List.mem_cons_self
        · exact .inr (.tail _ hfresh)

/-- A seen node has been dealt with: it is not the target, and its dependencies have been seen. -/
def IsDone (g : Graph) (target : Nat) (seen : List Nat) (i : Nat) : Prop :=
  i ≠ target ∧ ∀ j, g.HasEdge i j → j ∈ seen

/-- A search in which every seen node waits on the queue or has been dealt with, and which finds
nothing, has no seen node from which the target can be reached. -/
theorem not_reaches_of_searchPath {queue : List (List Nat)} {seen : List Nat}
    (hseen : ∀ a ∈ seen, (∃ trail ∈ queue, trail.head? = some a) ∨ g.IsDone target seen a)
    (h : g.searchPath target queue seen = none) : ∀ a ∈ seen, ¬g.Reaches a target := by
  fun_induction searchPath g target queue seen with
  | case1 seen =>
    have hdone : ∀ a ∈ seen, g.IsDone target seen a := by
      intro a ha
      rcases hseen a ha with ⟨trail, htrail, -⟩ | hdone
      · cases htrail
      · exact hdone
    intro a ha hreaches
    -- what is seen is closed under edges and does not hold the target
    have hclosed : ∀ b, g.Reaches a b → b ∈ seen := fun b hb => by
      induction hb with
      | refl => exact ha
      | tail _ hedge ih => exact (hdone _ ih).2 _ hedge
    exact (hdone target (hclosed target hreaches)).1 rfl
  | case2 seen rest ih =>
    refine ih (fun a ha => ?_) h
    rcases hseen a ha with ⟨trail, htrail, hhead⟩ | hdone
    · rcases List.mem_cons.mp htrail with rfl | htrail
      · cases hhead
      · exact .inl ⟨trail, htrail, hhead⟩
    · exact .inr hdone
  | case3 seen trail rest => cases h
  | case4 seen i trail rest hi fresh ih =>
    intro a ha
    refine ih (fun b hb => ?_) h a (List.mem_append_left fresh ha)
    rcases List.mem_append.mp hb with hb | hb
    · rcases hseen b hb with ⟨other, hother, hhead⟩ | hdone
      · rcases List.mem_cons.mp hother with rfl | hother
        · -- the node in hand is done now: its dependencies were seen before or are fresh
          obtain rfl : i = b := Option.some.inj hhead
          refine .inr ⟨hi, fun j hij => ?_⟩
          obtain ⟨e, he, hsource, rfl⟩ := hij
          exact List.mem_append.mpr (mem_freshTargets_or (mem_dependencies.mpr ⟨he, hsource⟩) seen)
        · exact .inl ⟨other, List.mem_append_left _ hother, hhead⟩
      · exact .inr ⟨hdone.1, fun j hij => List.mem_append_left _ (hdone.2 j hij)⟩
    · exact .inl ⟨b :: i :: trail, List.mem_append_right _ (List.mem_map_of_mem hb), rfl⟩

theorem not_reaches_of_path? (h : g.path? source target = none) : ¬g.Reaches source target := by
  refine not_reaches_of_searchPath (fun a ha => ?_) h source List.mem_cons_self
  rw [List.mem_singleton.mp ha]
  exact .inl ⟨[source], List.mem_cons_self, rfl⟩

end Completeness

section Acyclicity

variable {e : Edge}

private theorem hasEdge_addEdge :
    (g.addEdge e).HasEdge i j ↔ g.HasEdge i j ∨ e.source = i ∧ e.target = j := by
  simp [HasEdge, or_and_right, exists_or]

/-- A path in a graph with one more edge either does without it, or leads to it and on from it. -/
theorem transGen_or_of_addEdge (h : Relation.TransGen (g.addEdge e).HasEdge i j) :
    Relation.TransGen g.HasEdge i j ∨ g.Reaches i e.source ∧ g.Reaches e.target j := by
  induction h with
  | single hedge =>
    rcases hasEdge_addEdge.mp hedge with hold | ⟨rfl, rfl⟩
    · exact .inl (.single hold)
    · exact .inr ⟨.refl, .refl⟩
  | tail _ hedge ih =>
    rcases hasEdge_addEdge.mp hedge with hold | ⟨rfl, rfl⟩
    · exact ih.imp (·.tail hold) fun ⟨hto, hon⟩ => ⟨hto, hon.tail hold⟩
    · rcases ih with hpath | ⟨hto, -⟩
      · exact .inr ⟨hpath.to_reflTransGen, .refl⟩
      · exact .inr ⟨hto, .refl⟩

theorem IsAcyclic.addEdge (h : g.IsAcyclic) (hback : ¬g.Reaches e.target e.source) :
    (g.addEdge e).IsAcyclic := by
  intro i hcycle
  rcases transGen_or_of_addEdge hcycle with hold | ⟨hto, hon⟩
  · exact h i hold
  · exact hback (hon.trans hto)

theorem isAcyclic_ofRoot (n : Node) : (ofRoot n).IsAcyclic := by
  intro i hcycle
  obtain ⟨j, ⟨e, he, -⟩, -⟩ := Relation.TransGen.head'_iff.mp hcycle
  cases he

/-- Nothing can be reached from an index beyond the nodes but itself. -/
theorem EdgesInside.not_reaches_of_lt (h : g.EdgesInside) (hi : i < g.size) :
    ¬g.Reaches g.size i := by
  intro hreaches
  rcases Relation.ReflTransGen.cases_head hreaches with heq | ⟨j, ⟨e, he, hsource, -⟩, -⟩
  · omega
  · have := (h e he).1
    omega

end Acyclicity

end Provision.Graph
