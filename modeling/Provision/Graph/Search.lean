import Provision.Graph.Basic

/-!
Searches along dependencies, breadth first: shortest paths, and the identity closure of a node,
which lists its direct dependencies and whatever these expose through transitive edges, nearest
first.
-/

namespace Provision.Graph

/-! ### Paths -/

/-- The targets of a list of edges that are not yet seen, each once. -/
def freshTargets (seen : List Nat) : List Edge → List Nat
  | [] => []
  | e :: edges =>
    if seen.contains e.target then freshTargets seen edges
    else e.target :: freshTargets (seen ++ [e.target]) edges

def edgesUnseen (g : Graph) (seen : List Nat) : Nat :=
  g.edges.countP fun e => !seen.contains e.target

private theorem edgesUnseen_append_lt (g : Graph) {seen : List Nat} {e : Edge} (he : e ∈ g.edges)
    (h : seen.contains e.target = false) :
    g.edgesUnseen (seen ++ [e.target]) < g.edgesUnseen seen := by
  unfold edgesUnseen
  generalize g.edges = edges at he
  induction edges with
  | nil => simp at he
  | cons d edges ih =>
    have hle : edges.countP (fun d => !(seen ++ [e.target]).contains d.target) ≤
        edges.countP (fun d => !seen.contains d.target) :=
      List.countP_mono_left (by simp +contextual)
    rcases List.mem_cons.mp he with rfl | he
    · rw [List.countP_cons_of_neg (by simp), List.countP_cons_of_pos (by simpa using h)]
      exact Nat.lt_succ_of_le hle
    · have hlt := ih he
      simp only [List.countP_cons]
      have hd : (if (!(seen ++ [e.target]).contains d.target) = true then 1 else 0) ≤
          if (!seen.contains d.target) = true then 1 else 0 := by
        cases hs : seen.contains d.target
        · simp only [Bool.not_false, if_true]
          split <;> decide
        · simp only [List.contains_append, hs, Bool.true_or, Bool.not_true]
          exact Nat.le_refl _
      omega

private theorem edgesUnseen_freshTargets
    (g : Graph) (edges : List Edge) (h : ∀ e ∈ edges, e ∈ g.edges)
    (seen : List Nat) :
    g.edgesUnseen (seen ++ freshTargets seen edges) + (freshTargets seen edges).length ≤
      g.edgesUnseen seen := by
  induction edges generalizing seen with
  | nil => simp [freshTargets]
  | cons e edges ih =>
    obtain ⟨he, hrest⟩ := List.forall_mem_cons.mp h
    simp only [freshTargets]
    split
    · exact ih hrest seen
    · rename_i hseen
      have := ih hrest (seen ++ [e.target])
      have := g.edgesUnseen_append_lt he (by simpa using hseen)
      simp only [List.append_assoc, List.cons_append, List.nil_append, List.length_cons] at *
      omega

/-- Search from the ends of the queued paths, which are kept backwards. -/
def searchPath (g : Graph) (target : Nat) (queue : List (List Nat)) (seen : List Nat) :
    Option (List Nat) :=
  match queue with
  | [] => none
  | [] :: rest => searchPath g target rest seen
  | (i :: path) :: rest =>
    if i = target then some (i :: path).reverse
    else
      let fresh := freshTargets seen (g.dependencies i)
      searchPath g target (rest ++ fresh.map (· :: i :: path)) (seen ++ fresh)
termination_by g.edgesUnseen seen + queue.length
decreasing_by
  · simp
  · have := g.edgesUnseen_freshTargets (g.dependencies i)
      (fun e he => (List.mem_filter.mp he).1) seen
    simp only [List.length_append, List.length_map, List.length_cons]
    omega

def path? (g : Graph) (source target : Nat) : Option (List Nat) :=
  searchPath g target [[source]] [source]

/-! ### Closures -/

def exposed (g : Graph) (i : Nat) : List Nat :=
  ((g.dependencies i).filter (·.isTransitive)).map (·.target)

def edgesOutside (g : Graph) (found : List Nat) : Nat :=
  g.edges.countP fun e => !found.contains e.source

theorem length_exposed_le (g : Graph) (i : Nat) :
    (g.exposed i).length ≤ g.edges.countP (·.source == i) := by
  simp only [exposed, dependencies, List.length_map, List.countP_eq_length_filter]
  exact List.length_filter_le ..

theorem edgesOutside_append (g : Graph) {found : List Nat} {i : Nat} (h : found.contains i = false) :
    g.edgesOutside (found ++ [i]) + g.edges.countP (·.source == i) = g.edgesOutside found := by
  unfold edgesOutside
  induction g.edges with
  | nil => rfl
  | cons e edges ih =>
    simp only [List.countP_cons, List.contains_eq_mem, List.mem_append, List.mem_singleton] at ih h ⊢
    by_cases hi : e.source = i
    · subst hi
      simp_all
      omega
    · by_cases hf : e.source ∈ found <;> simp_all
      omega

/-- Visit the nodes of a queue that are not yet found, and queue what they expose. -/
def closureFrom (g : Graph) (queue found : List Nat) : List Nat :=
  match queue with
  | [] => found
  | i :: rest =>
    if found.contains i then closureFrom g rest found
    else closureFrom g (rest ++ g.exposed i) (found ++ [i])
termination_by g.edgesOutside found + queue.length
decreasing_by
  · simp
  · rename_i h
    have := g.edgesOutside_append (by simpa using h)
    have := g.length_exposed_le i
    simp only [List.length_append, List.length_cons]
    omega

/-- The nodes that contribute to the identity of a node. -/
def identityClosure (g : Graph) (i : Nat) : List Nat :=
  closureFrom g ((g.dependencies i).map (·.target)) []

end Provision.Graph
