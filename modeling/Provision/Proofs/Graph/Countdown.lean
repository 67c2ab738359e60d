import Provision.Proofs.Graph.Layering

/-!
No count of dependencies ahead ever falls below zero. A countdown is a run that stops at the first
settlement which finds nothing left to settle; from every state between two rounds it gets to the
end, with the layers and the counts of the run that does not look.
-/

namespace Provision.Graph

namespace Progress

variable {p q : Progress} {d : Nat} {ds : List Nat}

/-- Settle a dependency of a node, unless none is ahead of it. -/
def settle? (p : Progress) (dependent : Nat) : Option Progress :=
  match p.pending[dependent]? with
  | some (_ + 1) => some (p.settle dependent)
  | _ => none

private theorem settle?_of_pos
    {count : Nat} (hcount : p.pending[d]? = some count) (hpos : 0 < count) :
    p.settle? d = some (p.settle d) := by
  cases count with
  | zero => cases hpos
  | succ count => simp [settle?, hcount]

private theorem eq_settle_of_settle? (h : p.settle? d = some q) : q = p.settle d := by
  unfold settle? at h
  split at h
  · exact (Option.some.inj h).symm
  · cases h

private theorem eq_foldl_of_foldlM_settle? (h : ds.foldlM settle? p = some q) :
    q = ds.foldl settle p := by
  induction ds generalizing p with
  | nil => exact (Option.some.inj h).symm
  | cons d ds ih =>
    rw [List.foldlM_cons] at h
    obtain ⟨p', hsettle, hrest⟩ := Option.bind_eq_some_iff.mp h
    rw [List.foldl_cons, ← eq_settle_of_settle? hsettle]
    exact ih hrest

/-- Dependents can be settled if none is listed more often than it has dependencies ahead. -/
theorem foldlM_settle?
    (h : ∀ d ∈ ds, ∃ count, p.pending[d]? = some count ∧ ds.count d ≤ count) :
    ds.foldlM settle? p = some (ds.foldl settle p) := by
  induction ds generalizing p with
  | nil => rfl
  | cons d ds ih =>
    obtain ⟨count, hcount, hle⟩ := h d List.mem_cons_self
    rw [List.count_cons_self] at hle
    rw [List.foldlM_cons, settle?_of_pos hcount (by omega)]
    refine ih fun i hi => ?_
    obtain ⟨count', hcount', hle'⟩ := h i (List.mem_cons_of_mem d hi)
    rw [getElem?_settle]
    by_cases hd : d = i
    · subst hd
      obtain rfl := Option.some.inj (hcount.symm.trans hcount')
      exact ⟨count - 1, by rw [if_pos rfl, hcount]; rfl, by omega⟩
    · rw [List.count_cons_of_ne hd] at hle'
      exact ⟨count', by rw [if_neg hd, hcount'], hle'⟩

end Progress

/-- The layers from a list of released nodes on, and the counts that remain, unless some count would
fall below zero. -/
def countdown? (g : Graph) (pending released : List Nat) :
    Option (List (List Nat) × List Nat) :=
  if released.isEmpty then some ([], pending)
  else
    let layer := g.sortByName released
    match _hround : (g.dependentsOfLayer layer).foldlM Progress.settle? ⟨pending, []⟩ with
    | none => none
    | some progress =>
      (countdown? g progress.pending progress.released).map fun (layers, rest) =>
        (layer :: layers, rest)
termination_by ahead pending + released.length
decreasing_by
  have := Progress.settleAll_measure pending (g.dependentsOfLayer (g.sortByName released))
  have hprogress : progress =
      Progress.settleAll pending (g.dependentsOfLayer (g.sortByName released)) :=
    Progress.eq_foldl_of_foldlM_settle? _hround
  have : 0 < released.length := by
    cases released with
    | nil => simp at *
    | cons _ _ => simp
  rw [hprogress]
  omega

variable {g : Graph} {settled pending released : List Nat}

/-- A round settles no dependency that is not ahead: the edges into its layer are some of those that
remain. -/
theorem IsSettling.foldlM_settle? (h : g.IsSettling settled pending released)
    (hinside : g.EdgesInside) :
    (g.dependentsOfLayer (g.sortByName released)).foldlM Progress.settle? ⟨pending, []⟩ =
      some (Progress.settleAll pending (g.dependentsOfLayer (g.sortByName released))) := by
  obtain ⟨-, hreleased, hdisjoint⟩ := List.nodup_append.mp h.nodup
  refine Progress.foldlM_settle? fun d hd => ?_
  simp only [dependentsOfLayer, List.mem_flatMap, List.mem_map, mem_dependents] at hd
  obtain ⟨j, -, e, ⟨he, -⟩, rfl⟩ := hd
  refine ⟨_, by rw [h.count, if_pos (hinside e he).1], ?_⟩
  rw [count_dependentsOfLayer g (nodup_sortByName hreleased)]
  refine List.countP_mono_left fun f _ hf => ?_
  simp only [Bool.and_eq_true, Bool.not_eq_true', List.contains_eq_mem, decide_eq_true_eq,
    decide_eq_false_iff_not, mem_sortByName] at hf ⊢
  exact ⟨hf.1, fun hsettled => hdisjoint _ hsettled _ hf.2 rfl⟩

/-- From every state between two rounds on, the countdown is the run itself. -/
theorem IsSettling.countdown?_eq (h : g.IsSettling settled pending released)
    (hinside : g.EdgesInside) :
    g.countdown? pending released = some (g.layersFrom pending released) := by
  induction pending, released using layersFrom.induct (g := g) generalizing settled with
  | case1 pending released hempty => rw [countdown?, layersFrom, if_pos hempty, if_pos hempty]
  | case2 pending released hempty layer progress later final =>
    rename_i hnext ih
    rw [countdown?, if_neg hempty, layersFrom_cons hempty rfl hnext]
    dsimp only
    split
    · rename_i hnone
      rw [h.foldlM_settle? hinside] at hnone
      cases hnone
    · rename_i progress' hsome
      rw [h.foldlM_settle? hinside] at hsome
      obtain rfl : progress = progress' := Option.some.inj hsome
      rw [ih (h.round rfl rfl), hnext]
      rfl

end Provision.Graph
