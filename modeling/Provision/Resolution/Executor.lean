import Provision.Decision

/-!
Executors. The decisions about the nodes of a graph are made side by side, and an executor says in
which order they come to their ends. Any order is possible. On a single thread, a decision that has
asked stores too often lets the others go first, and since a store that fails is asked faster than
one that answers, the order depends on what the stores answer.
-/

namespace Provision

/-- The order in which the decisions about the nodes of a graph are completed, which may depend on
all that the decisions see. -/
structure Executor where
  order : DecisionContext → Graph → List Nat
  perm : ∀ k g, (order k g).Perm (List.range g.size)

namespace Executor

/-- The executor that completes the decisions in the order of the nodes. -/
def inOrder : Executor :=
  ⟨fun _ g => List.range g.size, fun _ _ => .refl _⟩

/-- The steps of asking stores in turn for a binary: two for an answer, and one for a failure. -/
def searchSteps (key : BinaryKey) : List (Location × Store) → Nat
  | [] => 0
  | (_, store) :: rest =>
    match store.exists? key with
    | .ok true => 2
    | .ok false => 2 + searchSteps key rest
    | .error _ => 1 + searchSteps key rest

def lookupSteps (stores : Stores) : List BinaryKey → Nat
  | [] => 0
  | key :: keys =>
    searchSteps key stores.ranked +
      if (stores.locate key).location?.isSome then 0 else lookupSteps stores keys

def decisionSteps (k : DecisionContext) (g : Graph) (i : Nat) : Nat :=
  match g.nodes[i]? with
  | none => 0
  | some n =>
    let requested := if n.invalid?.isSome then [] else n.binaryKey?.toList
    let offered :=
      if k.policy.isForced n.reference then []
      else ((g.candidates k.mode i n).toOption.getD []).map (.of n.reference ·.id)
    lookupSteps k.stores (requested ++ offered)

/-- Tasks in the order in which they end, when so many steps are left in this turn. A task that needs
more of them uses them up and waits for the next turn, and then only tasks that need none end before
it, as long as fewer than `bound` tasks wait. -/
def overtaking (bound : Nat) : Nat → List Nat → List (Nat × Nat) → List Nat
  | _, waiting, [] => waiting
  | left, waiting, (i, steps) :: tasks =>
    if steps ≤ left ∧ waiting.length < bound then i :: overtaking bound (left - steps) waiting tasks
    else overtaking bound 0 (waiting ++ [i]) tasks

private theorem perm_overtaking (bound left : Nat) (waiting : List Nat) (tasks : List (Nat × Nat)) :
    (overtaking bound left waiting tasks).Perm (waiting ++ tasks.map (·.1)) := by
  induction tasks generalizing left waiting with
  | nil => simp [overtaking]
  | cons task tasks ih =>
    obtain ⟨i, steps⟩ := task
    rw [overtaking, List.map_cons]
    split
    · exact ((ih _ waiting).cons i).trans List.perm_middle.symm
    · have hrest := ih 0 (waiting ++ [i])
      rwa [List.append_assoc] at hrest

/-- A single thread, on which at most `bound` decisions take turns of so many steps. -/
def takingTurns (bound steps : Nat) : Executor where
  order k g := overtaking bound steps [] ((List.range g.size).map fun i => (i, decisionSteps k g i))
  perm k g := by
    have hperm := perm_overtaking bound steps []
      ((List.range g.size).map fun i => (i, decisionSteps k g i))
    simpa [Function.comp_def] using hperm

end Executor

end Provision
