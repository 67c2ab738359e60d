import Provision.Proofs.Expansion.Restarts

/-!
Why expansions fail. A requirement can fail to be met in four ways, and a build that fails has come
to such a requirement in the last of its expansions, or does not know its root.
-/

namespace Provision

namespace Expansion

def cycleAlong (x : Expansion) (path : List Nat) (start : Nat) : List Reference :=
  (path ++ [start]).filterMap fun j => x.graph.nodes[j]?.map (·.reference)

/-- The four ways in which a requirement of the node `i` cannot be met. -/
inductive Fails (c : Catalog) (i : Nat) (requester : Reference) (req : Requirement)
    (x : Expansion) : GraphError → Prop
  | competing (pin : Pin) (hoverride : req.isOverride = true)
      (hpin : x.pin? req.name = some pin) (hdiffers : pin.constraint ≠ req.constraint) :
      Fails c i requester req x
        (.conflict req.name pin.requester pin.constraint requester req.constraint)
  | rejected (chosen : Choice) (hplain : req.isOverride = false)
      (hchosen : x.choice? req.name = some chosen)
      (hrejects : (x.constraintFor req).isSatisfied chosen.version = false) :
      Fails c i requester req x
        (.conflict req.name chosen.requester chosen.constraint requester req.constraint)
  | closing (chosen : Choice) (path : List Nat) (hplain : req.isOverride = false)
      (hchosen : x.choice? req.name = some chosen)
      (hpath : x.graph.path? chosen.node i = some path) :
      Fails c i requester req x (.cycle (x.cycleAlong path chosen.node))
  | unavailable (e : GraphError) (hplain : req.isOverride = false)
      (hfree : x.choice? req.name = none)
      (hchoose : c.choose req.name (x.constraintFor req) requester = .error e) :
      Fails c i requester req x e

variable {c : Catalog} {root : RootSpec} {x : Expansion} {i : Nat} {requester : Reference}
  {req : Requirement} {e : GraphError}

private theorem fails_of_meet (h : meet c i requester x req = .error (.failed e)) :
    Fails c i requester req x e := by
  simp only [meet] at h
  split at h
  · rename_i hoverride
    simp only [registerPin] at h
    split at h
    · rename_i pin hpin
      split at h
      · cases h
      · rename_i hdiffers
        cases h
        exact .competing pin hoverride hpin hdiffers
    · split at h
      · split at h <;> cases h
      · cases h
  · rename_i hplain
    have hplain : req.isOverride = false := by simpa using hplain
    split at h
    · rename_i chosen hchosen
      simp only [joinChoice] at h
      split at h
      · rename_i hrejects
        cases h
        exact .rejected chosen hplain hchosen (by simpa [constraintFor] using hrejects)
      · split at h
        · rename_i path hpath
          cases h
          exact .closing chosen path hplain hchosen hpath
        · cases h
    · rename_i hfree
      split at h
      · cases h
      · rename_i hchoose
        cases h
        exact .unavailable _ hplain hfree hchoose

end Expansion

namespace Catalog

open Expansion

variable {c : Catalog} {root : RootSpec} {pins : List Pin} {name : PackageName}
  {constraint : Constraint} {requester : Reference} {e : GraphError}

/-- A version that cannot be chosen is not a matter of cycles or conflicts. -/
theorem choose_error_cases (h : c.choose name constraint requester = .error e) :
    (∃ what, e = .notFound what requester) ∨
      e = .unsolvable name constraint requester (c.available name) := by
  rw [choose, bind_eq_error_iff] at h
  rcases h with hversion | ⟨version, -, h⟩
  · simp only [chooseVersion] at hversion
    split at hversion
    · cases hversion
      exact .inl ⟨_, rfl⟩
    · split at hversion
      · cases hversion
      · cases hversion
        exact .inr rfl
  · split at h
    · cases h
    · cases h
      exact .inl ⟨_, rfl⟩

/-- A failure of an expansion from a root: the root is not known, or some requirement of a node
cannot be met. -/
inductive FailsUnder (c : Catalog) (root : RootSpec) (pins : List Pin) : GraphError → Prop
  | unknownRoot {r : Reference} (hroot : root = .package r) (hrecipe : c.recipe? r = none) :
      FailsUnder c root pins (.notFound r.text consumerReference)
  | unmet {i : Nat} {met left : List Requirement} {req : Requirement} {x : Expansion} {n : Node}
      {e : GraphError} (h : Underway c root pins i met (req :: left) x)
      (hnode : x.graph.nodes[i]? = some n) (hfails : Fails c i n.reference req x e) :
      FailsUnder c root pins e

private theorem failsUnder_of_expand (h : c.expand root pins = .error (.failed e)) :
    c.FailsUnder root pins e := by
  have hends := ends_of_expand c root pins
  rw [h] at hends
  cases hends with
  | unknownRoot hstart =>
    simp only [start] at hstart
    split at hstart
    · cases hstart
    · split at hstart
      · rename_i r hrecipe
        cases hstart
        exact .unknownRoot rfl hrecipe
      · cases hstart
  | interrupted hunderway hnode hmeet => exact .unmet hunderway hnode (fails_of_meet hmeet)

/-- A build that fails while it expands fails in an expansion that restarts have led to. -/
theorem failsUnder_of_expandFrom (hpins : Restarted c root pins)
    (h : c.expandFrom root pins = .error e) : ∃ last, Restarted c root last ∧
      c.FailsUnder root last e := by
  fun_induction expandFrom c root pins with
  | case1 pins x hexpand => cases h
  | case2 pins e' hexpand =>
    cases h
    exact ⟨pins, hpins, failsUnder_of_expand hexpand⟩
  | case3 pins next hexpand ih => exact ih (.restart hpins hexpand) h

end Catalog

end Provision
