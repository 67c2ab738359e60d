import Provision.Compatibility
import Provision.Fallible

/-!
Candidates that have been prepared. Each of them stands at its position in the offer of the
package's own hook, has the identity of the configuration that it stands for, and was judged valid;
and every candidate that is accepted is represented by the first of its digest.
-/

namespace Provision

/-- A recipe gives a configuration an identity, and judges it valid. -/
def Recipe.Accepts (recipe : Recipe) (context : HookContext) (requires : Values)
    (requested : Configuration) (id : PackageId) : Prop :=
  ∃ identity, recipe.identify requested requires = .ok identity ∧ identity.id = id ∧
    recipe.judge { context with requested, info := identity.info } = .ok .valid

/-- The compatibility hook of a node offers a candidate at a position. -/
def Graph.Offers (g : Graph) (i : Nat) (n : Node) (recipe : Recipe) (index : Nat)
    (candidate : Candidate) : Prop :=
  ∃ hook offered, recipe.hooks.compatibility? = some hook ∧
    hook (g.hookContext i n) = .ok offered ∧ offered[index]? = some candidate

theorem Graph.Offers.unique {g : Graph} {i : Nat} {n : Node} {recipe : Recipe} {index : Nat}
    {candidate candidate' : Candidate} (h : g.Offers i n recipe index candidate)
    (h' : g.Offers i n recipe index candidate') : candidate = candidate' := by
  obtain ⟨hook, offered, hhook, hoffered, hplace⟩ := h
  obtain ⟨hook', offered', hhook', hoffered', hplace'⟩ := h'
  obtain rfl := Option.some.inj (hhook.symm.trans hhook')
  obtain rfl := Except.ok.inj (hoffered.symm.trans hoffered')
  exact Option.some.inj (hplace.symm.trans hplace')

theorem Recipe.Accepts.unique {recipe : Recipe} {context : HookContext} {requires : Values}
    {requested : Configuration} {id id' : PackageId}
    (h : recipe.Accepts context requires requested id)
    (h' : recipe.Accepts context requires requested id') : id = id' := by
  obtain ⟨identity, hidentify, rfl, -⟩ := h
  obtain ⟨identity', hidentify', rfl, -⟩ := h'
  rw [hidentify, Except.ok.injEq] at hidentify'
  rw [hidentify']

namespace Recipe

/-- How candidates are prepared from a position on, with the digests that have been seen before:
each is rejected, or repeats a digest, or is kept. -/
inductive Prepares (recipe : Recipe) (context : HookContext) (requires : Values) :
    Nat → List String → List Candidate → List PreparedCandidate → Prop
  | done {index : Nat} {seen : List String} : Prepares recipe context requires index seen [] []
  | rejected {index : Nat} {seen : List String} {candidate : Candidate} {rest : List Candidate}
      {prepared : List PreparedCandidate}
      (hrejects : ∀ id, ¬recipe.Accepts context requires
        (recipe.substituted context.requested candidate) id)
      (hrest : Prepares recipe context requires (index + 1) seen rest prepared) :
      Prepares recipe context requires index seen (candidate :: rest) prepared
  | repeated {index : Nat} {seen : List String} {candidate : Candidate} {rest : List Candidate}
      {prepared : List PreparedCandidate} {id : PackageId}
      (haccepts : recipe.Accepts context requires
        (recipe.substituted context.requested candidate) id)
      (hseen : id.digest ∈ seen)
      (hrest : Prepares recipe context requires (index + 1) seen rest prepared) :
      Prepares recipe context requires index seen (candidate :: rest) prepared
  | kept {index : Nat} {seen : List String} {candidate : Candidate} {rest : List Candidate}
      {prepared : List PreparedCandidate} {id : PackageId}
      (haccepts : recipe.Accepts context requires
        (recipe.substituted context.requested candidate) id)
      (hfresh : id.digest ∉ seen)
      (hrest : Prepares recipe context requires (index + 1) (id.digest :: seen) rest prepared) :
      Prepares recipe context requires index seen (candidate :: rest) (⟨index, id⟩ :: prepared)

variable {recipe : Recipe} {context : HookContext} {requires : Values} {index place : Nat}
  {seen : List String} {offered : List Candidate} {prepared : List PreparedCandidate}
  {p : PreparedCandidate} {candidate : Candidate} {id : PackageId}

private theorem prepares_of_prepare
    (h : recipe.prepare context requires index seen offered = .ok prepared) :
    Prepares recipe context requires index seen offered prepared := by
  induction offered generalizing index seen prepared with
  | nil =>
    cases h
    exact .done
  | cons candidate rest ih =>
    simp only [prepare, bind_eq_ok_iff] at h
    obtain ⟨identity, hidentify, verdict, hjudge, h⟩ := h
    cases verdict with
    | invalid reason =>
      refine .rejected ?_ (ih h)
      rintro id ⟨identity', hidentify', -, hjudge'⟩
      obtain rfl := Except.ok.inj (hidentify.symm.trans hidentify')
      rw [hjudge] at hjudge'
      cases hjudge'
    | valid =>
      have haccepts : recipe.Accepts context requires
          (recipe.substituted context.requested candidate) identity.id :=
        ⟨identity, hidentify, rfl, hjudge⟩
      dsimp only at h
      split at h
      · rename_i hseen
        exact .repeated haccepts (List.contains_iff_mem.mp hseen) (ih h)
      · rename_i hfresh
        obtain ⟨later, hlater, h⟩ := bind_eq_ok_iff.mp h
        cases h
        exact .kept haccepts (fun hmem => hfresh (List.contains_iff_mem.mpr hmem)) (ih hlater)

/-- Whatever is prepared was accepted in its place, under a digest that had not been seen. -/
theorem Prepares.exists_of_mem (h : Prepares recipe context requires index seen offered prepared)
    (hp : p ∈ prepared) :
    ∃ place candidate, p.index = index + place ∧ offered[place]? = some candidate ∧
      recipe.Accepts context requires (recipe.substituted context.requested candidate) p.id ∧
        p.id.digest ∉ seen := by
  induction h with
  | done => cases hp
  | rejected hrejects hrest ih =>
    obtain ⟨place, candidate, hindex, hplace, haccepts⟩ := ih hp
    exact ⟨place + 1, candidate, by omega, hplace, haccepts⟩
  | repeated haccepts hseen hrest ih =>
    obtain ⟨place, candidate, hindex, hplace, haccepts⟩ := ih hp
    exact ⟨place + 1, candidate, by omega, hplace, haccepts⟩
  | kept haccepts hfresh hrest ih =>
    rcases List.mem_cons.mp hp with rfl | hp
    · exact ⟨0, _, rfl, rfl, haccepts, hfresh⟩
    · obtain ⟨place, candidate, hindex, hplace, haccepts, hnew⟩ := ih hp
      exact ⟨place + 1, candidate, by omega, hplace, haccepts,
        fun hseen => hnew (.tail _ hseen)⟩

/-- What is prepared keeps the order of the offer. -/
theorem Prepares.sorted (h : Prepares recipe context requires index seen offered prepared) :
    prepared.Pairwise (·.index < ·.index) := by
  induction h with
  | done => exact .nil
  | rejected hrejects hrest ih => exact ih
  | repeated haccepts hseen hrest ih => exact ih
  | kept haccepts hfresh hrest ih =>
    refine .cons (fun p hp => ?_) ih
    obtain ⟨place, candidate, hindex, -⟩ := hrest.exists_of_mem hp
    rw [hindex]
    dsimp only
    omega

/-- The digest of an accepted candidate has been seen before, or it is prepared: from this
candidate, or from an earlier one of the same digest. -/
theorem Prepares.exists_of_accepts
    (h : Prepares recipe context requires index seen offered prepared)
    (hplace : offered[place]? = some candidate)
    (haccepts : recipe.Accepts context requires
      (recipe.substituted context.requested candidate) id) :
    id.digest ∈ seen ∨ ∃ p ∈ prepared, p.id.digest = id.digest ∧ p.index ≤ index + place := by
  induction h generalizing place with
  | done => cases hplace
  | rejected hrejects hrest ih =>
    cases place with
    | zero =>
      cases hplace
      exact absurd haccepts (hrejects id)
    | succ place =>
      rcases ih hplace with hseen | ⟨p, hp, hdigest, hle⟩
      · exact .inl hseen
      · exact .inr ⟨p, hp, hdigest, by omega⟩
  | repeated hother hseen hrest ih =>
    cases place with
    | zero =>
      cases hplace
      exact .inl (haccepts.unique hother ▸ hseen)
    | succ place =>
      rcases ih hplace with hseen | ⟨p, hp, hdigest, hle⟩
      · exact .inl hseen
      · exact .inr ⟨p, hp, hdigest, by omega⟩
  | kept hother hfresh hrest ih =>
    cases place with
    | zero =>
      cases hplace
      exact .inr ⟨_, List.mem_cons_self, congrArg _ (hother.unique haccepts), Nat.le_refl _⟩
    | succ place =>
      rcases ih hplace with hseen | ⟨p, hp, hdigest, hle⟩
      · rcases List.mem_cons.mp hseen with hsame | hseen
        · exact .inr ⟨_, List.mem_cons_self, hsame.symm, Nat.le_add_right ..⟩
        · exact .inl hseen
      · exact .inr ⟨p, .tail _ hp, hdigest, by omega⟩

end Recipe

/-- Candidates of a node are prepared from what its own hook offers, if it has one. -/
theorem Graph.prepares_of_candidates {g : Graph} {mode : IdentityMode} {i : Nat} {n : Node}
    {candidates : List PreparedCandidate} (h : g.candidates mode i n = .ok candidates) :
    (candidates = [] ∧ ∀ recipe, n.recipe? = some recipe → recipe.hooks.compatibility? = none) ∨
      ∃ recipe hook offered, n.recipe? = some recipe ∧ recipe.hooks.compatibility? = some hook ∧
        hook (g.hookContext i n) = .ok offered ∧
        recipe.Prepares (g.hookContext i n) (g.contributions mode i) 0
          (n.id?.map (·.digest)).toList offered candidates := by
  unfold Graph.candidates at h
  split at h
  · rename_i hrecipe
    cases h
    exact .inl ⟨rfl, by simp [hrecipe]⟩
  · rename_i recipe hrecipe
    split at h
    · rename_i hhook
      cases h
      refine .inl ⟨rfl, fun other hother => ?_⟩
      rwa [← Option.some.inj (hrecipe.symm.trans hother)]
    · rename_i hook hhook
      simp only [bind_eq_ok_iff, crashOnError, mapError_eq_ok_iff] at h
      obtain ⟨offered, hoffered, hprepare⟩ := h
      exact .inr ⟨recipe, hook, offered, hrecipe, hhook, hoffered,
        Recipe.prepares_of_prepare hprepare⟩

theorem Graph.exists_of_mem_candidates {g : Graph} {mode : IdentityMode} {i : Nat} {n : Node}
    {candidates : List PreparedCandidate} {p : PreparedCandidate}
    (h : g.candidates mode i n = .ok candidates) (hp : p ∈ candidates) :
    ∃ recipe candidate, n.recipe? = some recipe ∧ g.Offers i n recipe p.index candidate ∧
      recipe.Accepts (g.hookContext i n) (g.contributions mode i)
        (recipe.substituted n.requested candidate) p.id := by
  rcases prepares_of_candidates h with
    ⟨rfl, -⟩ | ⟨recipe, hook, offered, hrecipe, hhook, hoffered, hprepares⟩
  · cases hp
  · obtain ⟨place, candidate, hindex, hplace, haccepts, -⟩ := hprepares.exists_of_mem hp
    rw [Nat.zero_add] at hindex
    exact ⟨recipe, candidate, hrecipe, ⟨hook, offered, hhook, hoffered, hindex ▸ hplace⟩, haccepts⟩

end Provision
