import Provision.Proofs.VersionOrder
import Provision.Requirement

/-!
Spellings of one release. Two versions spell the same release if an exact constraint on one holds
for the other: they read as the same semantic version, or they are the same text. No constraint
tells such versions apart, nothing else comes between them in the order of versions, and a zero more
in a short core is another spelling.
-/

namespace Provision

variable {u v w : Version}

namespace Constraint

private theorem isSatisfied_exact (v w : Version) : (exact v).isSatisfied w =
    match v.semver?, w.semver? with
    | some a, some b => a == b
    | _, _ => v == w := rfl

/-- An exact constraint holds for what reads the same, and for the version as it is written. -/
theorem isSatisfied_exact_iff : (exact v).isSatisfied w = true ↔
    v = w ∨ ∃ a, v.semver? = some a ∧ w.semver? = some a := by
  rw [isSatisfied_exact]
  constructor
  · intro h
    split at h
    · rename_i a b hv hw
      obtain rfl := beq_iff_eq.mp h
      exact .inr ⟨a, hv, hw⟩
    · exact .inl (beq_iff_eq.mp h)
  · rintro (rfl | ⟨a, hv, hw⟩)
    · cases v.semver? with
      | none => exact beq_self_eq_true v
      | some a => exact beq_self_eq_true a
    · rw [hv, hw]
      exact beq_self_eq_true a

theorem isSatisfied_exact_self (v : Version) : (exact v).isSatisfied v = true :=
  isSatisfied_exact_iff.mpr (.inl rfl)

end Constraint

namespace Version

/-- Two versions spell the same release. -/
def SameRelease (v w : Version) : Prop :=
  (Constraint.exact v).isSatisfied w = true

instance (v w : Version) : Decidable (SameRelease v w) :=
  inferInstanceAs (Decidable (_ = true))

namespace SameRelease

private theorem symm (h : SameRelease v w) : SameRelease w v := by
  apply Constraint.isSatisfied_exact_iff.mpr
  rcases Constraint.isSatisfied_exact_iff.mp h with rfl | ⟨a, hv, hw⟩
  · exact .inl rfl
  · exact .inr ⟨a, hw, hv⟩

private theorem trans (huv : SameRelease u v) (hvw : SameRelease v w) : SameRelease u w := by
  rcases Constraint.isSatisfied_exact_iff.mp huv with rfl | ⟨a, hu, hv⟩
  · exact hvw
  · rcases Constraint.isSatisfied_exact_iff.mp hvw with rfl | ⟨b, hv', hw⟩
    · exact huv
    · obtain rfl := Option.some.inj (hv.symm.trans hv')
      exact Constraint.isSatisfied_exact_iff.mpr (.inr ⟨a, hu, hw⟩)

end SameRelease

private theorem equivalence_sameRelease : Equivalence SameRelease where
  refl := Constraint.isSatisfied_exact_self
  symm := SameRelease.symm
  trans := SameRelease.trans

/-- Versions that read the same spell the same release if they read as anything. -/
theorem semver?_eq_of_sameRelease (h : SameRelease v w) : v.semver? = w.semver? := by
  rcases Constraint.isSatisfied_exact_iff.mp h with rfl | ⟨a, hv, hw⟩
  · rfl
  · rw [hv, hw]

end Version

namespace Constraint

/-- Spellings of one release accept the same versions. -/
theorem isSatisfied_exact_congr (h : (exact v).isSatisfied w = true) (u : Version) :
    (exact v).isSatisfied u = (exact w).isSatisfied u := by
  have h : v.SameRelease w := h
  rw [Bool.eq_iff_iff]
  exact ⟨h.symm.trans, h.trans⟩

/-- No constraint tells spellings of one release apart. -/
theorem isSatisfied_congr (h : v.SameRelease w) (c : Constraint) :
    c.isSatisfied v = c.isSatisfied w := by
  cases c with
  | exact u =>
    rw [Bool.eq_iff_iff]
    exact ⟨fun huv => Version.SameRelease.trans huv h,
      fun huw => Version.SameRelease.trans huw h.symm⟩
  | range r =>
    have hread := Version.semver?_eq_of_sameRelease h
    unfold isSatisfied
    rw [hread]

end Constraint

namespace Version

/-- What lies between two spellings of a release in the order of versions is a spelling too. -/
theorem SameRelease.between (h : SameRelease u w) (huv : (compare u v).isLE)
    (hvw : (compare v w).isLE) : SameRelease u v := by
  rcases Constraint.isSatisfied_exact_iff.mp h with rfl | ⟨a, hu, hw⟩
  · have heq : u = v := Std.LawfulEqCmp.eq_of_compare (Std.OrientedCmp.isLE_antisymm huv hvw)
    exact heq ▸ equivalence_sameRelease.refl u
  · rw [compare_eq, hu] at huv
    rw [compare_eq, hw] at hvw
    have heq : some a = v.semver? := Std.LawfulEqCmp.eq_of_compare <| Std.OrientedCmp.isLE_antisymm
      (Ordering.isLE_left_of_isLE_then huv) (Ordering.isLE_left_of_isLE_then hvw)
    exact Constraint.isSatisfied_exact_iff.mpr (.inr ⟨a, hu, heq.symm⟩)

/-- Spellings of a release can stand for each other: in every constraint, and in the order of
versions. One more zero in a core of one or two numbers, that is with at most one dot, changes
nothing in what a version reads as, and makes nothing of a text that is no version. -/
theorem spellings_interchangeable :
    Equivalence SameRelease ∧
      (∀ v w, SameRelease v w ↔ ∀ c : Constraint, c.isSatisfied v = c.isSatisfied w) ∧
      (∀ u v w, (compare u v).isLE → (compare v w).isLE → SameRelease u w →
        SameRelease u v ∧ SameRelease v w) ∧
      ∀ core rest : String, IsSplit core.toList rest.toList → core.toList.count '.' ≤ 1 →
        (mk (core ++ ".0" ++ rest)).semver? = (mk (core ++ rest)).semver? := by
  refine ⟨equivalence_sameRelease, fun v w => ⟨Constraint.isSatisfied_congr, fun h => ?_⟩,
    fun u v w huv hvw h => ?_, fun core rest hsplit hcount => ?_⟩
  · exact (h (.exact v)).symm.trans (Constraint.isSatisfied_exact_self v)
  · have huv' := h.between huv hvw
    exact ⟨huv', huv'.symm.trans h⟩
  · have hread := hsplit.readSemver_append_zero (Nat.lt_succ_of_le hcount)
    simpa only [semver?, String.toList_append] using hread

/-- Three spellings of one candidate for a release, in order. -/
theorem spellings_interchangeable_ofCandidate :
    SameRelease ⟨"1-rc.1"⟩ ⟨"1.0.0-rc.1"⟩ ∧ (compare (mk "1-rc.1") ⟨"1.0-rc.1"⟩).isLE ∧
      (compare (mk "1.0-rc.1") ⟨"1.0.0-rc.1"⟩).isLE ∧
      (SameRelease ⟨"1-rc.1"⟩ ⟨"1.0-rc.1"⟩ ∧ SameRelease ⟨"1.0-rc.1"⟩ ⟨"1.0.0-rc.1"⟩) ∧
      IsSplit "1.0".toList "-rc.1".toList ∧ "1.0".toList.count '.' ≤ 1 ∧
      (mk ("1.0" ++ ".0" ++ "-rc.1")).semver? = (mk ("1.0" ++ "-rc.1")).semver? := by
  obtain ⟨-, -, hbetween, hzero⟩ := spellings_interchangeable
  have hends : SameRelease ⟨"1-rc.1"⟩ ⟨"1.0.0-rc.1"⟩ := by decide +kernel
  have hfirst : (compare (mk "1-rc.1") ⟨"1.0-rc.1"⟩).isLE := by decide +kernel
  have hlast : (compare (mk "1.0-rc.1") ⟨"1.0.0-rc.1"⟩).isLE := by decide +kernel
  have hsplit : IsSplit "1.0".toList "-rc.1".toList := ⟨by simp, by simp⟩
  have hcount : "1.0".toList.count '.' ≤ 1 := by decide +kernel
  exact ⟨hends, hfirst, hlast, hbetween _ _ _ hfirst hlast hends, hsplit, hcount,
    hzero _ _ hsplit hcount⟩

end Version

end Provision
