import Provision.Proofs.Semver.Precedence

/-!
The order of versions is a lawful total order. Versions that cannot be read as semantic versions
come first, in the order of their texts; the others are ordered by precedence, then by build
metadata, and by their texts where several spell the same version.
-/

namespace Provision.Version

/-- A total order of versions that goes by what they read as, and tells apart versions that read
the same by their texts. -/
structure IsReleaseOrder (cmp : Version → Version → Ordering) : Prop where
  swap : ∀ v w, cmp w v = (cmp v w).swap
  trans : ∀ u v w, (cmp u v).isLE → (cmp v w).isLE → (cmp u w).isLE
  antisymm : ∀ v w, (cmp v w).isLE → (cmp w v).isLE → v.text = w.text
  total : ∀ v w, (cmp v w).isLE ∨ (cmp w v).isLE
  eq_iff : ∀ v w, cmp v w = .eq ↔ v.text = w.text
  /-- Whatever does not read as a semantic version comes before everything that does. -/
  unreadable_first : ∀ v w, v.semver? = none → w.semver?.isSome → cmp v w = .lt
  unreadable : ∀ v w, v.semver? = none → w.semver? = none → cmp v w = compare v.text w.text
  semantic : ∀ v w a b, v.semver? = some a → w.semver? = some b →
    cmp v w = (compare a b).then (compare v.text w.text)
  /-- Precedence decides first, -/
  precedence : ∀ v w a b, v.semver? = some a → w.semver? = some b → a.Precedes b → cmp v w = .lt
  /-- and build metadata where it leaves the order open. -/
  metadata : ∀ v w a b, v.semver? = some a → w.semver? = some b → ¬a.Precedes b → ¬b.Precedes a →
    cmp v w = (Semver.compareBuild a.build b.build).then (compare v.text w.text)

variable {u v w : Version} {a b : Semver}

theorem compare_eq (v w : Version) :
    compare v w = (compare v.semver? w.semver?).then (compare v.text w.text) := rfl

private theorem compare_of_semver? (hv : v.semver? = some a) (hw : w.semver? = some b) :
    compare v w = (compare a b).then (compare v.text w.text) := by
  rw [compare_eq, hv, hw]
  rfl

private theorem compare_eq_eq_iff : compare v w = .eq ↔ v.text = w.text := by
  rw [Std.LawfulEqCmp.compare_eq_iff_eq]
  cases v
  cases w
  simp

/-- The order of versions is one of releases: texts that do not read as semantic versions come first,
and otherwise the text decides only among versions that read the same. -/
theorem isReleaseOrder_compare : IsReleaseOrder compare where
  swap v w := Std.OrientedCmp.eq_swap
  trans u v w := Std.TransCmp.isLE_trans
  antisymm v w hvw hwv := compare_eq_eq_iff.mp (Std.OrientedCmp.isLE_antisymm hvw hwv)
  total v w := by
    have hswap : compare w v = (compare v w).swap := Std.OrientedCmp.eq_swap
    rw [hswap]
    cases compare v w with
    | lt => exact .inl rfl
    | eq => exact .inl rfl
    | gt => exact .inr rfl
  eq_iff v w := compare_eq_eq_iff
  unreadable_first v w hv hw := by
    obtain ⟨b, hb⟩ := Option.isSome_iff_exists.mp hw
    rw [compare_eq, hv, hb]
    rfl
  unreadable v w hv hw := by
    rw [compare_eq, hv, hw]
    rfl
  semantic v w a b hv hw := compare_of_semver? hv hw
  precedence v w a b hv hw h := by
    have hlt : compare a b = .lt := (Semver.compare_eq_lt_iff (hasWrittenPre_of_readSemver hv)
      (hasWrittenPre_of_readSemver hw)).mpr (.inl h)
    rw [compare_of_semver? hv hw, hlt]
    rfl
  metadata v w a b hv hw hab hba := by
    rw [compare_of_semver? hv hw, Semver.compare_eq_compareBuild (hasWrittenPre_of_readSemver hv)
      (hasWrittenPre_of_readSemver hw) hab hba]

/-- From a text that is no version over pre-releases to three spellings of one version. -/
example : (["system", "1.0.0-alpha", "1.0.0-alpha.1", "1.0.0-alpha.beta", "1-beta.2",
    "1.0.0-beta.11", "1", "1.0", "1.0.0", "1.0+b.2", "1.10"].map mk).Pairwise
      fun v w => compare v w = .lt := by
  decide +kernel

end Provision.Version
