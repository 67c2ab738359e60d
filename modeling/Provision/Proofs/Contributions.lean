import Provision.PackageId
import Provision.Proofs.Semver.Pieces

/-!
What contributions to identities tell of the version of a dependency. A number is written without
dots, so the first dot ends it, whatever follows; hence a mode that renders some of the numbers of a
version tells exactly those. A version without a semantic reading is told as it is written. A digest
has a fixed length, so that it can be told from a version before it, even from one with colons.
-/

namespace Provision

/-! ### Digests -/

def isHexDigit (c : Char) : Bool :=
  c.isDigit || ('a' ≤ c && c ≤ 'f')

/-- An identity holds the digest of a hash: sixty-four hexadecimal digits. -/
structure PackageId.HasHexDigest (id : PackageId) : Prop where
  length : id.digest.length = 64
  digits : ∀ c ∈ id.digest.toList, isHexDigit c = true

private theorem isHexDigit_digitChar : ∀ n < 16, isHexDigit (Nat.digitChar n) = true := by
  decide

private theorem Sha256.isHexDigit_of_mem_hexWord {w : UInt32} {c : Char} (h : c ∈ hexWord w) :
    isHexDigit c = true := by
  obtain ⟨shift, -, rfl⟩ := List.mem_map.mp h
  exact isHexDigit_digitChar _ (Nat.mod_lt _ (by decide))

private theorem PackageId.hasHexDigest_compute (c : Configuration) : (compute c).HasHexDigest where
  length := by
    rw [compute, Sha256.hexDigest, String.length_ofList]
    rfl
  digits d hd := by
    rw [compute, Sha256.hexDigest, String.toList_ofList] at hd
    obtain ⟨w, -, hw⟩ := List.mem_flatMap.mp hd
    exact Sha256.isHexDigit_of_mem_hexWord hw

/-! ### Numbers -/

private theorem toString_nat_inj {m n : Nat} : toString m = toString n ↔ m = n := by
  refine ⟨fun h => ?_, congrArg _⟩
  -- The digits of a number give the number back.
  have hdigits : Nat.toDigits 10 m = Nat.toDigits 10 n := by
    rw [← Nat.toList_repr, ← Nat.toList_repr]
    exact congrArg String.toList h
  rw [← Semver.digitsValue_toDigits m, hdigits, Semver.digitsValue_toDigits]

private theorem dot_notMem_toString (n : Nat) : '.' ∉ (toString n).toList := fun h =>
  absurd (Semver.isDigit_of_mem_toString h) (by decide)

/-- The first dot ends a number. -/
theorem number_append_inj {m n : Nat} {r t : String} :
    toString m ++ ("." ++ r) = toString n ++ ("." ++ t) ↔ m = n ∧ r = t := by
  rw [Text.append_inj_of_notMem (by simp) (dot_notMem_toString m) (dot_notMem_toString n),
    toString_nat_inj]

namespace IdentityMode

variable {mode : IdentityMode} {name : PackageName} {v w : Version} {a b : Semver}
  {id? id?' : Option PackageId}

private theorem renderSemver_patch_inj : renderSemver .patch a = renderSemver .patch b ↔
    a.major = b.major ∧ a.minor = b.minor ∧ a.patch = b.patch := by
  simp only [renderSemver, String.append_assoc, number_append_inj, toString_nat_inj]

private theorem renderSemver_minor_inj : renderSemver .minor a = renderSemver .minor b ↔
    a.major = b.major ∧ a.minor = b.minor := by
  simp only [renderSemver, String.append_assoc, number_append_inj, String.append_left_inj,
    toString_nat_inj]

/-- A major version of zero is told with its triple, any other one alone. -/
theorem renderSemver_semver (a : Semver) : renderSemver .semver a =
    toString a.major ++ ("." ++
      if a.major = 0 then toString a.minor ++ ("." ++ toString a.patch) else "Y.Z") := by
  simp only [renderSemver]
  split
  · simp only [String.append_assoc]
  · rfl

private theorem renderSemver_semver_inj : renderSemver .semver a = renderSemver .semver b ↔
    a.major = b.major ∧ (a.major = 0 → a.minor = b.minor ∧ a.patch = b.patch) := by
  rw [renderSemver_semver, renderSemver_semver, number_append_inj]
  apply and_congr_right
  intro hmajor
  rw [← hmajor]
  by_cases hzero : a.major = 0
  · simp only [hzero, if_true, number_append_inj, toString_nat_inj, forall_const]
  · simp only [hzero, if_false, false_implies]

private theorem renderVersion_of_semver? (hv : v.semver? = some a) :
    mode.renderVersion v = mode.renderSemver a := by
  rw [renderVersion, hv]
  rfl

private theorem renderVersion_of_unreadable (hv : v.semver? = none) :
    mode.renderVersion v = v.text := by
  rw [renderVersion, hv]
  rfl

private theorem render_eq_iff (hmode : mode ∈ [semver, minor, patch]) :
    mode.render ⟨name, v⟩ id? = mode.render ⟨name, w⟩ id?' ↔
      mode.renderVersion v = mode.renderVersion w := by
  have hrender : ∀ (r : Reference) id?, mode.render r id? =
      some (r.name.text ++ "/" ++ mode.renderVersion r.version) := by
    intro r id?
    simp only [List.mem_cons, List.not_mem_nil, or_false] at hmode
    rcases hmode with rfl | rfl | rfl <;> rfl
  rw [hrender, hrender, Option.some.injEq, String.append_right_inj]

private theorem text_inj :
    (Reference.mk name v).text = (Reference.mk name w).text ↔ v.text = w.text := by
  rw [Reference.text, Reference.text, String.append_right_inj]

/-- Digests of one length are told from what stands before them. -/
theorem append_digest_inj {i j : PackageId} {s t : String} (hi : i.HasHexDigest)
    (hj : j.HasHexDigest) :
    s ++ (":" ++ i.digest) = t ++ (":" ++ j.digest) ↔ s = t ∧ i.digest = j.digest := by
  constructor
  · intro h
    have hlength : (":" ++ i.digest).toList.length = (":" ++ j.digest).toList.length := by
      simp only [String.length_toList, String.length_append, hi.length, hj.length]
    have hchars : s.toList ++ (":" ++ i.digest).toList = t.toList ++ (":" ++ j.digest).toList := by
      rw [← String.toList_append, ← String.toList_append, h]
    obtain ⟨hfront, hback⟩ := List.append_inj' hchars hlength
    rw [String.toList_inj, String.append_right_inj] at hback
    exact ⟨String.toList_inj.mp hfront, hback⟩
  · rintro ⟨rfl, hdigest⟩
    rw [hdigest]

private theorem render_fullPackage_eq_iff
    {i j : PackageId} (hi : i.HasHexDigest) (hj : j.HasHexDigest) :
    render .fullPackage ⟨name, v⟩ (some i) = render .fullPackage ⟨name, w⟩ (some j) ↔
      v.text = w.text ∧ i.digest = j.digest := by
  have hrender : ∀ (v : Version) (i : PackageId), render .fullPackage ⟨name, v⟩ (some i) =
      some ((Reference.mk name v).text ++ (":" ++ i.digest)) := fun _ _ => rfl
  rw [hrender, hrender, Option.some.injEq, append_digest_inj hi hj, text_inj]

/-- What the contributions of two dependencies of one name tell of their versions, mode by mode. -/
structure TellsVersions (name : PackageName) (v w : Version) : Prop where
  patch : ∀ a b, v.semver? = some a → w.semver? = some b → ∀ id? id?',
    IdentityMode.patch.render ⟨name, v⟩ id? = IdentityMode.patch.render ⟨name, w⟩ id?' ↔
      a.major = b.major ∧ a.minor = b.minor ∧ a.patch = b.patch
  minor : ∀ a b, v.semver? = some a → w.semver? = some b → ∀ id? id?',
    IdentityMode.minor.render ⟨name, v⟩ id? = IdentityMode.minor.render ⟨name, w⟩ id?' ↔
      a.major = b.major ∧ a.minor = b.minor
  semver : ∀ a b, v.semver? = some a → w.semver? = some b → ∀ id? id?',
    IdentityMode.semver.render ⟨name, v⟩ id? = IdentityMode.semver.render ⟨name, w⟩ id?' ↔
      a.major = b.major ∧ (a.major = 0 → a.minor = b.minor ∧ a.patch = b.patch)
  /-- Versions that do not read as semantic versions are told by their texts. -/
  unreadable : v.semver? = none → w.semver? = none →
    ∀ mode ∈ [IdentityMode.semver, .minor, .patch], ∀ id? id?',
      mode.render ⟨name, v⟩ id? = mode.render ⟨name, w⟩ id?' ↔ v.text = w.text
  fullVersion : ∀ id? id?',
    IdentityMode.fullVersion.render ⟨name, v⟩ id? = IdentityMode.fullVersion.render ⟨name, w⟩ id?' ↔
      v.text = w.text
  fullPackage : ∀ i j : PackageId, i.HasHexDigest → j.HasHexDigest →
    (IdentityMode.fullPackage.render ⟨name, v⟩ (some i) =
        IdentityMode.fullPackage.render ⟨name, w⟩ (some j) ↔
      v.text = w.text ∧ i.digest = j.digest)
  /-- Identities of configurations have such digests. -/
  computed : ∀ c d : Configuration,
    IdentityMode.fullPackage.render ⟨name, v⟩ (some (.compute c)) =
        IdentityMode.fullPackage.render ⟨name, w⟩ (some (.compute d)) ↔
      v.text = w.text ∧ (PackageId.compute c).digest = (PackageId.compute d).digest

/-- Two dependencies of one name contribute the same just if they agree in what a mode is named
for. -/
theorem tellsVersions (name : PackageName) (v w : Version) : TellsVersions name v w where
  patch a b hv hw id? id?' := by
    rw [render_eq_iff (by decide), renderVersion_of_semver? hv, renderVersion_of_semver? hw,
      renderSemver_patch_inj]
  minor a b hv hw id? id?' := by
    rw [render_eq_iff (by decide), renderVersion_of_semver? hv, renderVersion_of_semver? hw,
      renderSemver_minor_inj]
  semver a b hv hw id? id?' := by
    rw [render_eq_iff (by decide), renderVersion_of_semver? hv, renderVersion_of_semver? hw,
      renderSemver_semver_inj]
  unreadable hv hw mode hmode id? id?' := by
    rw [render_eq_iff hmode, renderVersion_of_unreadable hv, renderVersion_of_unreadable hw]
  fullVersion id? id?' := by
    have hrender : ∀ (v : Version) (id? : Option PackageId),
        IdentityMode.fullVersion.render ⟨name, v⟩ id? = some (Reference.mk name v).text :=
      fun _ _ => rfl
    rw [hrender, hrender, Option.some.injEq, text_inj]
  fullPackage i j hi hj := render_fullPackage_eq_iff hi hj
  computed c d := render_fullPackage_eq_iff (PackageId.hasHexDigest_compute c)
    (PackageId.hasHexDigest_compute d)

/-- Spellings and candidates of one release contribute the same, and a version that cannot be read
may look like what is left of one that can. -/
example (name : PackageName) :
    IdentityMode.patch.render ⟨name, ⟨"1.2"⟩⟩ none =
        IdentityMode.patch.render ⟨name, ⟨"1.2.0-rc.1"⟩⟩ none ∧
      IdentityMode.semver.render ⟨name, ⟨"1.2.3"⟩⟩ none =
        IdentityMode.semver.render ⟨name, ⟨"1.Y.Z"⟩⟩ none := by
  rw [render_eq_iff (by decide), render_eq_iff (by decide)]
  decide +kernel

end IdentityMode

end Provision
