import Mathlib.Data.String.Basic
import Provision.Proofs.Semver.Reading

/-!
Precedence of semantic versions, as rules. Numbers decide first; a version with a pre-release comes
before the one without; identifiers of pre-releases are compared one by one. The order of versions
follows precedence, and tells versions of the same precedence apart by their build metadata
(`compare_eq_lt_iff`).
-/

namespace Provision.Semver

variable {a b : String} {pre pre' : List String} {v w : Semver}

/-- A pre-release identifier comes before another one: a number before a greater number and before
any name, and a name before the names that follow it as texts. -/
inductive IdentifierPrecedes : String → String → Prop
  | value {a b : String} (ha : isNumeric a = true) (hb : isNumeric b = true)
      (h : digitsValue a.toList < digitsValue b.toList) : IdentifierPrecedes a b
  | kind {a b : String} (ha : isNumeric a = true) (hb : isNumeric b = false) :
      IdentifierPrecedes a b
  | name {a b : String} (ha : isNumeric a = false) (hb : isNumeric b = false) (h : a < b) :
      IdentifierPrecedes a b

/-- A pre-release comes before the release itself, and before the pre-releases with a later
identifier at the first difference or with more identifiers. -/
inductive PrePrecedes : List String → List String → Prop
  | release {pre : List String} (hpre : pre ≠ []) : PrePrecedes pre []
  | identifiers {pre pre' : List String} (hpre : pre ≠ [])
      (h : List.Lex IdentifierPrecedes pre pre') : PrePrecedes pre pre'

/-- A version comes before another one: the first of the three numbers that differs decides, and
the pre-release where all agree. -/
inductive Precedes (v w : Semver) : Prop
  | major (h : v.major < w.major)
  | minor (hmajor : v.major = w.major) (h : v.minor < w.minor)
  | patch (hmajor : v.major = w.major) (hminor : v.minor = w.minor) (h : v.patch < w.patch)
  | pre (hmajor : v.major = w.major) (hminor : v.minor = w.minor) (hpatch : v.patch = w.patch)
      (h : PrePrecedes v.pre w.pre)

/-! ### Identifiers -/

/-- A number of a pre-release is the decimal form of its value. -/
theorem IsIdentifier.toDigits_digitsValue (h : IsIdentifier .pre a)
    (hnumeric : isNumeric a = true) :
    Nat.toDigits 10 (digitsValue a.toList) = a.toList := by
  have hdigits : ∀ c ∈ a.toList, c.isDigit = true := List.all_eq_true.mp hnumeric
  have hchecked := h.checked
  cases hchars : a.toList with
  | nil => simp [checkSegment, hchars] at hchecked
  | cons d digits =>
    rw [hchars] at hdigits
    apply Semver.toDigits_digitsValue hdigits
    rintro ⟨rfl, hne⟩
    have hall : digits.all Char.isDigit = true :=
      List.all_eq_true.mpr fun c hc => hdigits c (List.mem_cons_of_mem _ hc)
    have hlong : 0 < digits.length := List.length_pos_iff.mpr hne
    have hzero : ('0' : Char).isDigit = true := by decide
    simp [checkSegment, hchars, hall, hlong, hzero] at hchecked

private theorem eq_of_digitsValue_eq (ha : IsIdentifier .pre a) (hb : IsIdentifier .pre b)
    (hna : isNumeric a = true) (hnb : isNumeric b = true)
    (h : digitsValue a.toList = digitsValue b.toList) : a = b := by
  apply String.toList_inj.mp
  rw [← ha.toDigits_digitsValue hna, h, hb.toDigits_digitsValue hnb]

private theorem compareIdentifiers_of_numeric (ha : isNumeric a = true) (hb : isNumeric b = true) :
    compareIdentifiers a b = (compare (digitsValue a.toList) (digitsValue b.toList)).then
      ((compare a.length b.length).then (compare a b)) := by
  simp only [compareIdentifiers, identifierKey, ha, hb, if_true]
  rfl

private theorem compareIdentifiers_of_kind (ha : isNumeric a = true) (hb : isNumeric b = false) :
    compareIdentifiers a b = .lt := by
  simp only [compareIdentifiers, identifierKey, ha, hb, if_true]
  rfl

private theorem compareIdentifiers_of_name (ha : isNumeric a = false) (hb : isNumeric b = false) :
    compareIdentifiers a b = compare a b := by
  simp only [compareIdentifiers, identifierKey, ha, hb]
  rfl

/-- Identifiers that can be written are ordered by precedence. Numbers of one value are the same
text, so that the length of their texts never decides. -/
theorem compareIdentifiers_eq_lt_iff (ha : IsIdentifier .pre a) (hb : IsIdentifier .pre b) :
    compareIdentifiers a b = .lt ↔ IdentifierPrecedes a b := by
  constructor
  · intro h
    cases hna : isNumeric a with
    | true =>
      cases hnb : isNumeric b with
      | true =>
        apply IdentifierPrecedes.value hna hnb
        by_contra hnot
        rw [compareIdentifiers_of_numeric hna hnb, Ordering.then_eq_lt, Nat.compare_eq_lt,
          Nat.compare_eq_eq] at h
        obtain ⟨hvalue, -⟩ := h.resolve_left hnot
        obtain rfl := eq_of_digitsValue_eq ha hb hna hnb hvalue
        simp at h
      | false => exact .kind hna hnb
    | false =>
      cases hnb : isNumeric b with
      | true =>
        have hgt := Std.OrientedCmp.gt_of_lt (compareIdentifiers_of_kind hnb hna)
        rw [h] at hgt
        cases hgt
      | false =>
        rw [compareIdentifiers_of_name hna hnb, compare_lt_iff_lt] at h
        exact .name hna hnb h
  · intro h
    cases h with
    | value hna hnb h =>
      rw [compareIdentifiers_of_numeric hna hnb, Nat.compare_eq_lt.mpr h]
      rfl
    | kind hna hnb => exact compareIdentifiers_of_kind hna hnb
    | name hna hnb h => rw [compareIdentifiers_of_name hna hnb, compare_lt_iff_lt.mpr h]

/-! ### Pre-releases -/

/-- Lists are compared as their first difference is. -/
theorem compareLex_eq_lt_iff {α : Type} {cmp : α → α → Ordering} [Std.LawfulEqCmp cmp]
    {r : α → α → Prop} {l m : List α} (h : ∀ x ∈ l, ∀ y ∈ m, cmp x y = .lt ↔ r x y) :
    List.compareLex cmp l m = .lt ↔ List.Lex r l m := by
  induction l generalizing m with
  | nil =>
    cases m with
    | nil => simp [List.compareLex_nil_nil]
    | cons y m => simp [List.compareLex_nil_cons]
  | cons x l ih =>
    cases m with
    | nil => simp [List.compareLex_cons_nil]
    | cons y m =>
      have hfirst := h x List.mem_cons_self y List.mem_cons_self
      have hrest := ih (m := m) fun x' hx y' hy =>
        h x' (List.mem_cons_of_mem x hx) y' (List.mem_cons_of_mem y hy)
      rw [List.compareLex_cons_cons, Ordering.then_eq_lt, hfirst, hrest,
        Std.LawfulEqCmp.compare_eq_iff_eq]
      constructor
      · rintro (hxy | ⟨rfl, hlm⟩)
        · exact .rel hxy
        · exact .cons hlm
      · intro hlex
        cases hlex with
        | rel hxy => exact .inl hxy
        | cons hlm => exact .inr ⟨rfl, hlm⟩

/-- Pre-releases that can be written are ordered by precedence. -/
theorem comparePre_eq_lt_iff (hpre : ∀ identifier ∈ pre, IsIdentifier .pre identifier)
    (hpre' : ∀ identifier ∈ pre', IsIdentifier .pre identifier) :
    comparePre pre pre' = .lt ↔ PrePrecedes pre pre' := by
  have hlex : List.compareLex compareIdentifiers pre pre' = .lt ↔
      List.Lex IdentifierPrecedes pre pre' :=
    compareLex_eq_lt_iff fun a ha b hb => compareIdentifiers_eq_lt_iff (hpre a ha) (hpre' b hb)
  have hstep : comparePre pre pre' =
      (compare (if pre.isEmpty then 1 else 0) (if pre'.isEmpty then 1 else 0)).then
        (List.compareLex compareIdentifiers pre pre') := rfl
  constructor
  · intro h
    cases pre with
    | nil =>
      -- the release comes after every pre-release, and it is not less than itself
      cases pre' with
      | nil => cases h
      | cons b pre' => cases h
    | cons a pre =>
      cases pre' with
      | nil => exact .release (List.cons_ne_nil a pre)
      | cons b pre' => exact .identifiers (List.cons_ne_nil a pre) (hlex.mp h)
  · intro h
    cases h with
    | release hpre =>
      cases pre with
      | nil => exact absurd rfl hpre
      | cons a pre => rfl
    | identifiers hpre h =>
      cases pre with
      | nil => exact absurd rfl hpre
      | cons a pre =>
        cases pre' with
        | nil => cases h
        | cons b pre' => exact hlex.mpr h

/-! ### Versions -/

private theorem compare_eq (v w : Semver) : compare v w =
    (compare v.major w.major).then ((compare v.minor w.minor).then
      ((compare v.patch w.patch).then
        ((comparePre v.pre w.pre).then (compareBuild v.build w.build)))) := rfl

/-- A version is less than another one if it precedes it, or if they differ in their build metadata
only, and that is less. -/
theorem compare_eq_lt_iff (hv : v.HasWrittenPre) (hw : w.HasWrittenPre) :
    compare v w = .lt ↔ v.Precedes w ∨
      (v.major = w.major ∧ v.minor = w.minor ∧ v.patch = w.patch ∧ v.pre = w.pre) ∧
        compareBuild v.build w.build = .lt := by
  rw [compare_eq]
  simp only [Ordering.then_eq_lt, Nat.compare_eq_lt, Std.LawfulEqCmp.compare_eq_iff_eq,
    comparePre_eq_lt_iff hv hw]
  constructor
  · rintro (h | ⟨hmajor, h | ⟨hminor, h | ⟨hpatch, h | ⟨hpre, h⟩⟩⟩⟩)
    · exact .inl (.major h)
    · exact .inl (.minor hmajor h)
    · exact .inl (.patch hmajor hminor h)
    · exact .inl (.pre hmajor hminor hpatch h)
    · exact .inr ⟨⟨hmajor, hminor, hpatch, hpre⟩, h⟩
  · rintro (h | ⟨⟨hmajor, hminor, hpatch, hpre⟩, h⟩)
    · cases h with
      | major h => exact .inl h
      | minor hmajor h => exact .inr ⟨hmajor, .inl h⟩
      | patch hmajor hminor h => exact .inr ⟨hmajor, .inr ⟨hminor, .inl h⟩⟩
      | pre hmajor hminor hpatch h =>
        exact .inr ⟨hmajor, .inr ⟨hminor, .inr ⟨hpatch, .inl h⟩⟩⟩
    · exact .inr ⟨hmajor, .inr ⟨hminor, .inr ⟨hpatch, .inr ⟨hpre, h⟩⟩⟩⟩

/-- Where neither of two versions precedes the other, their build metadata decides. -/
theorem compare_eq_compareBuild (hv : v.HasWrittenPre) (hw : w.HasWrittenPre)
    (hvw : ¬v.Precedes w) (hwv : ¬w.Precedes v) : compare v w = compareBuild v.build w.build := by
  have hmajor : v.major = w.major := by
    rcases Nat.lt_trichotomy v.major w.major with h | h | h
    · exact absurd (.major h) hvw
    · exact h
    · exact absurd (.major h) hwv
  have hminor : v.minor = w.minor := by
    rcases Nat.lt_trichotomy v.minor w.minor with h | h | h
    · exact absurd (.minor hmajor h) hvw
    · exact h
    · exact absurd (.minor hmajor.symm h) hwv
  have hpatch : v.patch = w.patch := by
    rcases Nat.lt_trichotomy v.patch w.patch with h | h | h
    · exact absurd (.patch hmajor hminor h) hvw
    · exact h
    · exact absurd (.patch hmajor.symm hminor.symm h) hwv
  have hpre : comparePre v.pre w.pre = .eq := by
    cases h : comparePre v.pre w.pre with
    | lt => exact absurd (.pre hmajor hminor hpatch ((comparePre_eq_lt_iff hv hw).mp h)) hvw
    | eq => rfl
    | gt =>
      have hlt := Std.OrientedCmp.lt_of_gt h
      have hprecedes := (comparePre_eq_lt_iff hw hv).mp hlt
      exact absurd (.pre hmajor.symm hminor.symm hpatch.symm hprecedes) hwv
  rw [compare_eq, hmajor, hminor, hpatch, hpre]
  simp

end Provision.Semver
