import Mathlib.Data.List.TakeDrop
import Provision.Proofs.Semver.Range
import Provision.Version

/-!
How the text of a version is read. A text that reads as a semantic version begins with its three
numbers, so its core has at least two dots. A core with fewer is filled up first, and then it is
read as if it had been written in full (`readSemver_append`).
-/

namespace Provision

open Text

namespace Semver

variable {cs : List Char} {v : Semver}

def numbers (v : Semver) : List Char :=
  (toString v.major).toList ++ '.' :: (toString v.minor).toList ++ '.' :: (toString v.patch).toList

/-- Every identifier of the pre-release is one that can be written. -/
def HasWrittenPre (v : Semver) : Prop :=
  ∀ identifier ∈ v.pre, IsIdentifier .pre identifier

private theorem dot_eq_some_iff {rest : List Char} : dot cs = some rest ↔ cs = '.' :: rest := by
  unfold dot
  split
  · simp
  · rename_i hdot
    constructor
    · intro h
      cases h
    · rintro rfl
      exact absurd rfl (hdot rest)

/-- What is read as a version begins with its numbers, and its pre-release is one that can be
written. -/
theorem exists_rest_of_parse? (h : parse? cs = some v) :
    (∃ rest, cs = v.numbers ++ rest) ∧ v.HasWrittenPre := by
  simp only [parse?, Option.bind_eq_bind, Option.bind_eq_some_iff, toOption_eq_some_iff,
    dot_eq_some_iff, Prod.exists] at h
  obtain ⟨major, _, hmajor, _, rfl, minor, _, hminor, _, rfl, patch, rest, hpatch, pre, _, hpre,
    build, _, -, hv⟩ := h
  obtain ⟨-, -, rfl⟩ := number_eq_ok_iff.mp hmajor
  obtain ⟨-, -, rfl⟩ := number_eq_ok_iff.mp hminor
  obtain ⟨-, -, rfl⟩ := number_eq_ok_iff.mp hpatch
  split_ifs at hv
  cases hv
  refine ⟨⟨rest, by simp [numbers]⟩, ?_⟩
  exact isIdentifier_of_markedIdentifiers hpre

end Semver

namespace Version

variable {core rest cs : List Char} {v : Semver}

def inCore (c : Char) : Bool :=
  c ≠ '-' && c ≠ '+'

/-- A core and what stands after it in a version: nothing, or what begins with the first hyphen or
plus sign. -/
structure IsSplit (core rest : List Char) : Prop where
  core : ∀ c ∈ core, c ≠ '-' ∧ c ≠ '+'
  rest : ∀ c ∈ rest.head?, c = '-' ∨ c = '+'

private theorem inCore_iff {c : Char} : inCore c = true ↔ c ≠ '-' ∧ c ≠ '+' := by
  simp [inCore]

private theorem splitCore_eq (cs : List Char) :
    splitCore cs = (cs.takeWhile inCore, cs.dropWhile inCore) :=
  List.span_eq_takeWhile_dropWhile inCore cs

private theorem IsSplit.splitCore_append (h : IsSplit core rest) :
    splitCore (core ++ rest) = (core, rest) := by
  have hcore : ∀ c ∈ core, inCore c = true := fun c hc => inCore_iff.mpr (h.core c hc)
  have hrest : ∀ c ∈ rest.head?, inCore c = false := by
    intro c hc
    rcases h.rest c hc with rfl | rfl
    · rfl
    · rfl
  rw [splitCore_eq, takeWhile_append_stop hcore hrest, dropWhile_append_stop hcore hrest]

private theorem inCore_of_isDigit {c : Char} (h : c.isDigit = true) : inCore c = true := by
  have hne : ∀ mark : Char, mark.isDigit = false → c ≠ mark := by
    rintro mark hmark rfl
    rw [h] at hmark
    cases hmark
  exact inCore_iff.mpr ⟨hne '-' (by decide), hne '+' (by decide)⟩

private theorem inCore_of_mem_numbers {c : Char} (h : c ∈ v.numbers) : inCore c = true := by
  have hdigits : ∀ n : Nat, ∀ c ∈ (toString n).toList, inCore c = true := fun n c hc =>
    inCore_of_isDigit (Semver.isDigit_of_mem_toString hc)
  simp only [Semver.numbers, List.mem_append, List.mem_cons] at h
  rcases h with (h | rfl | h) | rfl | h
  · exact hdigits _ c h
  · rfl
  · exact hdigits _ c h
  · rfl
  · exact hdigits _ c h

/-- A core with fewer than two dots does not read as a version as it stands. -/
theorem IsSplit.two_le_count (h : IsSplit core rest)
    (hread : Semver.parse? (core ++ rest) = some v) :
    2 ≤ core.count '.' := by
  obtain ⟨⟨tail, htail⟩, -⟩ := Semver.exists_rest_of_parse? hread
  have hcore : core = v.numbers ++ tail.takeWhile inCore := by
    have hsplit := congrArg (·.1) h.splitCore_append
    rwa [htail, splitCore_eq, List.takeWhile_append_of_pos fun c hc => inCore_of_mem_numbers hc,
      eq_comm] at hsplit
  have hdots : 2 ≤ v.numbers.count '.' := by
    simp only [Semver.numbers, List.count_append, List.count_cons_self]
    omega
  rw [hcore, List.count_append]
  omega

/-- What a core with some number of dots is filled up with. -/
def zeros : Nat → List Char
  | 0 => ".0.0".toList
  | 1 => ".0".toList
  | _ => []

/-- A version is read as if its core had been written in full. -/
theorem IsSplit.readSemver_append (h : IsSplit core rest) :
    readSemver (core ++ rest) = Semver.parse? (core ++ zeros (core.count '.') ++ rest) := by
  have hshort : core.count '.' < 2 → Semver.parse? (core ++ rest) = none := by
    intro hlt
    by_contra hsome
    obtain ⟨v, hv⟩ := Option.ne_none_iff_exists'.mp hsome
    exact absurd (h.two_le_count hv) (by omega)
  unfold readSemver padded
  rw [h.splitCore_append]
  match hcount : core.count '.' with
  | 0 => simp [hshort (by omega), hcount, zeros]
  | 1 => simp [hshort (by omega), hcount, zeros]
  | n + 2 => simp [hcount, zeros]

theorem hasWrittenPre_of_readSemver (h : readSemver cs = some v) : v.HasWrittenPre := by
  obtain ⟨full, hfull⟩ : ∃ full, Semver.parse? full = some v := by
    unfold readSemver at h
    cases hread : Semver.parse? cs with
    | some a =>
      rw [hread] at h
      exact ⟨cs, hread.trans h⟩
    | none =>
      rw [hread] at h
      obtain ⟨full, -, hfull⟩ := Option.bind_eq_some_iff.mp h
      exact ⟨full, hfull⟩
  exact (Semver.exists_rest_of_parse? hfull).2

/-- A zero that is added to a core of one or two numbers does not change what a version reads as. -/
theorem IsSplit.readSemver_append_zero (h : IsSplit core rest) (hcount : core.count '.' < 2) :
    readSemver (core ++ ".0".toList ++ rest) = readSemver (core ++ rest) := by
  have hzero : IsSplit (core ++ ".0".toList) rest :=
    ⟨List.forall_mem_append.mpr ⟨h.core, by simp⟩, h.rest⟩
  have hdots : (core ++ ".0".toList).count '.' = core.count '.' + 1 := by
    rw [List.count_append]
    rfl
  rw [hzero.readSemver_append, h.readSemver_append, hdots]
  match core.count '.', hcount with
  | 0, _ => simp [zeros]
  | 1, _ => simp [zeros]

end Version

end Provision
