import Provision.Fallible
import Provision.Proofs.Text.Trimming
import Provision.Semver.Grammar
import Mathlib.Data.List.Induction

/-!
The pieces of written versions read back what they are written as. Main statements: a number is
read exactly off its decimal form (`number_eq_ok_iff`), and dotted identifiers off their dotted
form (`identifiers_eq_ok_iff`), where nothing that could belong to the piece comes after it.
-/

namespace Provision.Semver

open Text

variable {part : Part} {cs rest digits : List Char} {d : Char} {n : Nat}

/-! ### Numbers -/

theorem isDigit_of_mem_toString (h : d ∈ (toString n).toList) : d.isDigit = true := by
  rw [Nat.toString_eq_repr, Nat.toList_repr] at h
  exact Nat.isDigit_of_mem_toDigits (by decide) (by decide) h

theorem digitsValue_toDigits (n : Nat) : digitsValue (Nat.toDigits 10 n) = n := by
  have hvalue : digitsValue (Nat.toDigits 10 n) = Nat.ofDigitChars 10 (Nat.toDigits 10 n) 0 := by
    simp only [digitsValue, Nat.ofDigitChars, Nat.mul_comm]
  rw [hvalue, Nat.ofDigitChars_ten_toDigits]

private theorem digitsValue_append_singleton (digits : List Char) (d : Char) :
    digitsValue (digits ++ [d]) = 10 * digitsValue digits + (d.toNat - '0'.toNat) := by
  rw [digitsValue, List.foldl_append, ← digitsValue, Nat.mul_comm]
  rfl

private theorem digit_lt_ten (hd : d.isDigit = true) : d.toNat - '0'.toNat < 10 := by
  obtain ⟨hlow, hhigh⟩ := Char.isDigit_iff_toNat.mp hd
  have hnine : '9'.toNat = '0'.toNat + 9 := rfl
  omega

private theorem toDigits_digit (hd : d.isDigit = true) :
    Nat.toDigits 10 (d.toNat - '0'.toNat) = [d] := by
  have hlt := digit_lt_ten hd
  have hnat : (Nat.digitChar (d.toNat - '0'.toNat)).toNat = d.toNat := by
    rw [Nat.toNat_digitChar_of_lt_ten hlt]
    exact Nat.add_sub_of_le (Char.isDigit_iff_toNat.mp hd).1
  rw [Nat.toDigits_of_lt_base hlt, Char.toNat_inj.mp hnat]

/-- A decimal form starts with a zero only if it is the zero alone. -/
theorem eq_nil_of_toDigits (h : Nat.toDigits 10 n = '0' :: digits) : digits = [] := by
  induction n using Nat.strong_induction_on generalizing digits with
  | _ n ih =>
    by_cases hn : n < 10
    · rw [Nat.toDigits_of_lt_base hn] at h
      exact (List.cons.inj h).2.symm
    · rw [Nat.toDigits_of_base_le (by decide) (by omega)] at h
      obtain ⟨d, ds, hds⟩ := List.exists_cons_of_ne_nil
        (Nat.toDigits_ne_nil (n := n / 10) (b := 10))
      rw [hds, List.cons_append] at h
      obtain ⟨rfl, -⟩ := List.cons.inj h
      -- The front of the digits would be a lone zero, but the number has two digits.
      have hzero : n / 10 = 0 := by
        rw [← digitsValue_toDigits (n / 10), hds, ih (n / 10) (by omega) hds]
        rfl
      omega

/-- Digits without a needless zero in front are the decimal form of their value. -/
theorem toDigits_digitsValue (hdigits : ∀ c ∈ d :: digits, c.isDigit = true)
    (hzero : ¬ (d = '0' ∧ digits ≠ [])) :
    Nat.toDigits 10 (digitsValue (d :: digits)) = d :: digits := by
  induction digits using List.reverseRecOn with
  | nil =>
    have hvalue : digitsValue [d] = d.toNat - '0'.toNat := Nat.zero_add _
    rw [hvalue, toDigits_digit (hdigits d List.mem_cons_self)]
  | append_singleton digits e ih =>
    have hd : d ≠ '0' := fun hd => hzero ⟨hd, by simp⟩
    have hfront := ih (fun c hc => hdigits c (List.mem_append_left [e] hc)) (fun h => hd h.1)
    have hpos : 0 < digitsValue (d :: digits) := by
      rw [Nat.pos_iff_ne_zero]
      intro hvalue
      rw [hvalue] at hfront
      exact hd (List.cons.inj hfront).1.symm
    have he : e.isDigit = true := hdigits e (by simp)
    rw [← List.cons_append, digitsValue_append_singleton,
      ← Nat.toDigits_append_toDigits (by decide) hpos (digit_lt_ten he), hfront, toDigits_digit he]

/-- A number is read exactly off its decimal form, up to a character that is not a digit. -/
theorem number_eq_ok_iff : number part cs = .ok (n, rest) ↔
    n ≤ maxNumber ∧ (∀ c ∈ rest.head?, c.isDigit = false) ∧ cs = (toString n).toList ++ rest := by
  rw [Nat.toString_eq_repr, Nat.toList_repr]
  constructor
  · intro h
    unfold number at h
    dsimp only at h
    split at h
    · split at h <;> contradiction
    · next d digits hrun =>
      split_ifs at h with hzero hmax
      cases h
      refine ⟨by omega, fun c hc => eq_false_of_mem_head?_dropWhile hc, ?_⟩
      have hdigits : ∀ c ∈ d :: digits, c.isDigit = true := fun c hc =>
        List.mem_takeWhile_imp (hrun ▸ hc)
      rw [toDigits_digitsValue hdigits hzero, ← hrun, List.takeWhile_append_dropWhile]
  · rintro ⟨hmax, hstop, rfl⟩
    have hdigits : ∀ c ∈ Nat.toDigits 10 n, c.isDigit = true := fun c hc =>
      Nat.isDigit_of_mem_toDigits (by decide) (by decide) hc
    unfold number
    rw [takeWhile_append_stop hdigits hstop, dropWhile_append_stop hdigits hstop]
    cases hds : Nat.toDigits 10 n with
    | nil => exact absurd hds Nat.toDigits_ne_nil
    | cons d digits =>
      have hvalue : digitsValue (d :: digits) = n := hds ▸ digitsValue_toDigits n
      have hzero : ¬ (d = '0' ∧ digits ≠ []) := by
        rintro ⟨rfl, hne⟩
        exact hne (eq_nil_of_toDigits hds)
      simp only [hvalue, if_neg hzero, if_neg (not_lt.mpr hmax)]

/-! ### Identifiers -/

/-- The characters of dotted identifiers. -/
def inDotted (c : Char) : Bool :=
  isIdentifierChar c || c == '.'

/-- A text that may stand between the dots of a pre-release or of build metadata. -/
structure IsIdentifier (part : Part) (identifier : String) : Prop where
  chars : ∀ c ∈ identifier.toList, isIdentifierChar c = true
  checked : checkSegment part identifier.toList = .ok ()

private theorem IsIdentifier.dot_notMem {identifier : String} (h : IsIdentifier part identifier) :
    '.' ∉ identifier.toList := fun hmem => absurd (h.chars '.' hmem) (by decide)

private theorem toList_dotted (identifiers : List String) :
    (dotted identifiers).toList = ['.'].intercalate (identifiers.map String.toList) :=
  String.toList_intercalate

theorem inDotted_of_mem_dotted {read : List String}
    (h : ∀ identifier ∈ read, IsIdentifier part identifier) :
    ∀ c ∈ (dotted read).toList, inDotted c = true := by
  intro c hc
  rw [toList_dotted] at hc
  rcases mem_or_exists_mem_of_mem_intercalate hc with hdot | ⟨piece, hpiece, hc⟩
  · obtain rfl := List.mem_singleton.mp hdot
    rfl
  · obtain ⟨identifier, hmem, rfl⟩ := List.mem_map.mp hpiece
    rw [inDotted, (h identifier hmem).chars c hc, Bool.true_or]

/-- Dotted identifiers are read exactly off their dotted form, up to a character that cannot
belong to them. -/
theorem identifiers_eq_ok_iff {read : List String} :
    identifiers part cs = .ok (read, rest) ↔
      (read ≠ [] ∧ ∀ identifier ∈ read, IsIdentifier part identifier) ∧
        (∀ c ∈ rest.head?, inDotted c = false) ∧ cs = (dotted read).toList ++ rest := by
  have hrun : identifiers part cs = (do
      ((cs.takeWhile inDotted).splitOn '.').forM (checkSegment part)
      return (((cs.takeWhile inDotted).splitOn '.').map String.ofList, cs.dropWhile inDotted)) :=
    rfl
  rw [hrun, bind_eq_ok_iff]
  constructor
  · rintro ⟨⟨⟩, hchecked, hread⟩
    cases hread
    refine ⟨⟨by simp, ?_⟩, ?_, ?_⟩
    · intro identifier hmem
      obtain ⟨segment, hsegment, rfl⟩ := List.mem_map.mp hmem
      refine ⟨fun c hc => ?_, by simpa using forM_eq_ok_iff.mp hchecked segment hsegment⟩
      rw [String.toList_ofList] at hc
      obtain ⟨hrun, hdot⟩ := mem_and_ne_of_mem_splitOn hsegment hc
      simpa [inDotted, hdot] using List.mem_takeWhile_imp hrun
    · exact fun c hc => eq_false_of_mem_head?_dropWhile hc
    · have hsegments : (((cs.takeWhile inDotted).splitOn '.').map String.ofList).map String.toList =
          (cs.takeWhile inDotted).splitOn '.' := by simp
      rw [toList_dotted, hsegments, List.intercalate_splitOn, List.takeWhile_append_dropWhile]
  · rintro ⟨⟨hne, hread⟩, hstop, rfl⟩
    have hdots : ∀ segment ∈ read.map String.toList, '.' ∉ segment := by
      intro _ hsegment
      obtain ⟨identifier, hmem, rfl⟩ := List.mem_map.mp hsegment
      exact (hread identifier hmem).dot_notMem
    have hsegments : ((dotted read).toList).splitOn '.' = read.map String.toList := by
      rw [toList_dotted, List.splitOn_intercalate '.' hdots (by simpa using hne)]
    rw [takeWhile_append_stop (inDotted_of_mem_dotted hread) hstop,
      dropWhile_append_stop (inDotted_of_mem_dotted hread) hstop, hsegments]
    refine ⟨(), forM_eq_ok_iff.mpr ?_, by simp [pure, Except.pure]⟩
    intro _ hsegment
    obtain ⟨identifier, hmem, rfl⟩ := List.mem_map.mp hsegment
    exact (hread identifier hmem).checked

end Provision.Semver
