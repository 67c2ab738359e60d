import Provision.Proofs.Text.Trimming
import Provision.Text.Lowercase
import Mathlib.Data.List.Basic
import Mathlib.Data.Nat.ModEq

/-!
Lowercasing is stable. Main statements: what lowercasing gives is in lowercase
(`isLower_of_mem_lowerFrom`), a text in lowercase stays as it is (`lowerFrom_eq_self`), lowercasing
makes no slash that was not there (`slash_mem_of_slash_mem_lowerFrom`), and it keeps the ends of a
text free of blanks (`Trimmed.lowerFrom`).

The one-to-one mappings come in runs, so these are facts about finitely many runs: none of them
has an image among the characters that some run covers, nor among the characters that must not
appear.
-/

namespace Provision.Text

variable {c d : Char} {cs before : List Char} {run : CaseRun} {first last step : Nat}

/-! ### Images of the runs -/

/-- Every number among the images of the run is a character. -/
def CaseRun.isValid (run : CaseRun) : Bool :=
  (run.target + (run.last - run.first)).blt 0xD800 ||
    Nat.blt 0xDFFF run.target && (run.target + (run.last - run.first)).blt 0x110000

/-- No image of the run is one of the numbers `first, first + step, …, last`: either the two
ranges are apart, or the images lie between the steps. -/
def CaseRun.skips (run : CaseRun) (first last step : Nat) : Bool :=
  last.blt run.target || (run.target + (run.last - run.first)).blt first ||
    (run.first == run.last || run.step % step == 0) && run.target % step != first % step

/-- Characters that lowercasing maps no other character to: the slash, the dotted capital I, and
the blanks. -/
def untouchedRanges : List (Nat × Nat) :=
  [(0x2F, 0x2F), (0x130, 0x130), (0x09, 0x0D), (0x20, 0x20), (0x85, 0x85), (0xA0, 0xA0),
    (0x1680, 0x1680), (0x2000, 0x200A), (0x2028, 0x2029), (0x202F, 0x202F), (0x205F, 0x205F),
    (0x3000, 0x3000)]

private theorem isValid_of_mem_caseRuns : ∀ run ∈ caseRuns, run.isValid = true := by
  decide +kernel

private theorem skips_caseRuns :
    ∀ run ∈ caseRuns, ∀ other ∈ caseRuns, run.skips other.first other.last other.step = true := by
  have hall : (caseRuns.all fun run => caseRuns.all fun other =>
      run.skips other.first other.last other.step) = true := by decide +kernel
  simpa only [List.all_eq_true] using hall

private theorem skips_untouchedRanges :
    ∀ run ∈ caseRuns, ∀ range ∈ untouchedRanges, run.skips range.1 range.2 1 = true := by
  decide +kernel

private theorem CaseRun.toNat_apply (hvalid : run.isValid = true) (hc : run.covers c = true) :
    (run.apply c).toNat = run.target + (c.toNat - run.first) := by
  simp only [covers, isValid, Bool.and_eq_true, Bool.or_eq_true, decide_eq_true_eq,
    Nat.blt_eq] at hc hvalid
  have hchar : (run.target + (c.toNat - run.first)).isValidChar := by
    unfold Nat.isValidChar
    omega
  rw [apply, Char.ofNat, dif_pos hchar]
  rfl

/-- The images of a run are not among the numbers that it skips. -/
theorem CaseRun.apply_of_skips (hvalid : run.isValid = true)
    (hskips : run.skips first last step = true) (hc : run.covers c = true)
    (hfirst : first ≤ (run.apply c).toNat) (hlast : (run.apply c).toNat ≤ last) :
    ((run.apply c).toNat - first) % step ≠ 0 := by
  rw [toNat_apply hvalid hc] at hfirst hlast ⊢
  simp only [covers, skips, Bool.and_eq_true, Bool.or_eq_true, decide_eq_true_eq, beq_iff_eq,
    bne_iff_ne, Nat.blt_eq] at hc hskips
  obtain ⟨⟨hcfirst, hclast⟩, hcstep⟩ := hc
  obtain (hapart | hapart) | ⟨haligned, hbetween⟩ := hskips
  · omega
  · omega
  · intro hmod
    -- The images of the run are all the same modulo the step.
    have hshift : step ∣ c.toNat - run.first := by
      rcases haligned with hsingle | hstep
      · exact ⟨0, by omega⟩
      · exact (Nat.dvd_of_mod_eq_zero hstep).trans (Nat.dvd_of_mod_eq_zero hcstep)
    have hsame : run.target + (c.toNat - run.first) ≡ first [MOD step] :=
      ((Nat.modEq_iff_dvd' hfirst).mpr (Nat.dvd_of_mod_eq_zero hmod)).symm
    obtain ⟨k, hk⟩ := hshift
    rw [hk] at hsame
    exact hbetween (by simpa [Nat.ModEq] using hsame)

/-! ### Characters in lowercase -/

/-- Lowercasing leaves the character as it is, wherever it stands. -/
structure IsLower (c : Char) : Prop where
  ne_sigma : c ≠ 'Σ'
  ne_dotted : c ≠ 'İ'
  lowerChar_eq : lowerChar c = c

instance (c : Char) : Decidable (IsLower c) :=
  decidable_of_iff (c ≠ 'Σ' ∧ c ≠ 'İ' ∧ lowerChar c = c)
    ⟨fun ⟨h1, h2, h3⟩ => ⟨h1, h2, h3⟩, fun ⟨h1, h2, h3⟩ => ⟨h1, h2, h3⟩⟩

private theorem lowerChar_eq_self (h : ∀ run ∈ caseRuns, run.covers c = false) :
    lowerChar c = c := by
  have hfind : caseRuns.find? (·.covers c) = none := by simpa using h
  rw [lowerChar, hfind]

/-- A run gives the lowercase form of a character unless no run covers the character. -/
theorem exists_covers_or (c : Char) :
    (∃ run ∈ caseRuns, run.covers c = true ∧ lowerChar c = run.apply c) ∨
      ∀ run ∈ caseRuns, run.covers c = false := by
  unfold lowerChar
  cases hfind : caseRuns.find? (·.covers c) with
  | some run =>
    exact .inl ⟨run, List.mem_of_find?_eq_some hfind, by simpa using List.find?_some hfind, rfl⟩
  | none => exact .inr (by simpa using hfind)

/-- What a run gives is covered by no run. -/
theorem covers_apply {other : CaseRun} (hrun : run ∈ caseRuns) (hother : other ∈ caseRuns)
    (hc : run.covers c = true) : other.covers (run.apply c) = false := by
  have hskips := skips_caseRuns run hrun other hother
  have happly := CaseRun.apply_of_skips (isValid_of_mem_caseRuns run hrun) hskips hc
  by_contra hcovers
  simp only [CaseRun.covers, Bool.not_eq_false, Bool.and_eq_true, decide_eq_true_eq,
    beq_iff_eq] at hcovers
  exact happly hcovers.1.1 hcovers.1.2 hcovers.2

/-- What a run gives lies in none of the untouched ranges. -/
theorem inRanges_apply (hrun : run ∈ caseRuns) (hc : run.covers c = true) :
    inRanges untouchedRanges (run.apply c) = false := by
  by_contra hin
  simp only [inRanges, Bool.not_eq_false, List.any_eq_true, Bool.and_eq_true,
    decide_eq_true_eq] at hin
  obtain ⟨range, hrange, hfirst, hlast⟩ := hin
  exact CaseRun.apply_of_skips (isValid_of_mem_caseRuns run hrun)
    (skips_untouchedRanges run hrun range hrange) hc hfirst hlast (Nat.mod_one _)

/-- The characters that may stand for a character in lowercase: a capital sigma has two forms, and
the dotted capital I becomes two characters. -/
def lowerForms (c : Char) : List Char :=
  if c = 'Σ' then ['ς', 'σ']
  else if c = 'İ' then ['i', Char.ofNat 0x307]
  else [lowerChar c]

/-- Among the untouched characters only a character itself is one of its lowercase forms. -/
theorem eq_of_mem_lowerForms (hd : d ∈ lowerForms c) (hin : inRanges untouchedRanges d = true) :
    d = c := by
  unfold lowerForms at hd
  split_ifs at hd with hsigma hdotted
  · rcases List.mem_pair.mp hd with rfl | rfl <;> exact absurd hin (by decide)
  · rcases List.mem_pair.mp hd with rfl | rfl <;> exact absurd hin (by decide)
  · obtain rfl := List.mem_singleton.mp hd
    obtain ⟨run, hrun, hc, happly⟩ | hnone := exists_covers_or c
    · rw [happly, inRanges_apply hrun hc] at hin
      contradiction
    · exact lowerChar_eq_self hnone

/-- The lowercase forms of a character are in lowercase. -/
theorem isLower_of_mem_lowerForms (hd : d ∈ lowerForms c) : IsLower d := by
  have hdotted : d ≠ 'İ' := by
    rintro rfl
    obtain rfl := eq_of_mem_lowerForms hd (by decide)
    exact absurd hd (by decide)
  unfold lowerForms at hd
  split_ifs at hd with hsigma hdot
  · rcases List.mem_pair.mp hd with rfl | rfl <;> decide +kernel
  · rcases List.mem_pair.mp hd with rfl | rfl <;> decide +kernel
  · obtain rfl := List.mem_singleton.mp hd
    obtain ⟨run, hrun, hc, happly⟩ | hnone := exists_covers_or c
    · have hnone : ∀ other ∈ caseRuns, other.covers (lowerChar c) = false := fun other hother =>
        happly ▸ covers_apply hrun hother hc
      refine ⟨?_, hdotted, lowerChar_eq_self hnone⟩
      -- A capital sigma is covered by a run.
      intro hsigma
      exact absurd (hsigma ▸ hnone) (by decide +kernel)
    · rw [lowerChar_eq_self hnone]
      exact ⟨hsigma, hdot, lowerChar_eq_self hnone⟩

/-! ### Texts in lowercase -/

/-- The first character of a text gives the first characters of its lowercase form, which are some
of its own lowercase forms. -/
theorem lowerFrom_cons (before : List Char) (c : Char) (cs : List Char) :
    ∃ d ds, lowerFrom before (c :: cs) = d :: ds ++ lowerFrom (c :: before) cs ∧
      ∀ e ∈ d :: ds, e ∈ lowerForms c := by
  rw [lowerFrom]
  unfold lowerForms
  split_ifs with hsigma hfinal hdotted
  · exact ⟨'ς', [], rfl, by simp⟩
  · exact ⟨'σ', [], rfl, by simp⟩
  · exact ⟨'i', [Char.ofNat 0x307], rfl, by simp⟩
  · exact ⟨lowerChar c, [], rfl, by simp⟩

private theorem mem_lowerFrom (hd : d ∈ lowerFrom before cs) : ∃ c ∈ cs, d ∈ lowerForms c := by
  induction cs generalizing before with
  | nil => exact absurd hd List.not_mem_nil
  | cons c cs ih =>
    obtain ⟨e, es, heq, hforms⟩ := lowerFrom_cons before c cs
    rw [heq, List.mem_append] at hd
    rcases hd with hd | hd
    · exact ⟨c, List.mem_cons_self, hforms d hd⟩
    · obtain ⟨c', hc', hd⟩ := ih hd
      exact ⟨c', List.mem_cons_of_mem c hc', hd⟩

theorem lowerFrom_eq_nil_iff : lowerFrom before cs = [] ↔ cs = [] := by
  cases cs with
  | nil => simp [lowerFrom]
  | cons c cs =>
    obtain ⟨e, es, heq, -⟩ := lowerFrom_cons before c cs
    simp [heq]

private theorem head?_lowerFrom (hd : d ∈ (lowerFrom before cs).head?) :
    ∃ c ∈ cs.head?, d ∈ lowerForms c := by
  cases cs with
  | nil => simp [lowerFrom] at hd
  | cons c cs =>
    obtain ⟨e, es, heq, hforms⟩ := lowerFrom_cons before c cs
    rw [heq] at hd
    obtain rfl : e = d := by simpa using hd
    exact ⟨c, rfl, hforms e List.mem_cons_self⟩

private theorem getLast?_lowerFrom (hd : d ∈ (lowerFrom before cs).getLast?) :
    ∃ c ∈ cs.getLast?, d ∈ lowerForms c := by
  induction cs generalizing before with
  | nil => simp [lowerFrom] at hd
  | cons c cs ih =>
    obtain ⟨e, es, heq, hforms⟩ := lowerFrom_cons before c cs
    cases cs with
    | nil =>
      rw [heq, lowerFrom, List.append_nil] at hd
      exact ⟨c, rfl, hforms d (List.mem_of_getLast? hd)⟩
    | cons c' cs =>
      have hne : lowerFrom (c :: before) (c' :: cs) ≠ [] := by simp [lowerFrom_eq_nil_iff]
      rw [heq, List.getLast?_append, List.getLast?_eq_some_getLast hne, Option.some_or,
        ← List.getLast?_eq_some_getLast hne] at hd
      obtain ⟨last, hlast, hd⟩ := ih hd
      exact ⟨last, by rwa [List.getLast?_cons_cons], hd⟩

/-- A text in lowercase stays as it is. -/
theorem lowerFrom_eq_self (h : ∀ c ∈ cs, IsLower c) : lowerFrom before cs = cs := by
  induction cs generalizing before with
  | nil => rfl
  | cons c cs ih =>
    obtain ⟨⟨hsigma, hdotted, hself⟩, hcs⟩ := List.forall_mem_cons.mp h
    rw [lowerFrom, if_neg hsigma, if_neg hdotted, hself, ih hcs, List.singleton_append]

/-- What lowercasing gives is in lowercase. -/
theorem isLower_of_mem_lowerFrom (hd : d ∈ lowerFrom before cs) : IsLower d :=
  let ⟨_, _, hforms⟩ := mem_lowerFrom hd
  isLower_of_mem_lowerForms hforms

/-- Lowercasing makes no slash that was not there. -/
theorem slash_mem_of_slash_mem_lowerFrom (h : '/' ∈ lowerFrom before cs) : '/' ∈ cs := by
  obtain ⟨c, hc, hforms⟩ := mem_lowerFrom h
  rwa [← eq_of_mem_lowerForms hforms (by decide)] at hc

private theorem inRanges_of_isBlank (h : isBlank c = true) : inRanges untouchedRanges c = true := by
  simp only [isBlank, Bool.or_eq_true, Bool.and_eq_true, decide_eq_true_eq, beq_iff_eq,
    UInt32.le_iff_toNat_le, ← UInt32.toNat_inj, UInt32.reduceToNat] at h
  simp only [inRanges, untouchedRanges, List.any_cons, List.any_nil, Bool.or_eq_true,
    Bool.and_eq_true, decide_eq_true_eq, Char.toNat]
  omega

/-- A character that is not blank has no blank lowercase form. -/
theorem isBlank_of_mem_lowerForms (hd : d ∈ lowerForms c) (hc : isBlank c = false) :
    isBlank d = false := by
  by_contra hblank
  rw [Bool.not_eq_false] at hblank
  rw [eq_of_mem_lowerForms hd (inRanges_of_isBlank hblank), hc] at hblank
  contradiction

/-- Lowercasing keeps the ends of a text free of blanks. -/
theorem Trimmed.lowerFrom (h : Trimmed cs) (before : List Char) :
    Trimmed (lowerFrom before cs) where
  first _ hd :=
    let ⟨c, hc, hforms⟩ := head?_lowerFrom hd
    isBlank_of_mem_lowerForms hforms (h.first c hc)
  last _ hd :=
    let ⟨c, hc, hforms⟩ := getLast?_lowerFrom hd
    isBlank_of_mem_lowerForms hforms (h.last c hc)

end Provision.Text
