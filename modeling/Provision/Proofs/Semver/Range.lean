import Provision.Proofs.Semver.Pieces
import Provision.Semver.Range

/-!
Version ranges read back from what they are written as. Main statements: what is read as a range
is well formed (`Range.wellFormed_of_parse`), and a well-formed range is read back from its written
form (`Range.parse_text`).

A reader stops where the next character cannot belong to the piece; after a comparator that is the
end of the text or a comma.
-/

namespace Provision.Semver

open Text

variable {part : Part} {cs rest : List Char} {n : Nat} {c : Comparator} {r : Range}

/-- A comparator that can be written: its numbers fit, only a full triple has a pre-release, and
only an incomplete one is a wildcard. -/
structure Comparator.WellFormed (c : Comparator) : Prop where
  major_le : c.major ≤ maxNumber
  minor_le : ∀ n ∈ c.minor, n ≤ maxNumber
  patch_le : ∀ n ∈ c.patch, n ≤ maxNumber
  patch_eq_none : c.minor = none → c.patch = none
  pre_eq_nil : c.patch = none → c.pre = []
  isIdentifier_pre : ∀ identifier ∈ c.pre, IsIdentifier .pre identifier
  patch_of_wildcard : c.op = .wildcard → c.patch = none

/-- A range that can be written. -/
structure Range.WellFormed (r : Range) : Prop where
  length_le : r.comparators.length ≤ maxComparators
  wellFormed : ∀ c ∈ r.comparators, c.WellFormed

/-! ### What is read is well formed -/

/-- A component is missing exactly if no dot comes next; a number fits, and follows no wildcard. -/
theorem component_cases {afterWildcard : Bool} {found : Component}
    (h : component part afterWildcard cs = .ok (found, rest)) :
    (found = .missing ∧ rest = cs ∧ cs.head? ≠ some '.') ∨ cs.head? = some '.' ∧
      (found = .wildcard ∨ ∃ n, found = .value n ∧ afterWildcard = false ∧ n ≤ maxNumber) := by
  unfold component at h
  split at h
  · refine .inr ⟨rfl, ?_⟩
    split_ifs at h with hwildcard hafter
    · cases h
      exact .inl rfl
    · simp only [bind_eq_ok_iff, Prod.exists] at h
      obtain ⟨n, rest', hn, h⟩ := h
      cases h
      exact .inr ⟨n, rfl, by simpa using hafter, (number_eq_ok_iff.mp hn).1⟩
  · next hdot =>
    cases h
    refine .inl ⟨rfl, rfl, fun hhead => ?_⟩
    obtain ⟨cs', hcs⟩ := List.head?_eq_some_iff.mp hhead
    exact hdot cs' hcs

private theorem le_of_component {afterWildcard : Bool} {found : Component}
    (h : component part afterWildcard cs = .ok (found, rest)) :
    ∀ n ∈ found.value?, n ≤ maxNumber := by
  obtain ⟨rfl, -, -⟩ | ⟨-, rfl | ⟨n, rfl, -, hle⟩⟩ := component_cases h
  · simp [Component.value?]
  · simp [Component.value?]
  · simpa [Component.value?] using hle

private theorem readOperator_ne_wildcard (cs : List Char) :
    (readOperator cs).1 ≠ some .wildcard := by
  unfold readOperator
  split <;> simp

theorem isIdentifier_of_markedIdentifiers {mark : Char} {read : List String}
    (h : markedIdentifiers mark part cs = .ok (read, rest)) :
    ∀ identifier ∈ read, IsIdentifier part identifier := by
  unfold markedIdentifiers at h
  split at h
  · split_ifs at h
    · exact (identifiers_eq_ok_iff.mp h).1.2
    · cases h
      simp
  · cases h
    simp

section Steps

variable {op? : Option Operator} {afterOp afterMajor afterMinor afterPatch afterPre : List Char}
  {major m k : Nat} {minor patch : Component} {pre build : List String}

/-- A comparator without a third number ends after its components. -/
theorem readComparator_partial (hop : readOperator cs = (op?, afterOp))
    (hmajor : number .major (dropSpaces afterOp) = .ok (major, afterMajor))
    (hminor : component .minor false afterMajor = .ok (minor, afterMinor))
    (hpatch : component .patch (minor = .wildcard) afterMinor = .ok (patch, rest))
    (hpartial : patch.value? = none) :
    ∃ lastPart, readComparator cs = .ok ⟨⟨op?.getD
      (if minor = .wildcard ∨ patch = .wildcard then .wildcard else .caret), major, minor.value?,
        none, []⟩, lastPart, dropSpaces rest⟩ := by
  simp only [readComparator, hop, hmajor, hminor, hpatch, hpartial, bind, Except.bind,
    Option.isNone_none, if_true]
  exact ⟨_, rfl⟩

/-- A comparator with three numbers may have a pre-release and build metadata. -/
theorem readComparator_full (hop : readOperator cs = (op?, afterOp))
    (hmajor : number .major (dropSpaces afterOp) = .ok (major, afterMajor))
    (hminor : component .minor false afterMajor = .ok (.value m, afterMinor))
    (hpatch : component .patch false afterMinor = .ok (.value k, afterPatch))
    (hpre : markedIdentifiers '-' .pre afterPatch = .ok (pre, afterPre))
    (hbuild : markedIdentifiers '+' .build afterPre = .ok (build, rest)) :
    ∃ lastPart, readComparator cs =
      .ok ⟨⟨op?.getD .caret, major, some m, some k, pre⟩, lastPart, dropSpaces rest⟩ := by
  simp only [readComparator, hop, hmajor, hminor, hpatch, hpre, hbuild, bind, Except.bind,
    Component.value?, reduceCtorEq, decide_false, or_self, Option.isNone_some]
  exact ⟨_, rfl⟩

/-- A number in the third place has one in the second. -/
theorem exists_value_of_component
    (hminor : component .minor false afterMajor = .ok (minor, afterMinor))
    (hpatch : component .patch (minor = .wildcard) afterMinor = .ok (patch, afterPatch))
    (hk : patch.value? = some k) : ∃ m, minor = .value m ∧ patch = .value k := by
  obtain ⟨rfl, -, -⟩ | ⟨hdot, rfl | ⟨n, rfl, hafter, -⟩⟩ := component_cases hpatch
  · cases hk
  · cases hk
  · cases hk
    obtain ⟨rfl, rfl, hnodot⟩ | ⟨-, rfl | ⟨m, rfl, -, -⟩⟩ := component_cases hminor
    · exact absurd hdot hnodot
    · cases hafter
    · exact ⟨m, rfl, rfl⟩

/-- What is read as a comparator is well formed. -/
theorem wellFormed_of_readComparator {read : ReadComparator} (h : readComparator cs = .ok read) :
    read.comparator.WellFormed := by
  have hne := readOperator_ne_wildcard cs
  obtain ⟨⟨op?, afterOp⟩, hop⟩ : ∃ found, readOperator cs = found := ⟨_, rfl⟩
  have hread := h
  simp only [readComparator, hop, bind_eq_ok_iff, Prod.exists] at h
  obtain ⟨major, afterMajor, hmajor, minor, afterMinor, hminor, patch, afterPatch, hpatch, h⟩ := h
  have hmajor_le := (number_eq_ok_iff.mp hmajor).1
  have hminor_le := le_of_component hminor
  have hpatch_le := le_of_component hpatch
  cases hvalue : patch.value? with
  | none =>
    obtain ⟨lastPart, hpartial⟩ := readComparator_partial hop hmajor hminor hpatch hvalue
    rw [hpartial] at hread
    cases hread
    exact ⟨hmajor_le, hminor_le, by simp, by simp, by simp, by simp, by simp⟩
  | some k =>
    obtain ⟨m, rfl, rfl⟩ := exists_value_of_component hminor hpatch hvalue
    simp only [Component.value?, Option.isNone_some, Bool.false_eq_true, if_false, bind_eq_ok_iff,
      Prod.exists] at h
    obtain ⟨pre, afterPre, hpre, build, afterBuild, hbuild, -⟩ := h
    obtain ⟨lastPart, hfull⟩ := readComparator_full hop hmajor hminor hpatch hpre hbuild
    rw [hfull] at hread
    cases hread
    refine ⟨hmajor_le, hminor_le, hpatch_le, by simp, by simp,
      isIdentifier_of_markedIdentifiers hpre, fun hwildcard => ?_⟩
    cases op? with
    | none => cases hwildcard
    | some op => exact absurd (congrArg some hwildcard) (by rwa [hop] at hne)

end Steps

/-- Comparators are read one after another, and each but the last takes a spare place. -/
theorem exists_read_of_readComparators {spare : Nat} {l : List Comparator}
    (h : readComparators spare cs = .ok l) :
    ∃ read, readComparator cs = .ok read ∧ (l = [read.comparator] ∨
      ∃ spare' rest l', spare = spare' + 1 ∧ readComparators spare' rest = .ok l' ∧
        l = read.comparator :: l') := by
  unfold readComparators at h
  split at h
  · cases h
  · next read hread =>
    refine ⟨read, hread, ?_⟩
    split at h
    · cases h
      exact .inl rfl
    · cases h
    · next rest spare' _ =>
      obtain ⟨l', hl', rfl⟩ := map_eq_ok_iff.mp h
      exact .inr ⟨spare', dropSpaces rest, l', rfl, hl', rfl⟩
    · cases h

/-- What is read as comparators is well formed, and there are not too many. -/
theorem wellFormed_of_readComparators {spare : Nat} {l : List Comparator}
    (h : readComparators spare cs = .ok l) :
    l.length ≤ spare + 1 ∧ ∀ c ∈ l, c.WellFormed := by
  induction l generalizing spare cs with
  | nil =>
    obtain ⟨read, -, h | ⟨_, _, _, -, -, h⟩⟩ := exists_read_of_readComparators h
    · cases h
    · cases h
  | cons c l ih =>
    obtain ⟨read, hread, h | ⟨spare', rest, l', rfl, hl', h⟩⟩ := exists_read_of_readComparators h
    · cases h
      exact ⟨by simp, by simpa using wellFormed_of_readComparator hread⟩
    · cases h
      obtain ⟨hlength, hl⟩ := ih hl'
      exact ⟨by simpa using hlength,
        List.forall_mem_cons.mpr ⟨wellFormed_of_readComparator hread, hl⟩⟩

/-- What is read as a range is well formed. -/
theorem Range.wellFormed_of_parse (h : Range.parse cs = .ok r) : r.WellFormed := by
  have hcomparators : ∀ cs, Range.mk <$> readComparators (maxComparators - 1) cs = .ok r →
      r.WellFormed := by
    intro cs h
    obtain ⟨l, hl, rfl⟩ := map_eq_ok_iff.mp h
    obtain ⟨hlength, hwf⟩ := wellFormed_of_readComparators hl
    exact ⟨hlength, hwf⟩
  unfold Range.parse at h
  split at h
  · exact hcomparators _ h
  · split_ifs at h
    · split at h
      · cases h
        exact ⟨by simp, by simp⟩
      · cases h
    · exact hcomparators _ h

/-! ### What is well formed reads back -/

/-- A comparator ends at the end of the text or at a comma. -/
def EndsComparator (rest : List Char) : Prop :=
  ∀ c ∈ rest.head?, c = ','

private theorem EndsComparator.head_eq_false {p : Char → Bool} (h : EndsComparator rest)
    (hp : p ',' = false) : ∀ c ∈ rest.head?, p c = false := fun c hc => h c hc ▸ hp

private theorem EndsComparator.dropSpaces_eq (h : EndsComparator rest) : dropSpaces rest = rest :=
  dropWhile_eq_self (h.head_eq_false (by decide))

private theorem component_of_head_ne {afterWildcard : Bool} (h : cs.head? ≠ some '.') :
    component part afterWildcard cs = .ok (.missing, cs) := by
  unfold component
  split
  · exact absurd rfl h
  · rfl

private theorem exists_digit_toString (n : Nat) :
    ∃ d ds, (toString n).toList = d :: ds ∧ d.isDigit = true := by
  have hne : (toString n).toList ≠ [] := by
    rw [Nat.toString_eq_repr, Nat.toList_repr]
    exact Nat.toDigits_ne_nil
  obtain ⟨d, ds, hds⟩ := List.exists_cons_of_ne_nil hne
  exact ⟨d, ds, hds, isDigit_of_mem_toString (hds ▸ List.mem_cons_self)⟩

private theorem isWildcard_of_isDigit {d : Char} (hd : d.isDigit = true) :
    isWildcard d = false := by
  simp only [isWildcard, Bool.or_eq_false_iff, beq_eq_false_iff_ne]
  refine ⟨⟨?_, ?_⟩, ?_⟩ <;>
  · rintro rfl
    cases hd

private theorem component_number (hn : n ≤ maxNumber) (rest : List Char)
    (hrest : ∀ c ∈ rest.head?, c.isDigit = false) :
    component part false ('.' :: ((toString n).toList ++ rest)) = .ok (.value n, rest) := by
  have hnumber : number part ((toString n).toList ++ rest) = .ok (n, rest) :=
    number_eq_ok_iff.mpr ⟨hn, hrest, rfl⟩
  have hwildcard : ¬ ((toString n).toList ++ rest).head?.any isWildcard = true := by
    obtain ⟨d, ds, hds, hd⟩ := exists_digit_toString n
    rw [hds]
    simp [isWildcard_of_isDigit hd]
  simp only [component, if_neg hwildcard, Bool.false_eq_true, if_false, hnumber, bind, Except.bind]
  rfl

private theorem readOperator_text
    (op : Operator) {d : Char} (hd : d.isDigit = true) (cs : List Char) :
    readOperator (op.text.toList ++ d :: cs) =
      (if op = .wildcard then none else some op, d :: cs) := by
  have hne : ∀ c : Char, c.isDigit = false → d ≠ c := fun c hc hdc => by simp [← hdc, hd] at hc
  have heq := hne '=' (by decide)
  have hgreater := hne '>' (by decide)
  have hless := hne '<' (by decide)
  have htilde := hne '~' (by decide)
  have hcaret := hne '^' (by decide)
  cases op <;> simp [Operator.text, readOperator, *]

private theorem markedIdentifiers_of_head_ne {mark : Char} (h : cs.head? ≠ some mark) :
    markedIdentifiers mark part cs = .ok ([], cs) := by
  unfold markedIdentifiers
  split
  · rw [if_neg fun hc => h (by rw [hc]; rfl)]
  · rfl

section Written

variable {op : Operator} {major m k : Nat} {minor patch : Component}
  {afterMinor afterPatch : List Char} {pre : List String}

private theorem readOperator_number (op : Operator) (n : Nat) (tail : List Char) :
    readOperator (op.text.toList ++ ((toString n).toList ++ tail)) =
      (if op = .wildcard then none else some op, (toString n).toList ++ tail) := by
  obtain ⟨d, ds, hds, hd⟩ := exists_digit_toString n
  rw [hds]
  exact readOperator_text op hd _

private theorem number_dropSpaces
    (hn : n ≤ maxNumber) (htail : ∀ c ∈ tail.head?, c.isDigit = false) :
    number part (dropSpaces ((toString n).toList ++ tail)) = .ok (n, tail) := by
  have hspaces : dropSpaces ((toString n).toList ++ tail) = (toString n).toList ++ tail := by
    obtain ⟨d, ds, hds, hd⟩ := exists_digit_toString n
    rw [hds]
    refine dropWhile_eq_self fun c hc => ?_
    cases hc
    simp only [decide_eq_false_iff_not]
    rintro rfl
    cases hd
  rw [hspaces]
  exact number_eq_ok_iff.mpr ⟨hn, htail, rfl⟩

private theorem readComparator_partial_text (op : Operator) (hmajor : major ≤ maxNumber)
    (tail : List Char) (htail : ∀ c ∈ tail.head?, c.isDigit = false)
    (hminor : component .minor false tail = .ok (minor, afterMinor))
    (hpatch : component .patch (minor = .wildcard) afterMinor = .ok (patch, rest))
    (hpartial : patch.value? = none)
    (hop : op = .wildcard → minor = .wildcard ∨ patch = .wildcard) (hrest : EndsComparator rest) :
    ∃ lastPart, readComparator (op.text.toList ++ ((toString major).toList ++ tail)) =
      .ok ⟨⟨op, major, minor.value?, none, []⟩, lastPart, rest⟩ := by
  obtain ⟨lastPart, hread⟩ := readComparator_partial (readOperator_number op major tail)
    (number_dropSpaces hmajor htail) hminor hpatch hpartial
  refine ⟨lastPart, ?_⟩
  rw [hread, hrest.dropSpaces_eq]
  by_cases hwildcard : op = .wildcard
  · rw [if_pos hwildcard, if_pos (hop hwildcard), hwildcard]
    rfl
  · rw [if_neg hwildcard]
    rfl

private theorem readComparator_full_text (hmajor : major ≤ maxNumber)
    (tail : List Char) (htail : ∀ c ∈ tail.head?, c.isDigit = false)
    (hminor : component .minor false tail = .ok (.value m, afterMinor))
    (hpatch : component .patch false afterMinor = .ok (.value k, afterPatch))
    (hpre : markedIdentifiers '-' .pre afterPatch = .ok (pre, rest))
    (hop : op ≠ .wildcard) (hrest : EndsComparator rest) :
    ∃ lastPart, readComparator (op.text.toList ++ ((toString major).toList ++ tail)) =
      .ok ⟨⟨op, major, some m, some k, pre⟩, lastPart, rest⟩ := by
  have hplus : rest.head? ≠ some '+' := fun hplus => absurd (hrest '+' hplus) (by decide)
  obtain ⟨lastPart, hread⟩ := readComparator_full (readOperator_number op major tail)
    (number_dropSpaces hmajor htail) hminor hpatch hpre (markedIdentifiers_of_head_ne hplus)
  refine ⟨lastPart, ?_⟩
  rw [hread, hrest.dropSpaces_eq, if_neg hop]
  rfl

private theorem head_pre_eq_false (hrest : EndsComparator rest) :
    ∀ c ∈ ((if pre.isEmpty then "" else "-" ++ dotted pre).toList ++ rest).head?,
      c.isDigit = false := by
  cases pre with
  | nil => exact hrest.head_eq_false (by decide)
  | cons identifier pre => simp

/-- A pre-release is read back after its hyphen. -/
theorem markedIdentifiers_pre (hpre : ∀ identifier ∈ pre, IsIdentifier .pre identifier)
    (hrest : EndsComparator rest) :
    markedIdentifiers '-' .pre ((if pre.isEmpty then "" else "-" ++ dotted pre).toList ++ rest) =
      .ok (pre, rest) := by
  cases pre with
  | nil =>
    exact markedIdentifiers_of_head_ne fun hdash => absurd (hrest '-' hdash) (by decide)
  | cons identifier pre =>
    have hread : identifiers .pre ((dotted (identifier :: pre)).toList ++ rest) =
        .ok (identifier :: pre, rest) :=
      identifiers_eq_ok_iff.mpr ⟨⟨by simp, hpre⟩, hrest.head_eq_false (by decide), rfl⟩
    simpa [markedIdentifiers] using hread

end Written

/-- A well-formed comparator is read back from its written form. -/
theorem Comparator.WellFormed.readComparator_text (h : c.WellFormed) (rest : List Char)
    (hrest : EndsComparator rest) :
    ∃ lastPart, readComparator (c.text.toList ++ rest) = .ok ⟨c, lastPart, rest⟩ := by
  obtain ⟨op, major, minor, patch, pre⟩ := c
  have hnodot : rest.head? ≠ some '.' := fun hdot => absurd (hrest '.' hdot) (by decide)
  have hdigit := hrest.head_eq_false (p := Char.isDigit) (by decide)
  -- An incomplete comparator ends after its last number or, as a wildcard, with a star.
  rcases minor with - | m
  · obtain rfl : patch = none := h.patch_eq_none rfl
    obtain rfl : pre = [] := h.pre_eq_nil rfl
    by_cases hwildcard : op = .wildcard
    · have hread := readComparator_partial_text op h.major_le ('.' :: '*' :: rest) (by simp) rfl
        (component_of_head_ne hnodot) rfl (fun _ => .inl rfl) hrest
      simpa [text, text.wildcardText, hwildcard, Component.value?] using hread
    · have hread := readComparator_partial_text op h.major_le rest hdigit
        (component_of_head_ne hnodot) (component_of_head_ne hnodot) rfl
        (fun hop => absurd hop hwildcard) hrest
      simpa [text, text.wildcardText, hwildcard, Component.value?] using hread
  rcases patch with - | k
  · obtain rfl : pre = [] := h.pre_eq_nil rfl
    by_cases hwildcard : op = .wildcard
    · have hread := readComparator_partial_text op h.major_le _ (by simp)
        (component_number (h.minor_le m rfl) ('.' :: '*' :: rest) (by simp)) rfl rfl
        (fun _ => .inr rfl) hrest
      simpa [text, text.wildcardText, hwildcard, Component.value?] using hread
    · have hread := readComparator_partial_text op h.major_le _ (by simp)
        (component_number (h.minor_le m rfl) rest hdigit) (component_of_head_ne hnodot) rfl
        (fun hop => absurd hop hwildcard) hrest
      simpa [text, text.wildcardText, hwildcard, Component.value?] using hread
  · have hop : op ≠ .wildcard := fun hop => by cases h.patch_of_wildcard hop
    have hread := readComparator_full_text h.major_le _ (by simp)
      (component_number (h.minor_le m rfl) _ (by simp))
      (component_number (h.patch_le k rfl) _ (head_pre_eq_false hrest))
      (markedIdentifiers_pre h.isIdentifier_pre hrest) hop hrest
    simpa [text] using hread

/-- A comparator starts with its operator or a digit. -/
theorem Comparator.exists_head_text (c : Comparator) :
    ∃ d ds, c.text.toList = d :: ds ∧ d ≠ ' ' ∧ isWildcard d = false := by
  obtain ⟨d, ds, hds, hd⟩ := exists_digit_toString c.major
  have hspace : d ≠ ' ' := by
    rintro rfl
    cases hd
  obtain ⟨tail, htext⟩ : ∃ tail, c.text.toList = c.op.text.toList ++ d :: tail :=
    ⟨_, by rw [text, String.toList_append, String.toList_append, List.append_assoc, hds]; rfl⟩
  rw [htext]
  cases c.op
  case wildcard => exact ⟨d, tail, rfl, hspace, isWildcard_of_isDigit hd⟩
  all_goals exact ⟨_, _, rfl, by decide, by decide⟩

def isRangeChar (c : Char) : Bool :=
  inDotted c || ['=', '>', '<', '~', '^', '*'].contains c

/-- A text that may be a part of a comparator. -/
def IsRangeText (s : String) : Prop :=
  s.toList.all isRangeChar = true

private theorem IsRangeText.append {s t : String} (hs : IsRangeText s) (ht : IsRangeText t) :
    IsRangeText (s ++ t) := by
  rw [IsRangeText, String.toList_append, List.all_append, hs, ht]
  rfl

private theorem isRangeText_toString (n : Nat) : IsRangeText (toString n) := by
  rw [IsRangeText, List.all_eq_true]
  intro d hd
  have hdigit := isDigit_of_mem_toString hd
  simp [isRangeChar, inDotted, isIdentifierChar, Char.isAlphanum, hdigit]

private theorem isRangeText_dotted {pre : List String}
    (hpre : ∀ identifier ∈ pre, IsIdentifier part identifier) : IsRangeText (dotted pre) := by
  rw [IsRangeText, List.all_eq_true]
  intro d hd
  rw [isRangeChar, inDotted_of_mem_dotted hpre d hd, Bool.true_or]

/-- A comparator is written with the characters of ranges only. -/
theorem Comparator.WellFormed.isRangeText (h : c.WellFormed) : IsRangeText c.text := by
  have hop : IsRangeText c.op.text := by
    cases c.op <;> rfl
  have hdot : IsRangeText "." := rfl
  have hwildcard : IsRangeText (text.wildcardText c) := by
    unfold text.wildcardText
    split <;> rfl
  have hpre : IsRangeText (if c.pre.isEmpty then "" else "-" ++ dotted c.pre) := by
    have hhyphen : IsRangeText "-" := rfl
    split
    · rfl
    · exact hhyphen.append (isRangeText_dotted h.isIdentifier_pre)
  refine (hop.append (isRangeText_toString c.major)).append ?_
  split
  · exact hwildcard
  · next m _ _ => exact (hdot.append (isRangeText_toString m)).append hwildcard
  · next m k _ _ =>
    exact (((hdot.append (isRangeText_toString m)).append hdot).append
      (isRangeText_toString k)).append hpre

private theorem isBlank_of_isAlphanum {d : Char} (h : d.isAlphanum = true) : isBlank d = false := by
  -- Letters and digits lie between a blank and the next one.
  have hbounds : '0'.val ≤ d.val ∧ d.val ≤ 'z'.val := by
    rcases Bool.or_eq_true_iff.mp h with hletter | hdigit
    · rcases Bool.or_eq_true_iff.mp hletter with hupper | hlower
      · obtain ⟨hlow, hhigh⟩ := of_decide_eq_true hupper
        exact ⟨UInt32.le_trans (by decide) hlow, UInt32.le_trans hhigh (by decide)⟩
      · obtain ⟨hlow, hhigh⟩ := Bool.and_eq_true_iff.mp hlower
        exact ⟨UInt32.le_trans (by decide) (of_decide_eq_true hlow), of_decide_eq_true hhigh⟩
    · obtain ⟨hlow, hhigh⟩ := Bool.and_eq_true_iff.mp hdigit
      exact ⟨of_decide_eq_true hlow, UInt32.le_trans (of_decide_eq_true hhigh) (by decide)⟩
  simp only [UInt32.le_iff_toNat_le, Char.reduceVal, UInt32.reduceToNat] at hbounds
  simp only [isBlank, Bool.or_eq_false_iff, Bool.and_eq_false_iff, decide_eq_false_iff_not,
    beq_eq_false_iff_ne, ne_eq, UInt32.le_iff_toNat_le, ← UInt32.toNat_inj, UInt32.reduceToNat]
  omega

/-- Neither a comma nor a blank stands in a comparator. -/
theorem not_separator_of_isRangeChar {d : Char} (h : isRangeChar d = true) :
    (d == ',' || isBlank d) = false := by
  simp only [isRangeChar, inDotted, isIdentifierChar, Bool.or_eq_true, beq_iff_eq] at h
  rcases h with ((halnum | rfl) | rfl) | hoperator
  · have hcomma : d ≠ ',' := by
      rintro rfl
      cases halnum
    simp [hcomma, isBlank_of_isAlphanum halnum]
  · decide
  · decide
  · have hall : (['=', '>', '<', '~', '^', '*'].all fun d => !(d == ',' || isBlank d)) = true := by
      decide
    simpa using List.all_eq_true.mp hall d (List.contains_iff_mem.mp hoperator)

def joined (l : List Comparator) : List Char :=
  [',', ' '].intercalate (l.map (·.text.toList))

private theorem joined_cons_cons (c next : Comparator) (l : List Comparator) :
    joined (c :: next :: l) = c.text.toList ++ ',' :: ' ' :: joined (next :: l) := by
  simp [joined, List.intercalate_cons_cons]

theorem exists_head_joined (c : Comparator) (l : List Comparator) :
    ∃ d ds, joined (c :: l) = d :: ds ∧ d ≠ ' ' ∧ isWildcard d = false := by
  obtain ⟨d, ds, hds, hd⟩ := c.exists_head_text
  cases l with
  | nil => exact ⟨d, ds, by rw [← hds]; exact List.intercalate_singleton, hd⟩
  | cons next l => exact ⟨d, _, by rw [joined_cons_cons, hds]; rfl, hd⟩

private theorem dropSpaces_joined (l : List Comparator) : dropSpaces (joined l) = joined l := by
  cases l with
  | nil => rfl
  | cons c l =>
    obtain ⟨d, ds, hds, hd, -⟩ := exists_head_joined c l
    rw [hds]
    exact List.dropWhile_cons_of_neg (by simpa using hd)

/-- Comparators joined by commas are read back one after another. -/
theorem readComparators_joined {spare : Nat} {l : List Comparator} (hne : l ≠ [])
    (hlength : l.length ≤ spare + 1) (h : ∀ c ∈ l, c.WellFormed) :
    readComparators spare (joined l) = .ok l := by
  induction l generalizing spare with
  | nil => exact absurd rfl hne
  | cons c l ih =>
    obtain ⟨hc, hl⟩ := List.forall_mem_cons.mp h
    cases l with
    | nil =>
      obtain ⟨lastPart, hread⟩ := hc.readComparator_text [] (by simp [EndsComparator])
      rw [List.append_nil] at hread
      simp only [joined, List.map_cons, List.map_nil, List.intercalate_singleton, readComparators,
        hread]
    | cons next l =>
      obtain ⟨spare, rfl⟩ : ∃ spare', spare = spare' + 1 :=
        Nat.exists_eq_succ_of_ne_zero (by rintro rfl; simp at hlength)
      have hrest : readComparators spare (joined (next :: l)) = .ok (next :: l) :=
        ih (by simp) (by simpa using hlength) hl
      -- The reader skips the space after the comma, and nothing more.
      have hspaces : dropSpaces (' ' :: joined (next :: l)) = joined (next :: l) :=
        dropSpaces_joined (next :: l)
      obtain ⟨lastPart, hread⟩ := hc.readComparator_text (',' :: ' ' :: joined (next :: l))
        (by simp [EndsComparator])
      simp only [joined_cons_cons, readComparators, hread, hspaces, hrest]
      rfl

theorem Range.toList_text (hne : r.comparators ≠ []) : r.text.toList = joined r.comparators := by
  rw [text, if_neg (by simpa using hne), String.toList_intercalate, List.map_map]
  rfl

/-- A well-formed range is read back from its written form. -/
theorem Range.parse_text (h : r.WellFormed) : Range.parse r.text.toList = .ok r := by
  obtain ⟨l⟩ := r
  cases l with
  | nil => rfl
  | cons c l =>
    have hread : readComparators (maxComparators - 1) (joined (c :: l)) = .ok (c :: l) :=
      readComparators_joined (List.cons_ne_nil c l) h.length_le h.wellFormed
    obtain ⟨d, ds, hds, -, hwildcard⟩ := exists_head_joined c l
    rw [toList_text (List.cons_ne_nil c l), parse, dropSpaces_joined]
    rw [hds] at hread ⊢
    simp only [hwildcard, Bool.false_eq_true, if_false, hread]
    rfl

end Provision.Semver
