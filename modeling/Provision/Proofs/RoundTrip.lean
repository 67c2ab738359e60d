import Provision.Proofs.Semver.Range
import Provision.Proofs.Text.Lowercase
import Provision.Requirement

/-!
References and requirements read back from what they are written as. A canonical value is one that
reading gives for some text; its written form is read as the value itself, whatever the text was:
names keep their lowercase, the slash after the name stays the first one, and every range prints to
something that is cut into the same comparators. Stored requirements keep their flags too.
-/

namespace Provision

open Text

variable {s : String}

/-! ### Names and versions -/

/-- A name that some text stands for, and which can be told from what follows the next slash. -/
structure PackageName.IsCanonical (name : PackageName) : Prop where
  ne_nil : name.text.toList ≠ []
  trimmed : Trimmed name.text.toList
  isLower : ∀ c ∈ name.text.toList, IsLower c
  slash_notMem : '/' ∉ name.text.toList

/-- A version that some text which is not blank stands for. -/
structure Version.IsCanonical (v : Version) : Prop where
  ne_nil : v.text.toList ≠ []
  trimmed : Trimmed v.text.toList

private theorem trimChars_ne_nil (h : isBlankText s = false) : trimChars s.toList ≠ [] := by
  intro hnil
  have hblank : isBlankText s = true := List.all_eq_true.mpr (trimChars_eq_nil_iff.mp hnil)
  simp [h] at hblank

private theorem PackageName.toList_ofText (s : String) :
    (ofText s).text.toList = lowerFrom [] (trimChars s.toList) := by
  rw [ofText, lowercase, String.toList_ofList, toList_trim]

private theorem PackageName.isCanonical_ofText
    (hblank : isBlankText s = false) (hslash : '/' ∉ s.toList) :
    (ofText s).IsCanonical where
  ne_nil := by
    rw [toList_ofText, ne_eq, lowerFrom_eq_nil_iff]
    exact trimChars_ne_nil hblank
  trimmed := by
    rw [toList_ofText]
    exact (trimmed_trimChars s.toList).lowerFrom []
  isLower := by
    rw [toList_ofText]
    exact fun c hc => isLower_of_mem_lowerFrom hc
  slash_notMem := by
    rw [toList_ofText]
    exact fun h => hslash (mem_of_mem_trimChars (slash_mem_of_slash_mem_lowerFrom h))

private theorem PackageName.IsCanonical.ofText_text {name : PackageName} (h : name.IsCanonical) :
    ofText name.text = name := by
  rw [ofText, lowercase, h.trimmed.trim_eq, lowerFrom_eq_self h.isLower, String.ofList_toList]

private theorem Version.isCanonical_ofText (hblank : isBlankText s = false) :
    (ofText s).IsCanonical where
  ne_nil := by
    rw [ofText, toList_trim]
    exact trimChars_ne_nil hblank
  trimmed := by
    rw [ofText, toList_trim]
    exact trimmed_trimChars s.toList

private theorem Version.IsCanonical.ofText_text {v : Version} (h : v.IsCanonical) :
    ofText v.text = v := by
  rw [ofText, h.trimmed.trim_eq]

/-! ### References -/

namespace Reference

variable {r : Reference}

/-- A reference that some text stands for. -/
structure IsCanonical (r : Reference) : Prop where
  name : r.name.IsCanonical
  version : r.version.IsCanonical

private theorem parse_eq_ok_iff :
    parse s = .ok r ↔ ∃ name version, cutFirst '/' s = some (name, version) ∧
    isBlankText name = false ∧ isBlankText version = false ∧ r = ofTexts name version := by
  constructor
  · intro h
    unfold parse at h
    split at h
    · cases h
    · next name version hcut =>
      split_ifs at h with hblank
      simp only [Bool.or_eq_true, not_or, Bool.not_eq_true] at hblank
      exact ⟨name, version, hcut, hblank.1, hblank.2, (Except.ok.inj h).symm⟩
  · rintro ⟨name, version, hcut, hname, hversion, rfl⟩
    simp only [parse, hcut, hname, hversion]
    rfl

private theorem isCanonical_of_parse (h : parse s = .ok r) : r.IsCanonical := by
  obtain ⟨name, version, hcut, hname, hversion, rfl⟩ := parse_eq_ok_iff.mp h
  obtain ⟨-, hslash⟩ := cutFirst_eq_some_iff.mp hcut
  exact ⟨PackageName.isCanonical_ofText hname hslash, Version.isCanonical_ofText hversion⟩

/-- A canonical reference is read back from its written form. -/
theorem parse_text (h : r.IsCanonical) : parse r.text = .ok r := by
  have hcut : cutFirst '/' r.text = some (r.name.text, r.version.text) :=
    cutFirst_eq_some_iff.mpr ⟨by simp [text], h.name.slash_notMem⟩
  refine parse_eq_ok_iff.mpr ⟨_, _, hcut, h.name.trimmed.isBlankText_eq_false h.name.ne_nil,
    h.version.trimmed.isBlankText_eq_false h.version.ne_nil, ?_⟩
  rw [ofTexts, h.name.ofText_text, h.version.ofText_text]

end Reference

/-! ### Constraints -/

namespace Constraint

/-- A constraint that some text stands for. An exact version does not start like a range. -/
def IsCanonical : Constraint → Prop
  | .exact v => v.IsCanonical ∧ v.text.toList.head? ≠ some '['
  | .range r => r.WellFormed

private theorem exists_range_of_parseRange
    {body : String} {c : Constraint} (h : parseRange body = .ok c) :
    ∃ r, c = .range r ∧ r.WellFormed := by
  obtain ⟨r, hr, rfl⟩ := map_eq_ok_iff.mp h
  exact ⟨r, rfl, Semver.Range.wellFormed_of_parse hr⟩

/-- The comparators of a range are found again between the commas and blanks of its written form. -/
theorem words_joined {c : Semver.Comparator} {l : List Semver.Comparator}
    (h : ∀ c' ∈ c :: l, c'.WellFormed) :
    words (fun d => d == ',' || isBlank d) (Semver.joined (c :: l)) =
      (c :: l).map (·.text.toList) := by
  refine words_intercalate (List.all_eq_true.mp (by decide)) (by decide) fun word hword => ?_
  obtain ⟨c', hc', rfl⟩ := List.mem_map.mp hword
  obtain ⟨d, ds, hds, -⟩ := c'.exists_head_text
  refine ⟨by simp [hds], fun d hd => ?_⟩
  have htext := List.all_eq_true.mp (h c' hc').isRangeText
  exact Semver.not_separator_of_isRangeChar (htext d hd)

/-- What a range is written as is read as that range. -/
theorem parseRange_text {r : Semver.Range} (h : r.WellFormed) :
    parseRange r.text = .ok (.range r) := by
  have hread := Semver.Range.parse_text h
  obtain ⟨l⟩ := r
  cases l with
  | nil => rfl
  | cons c l =>
    have htext := Semver.Range.toList_text (r := ⟨c :: l⟩) (List.cons_ne_nil c l)
    have hwords := words_joined (c := c) (l := l) h.wellFormed
    have hjoined : [',', ' '].intercalate ((c :: l).map (·.text.toList)) = Semver.joined (c :: l) :=
      rfl
    obtain ⟨d, ds, hds, -⟩ := Semver.exists_head_joined c l
    simp only [parseRange, htext, hwords, hjoined] at hread ⊢
    rw [hds] at hread ⊢
    simp only [List.isEmpty_cons, Bool.false_eq_true, if_false, hread]
    rfl

/-- What a constraint is written as is neither empty nor has it blanks at its ends. -/
theorem IsCanonical.trimmed_text {c : Constraint} (h : c.IsCanonical) :
    Trimmed c.text.toList ∧ c.text.toList ≠ [] := by
  cases c with
  | exact v => exact ⟨h.1.trimmed, h.1.ne_nil⟩
  | range r =>
    have hbracket : ∀ d, isBlank d = false → Trimmed [d] := fun d hd => ⟨by simpa, by simpa⟩
    have htext : (range r).text.toList = ['['] ++ r.text.toList ++ [']'] := by simp [text]
    rw [htext]
    exact ⟨(hbracket '[' (by decide)).append (hbracket ']' (by decide)) (by simp) (by simp),
      by simp⟩

end Constraint

/-! ### Requirements -/

namespace Requirement

variable {q : Requirement}

/-- A requirement whose name and constraint some text stands for. -/
structure IsCanonical (q : Requirement) : Prop where
  name : q.name.IsCanonical
  constraint : q.constraint.IsCanonical

private theorem parseConstraint_eq_ok_iff {input rest : String} {c : Constraint} :
    parseConstraint input rest = .ok c ↔
      (∃ body, rest.toList = '[' :: (body ++ [']']) ∧
        Constraint.parseRange (String.ofList body) = .ok c) ∨
      (rest.toList.head? ≠ some '[' ∧ c = .exact (.ofText rest)) := by
  unfold parseConstraint
  split
  · next body hrest =>
    simp only [hrest, List.head?_cons, ne_eq, not_true_eq_false, false_and, or_false,
      List.cons.injEq, true_and]
    split
    · next hlast =>
      obtain ⟨front, rfl⟩ := List.getLast?_eq_some_iff.mp hlast
      cases hrange : Constraint.parseRange (String.ofList front) <;> simp [hrange]
    · next hlast =>
      simp only [reduceCtorEq, false_iff, not_exists, not_and]
      rintro front rfl
      exact absurd List.getLast?_concat hlast
  · next hrest =>
    have hhead : rest.toList.head? ≠ some '[' := fun hhead => by
      obtain ⟨body, hbody⟩ := List.head?_eq_some_iff.mp hhead
      exact hrest body hbody
    constructor
    · exact fun h => .inr ⟨hhead, (Except.ok.inj h).symm⟩
    · rintro (⟨body, hbody, -⟩ | ⟨-, rfl⟩)
      · exact absurd hbody (hrest _)
      · rfl

private theorem parse_eq_ok_iff : parse s = .ok q ↔ ∃ name rest constraint,
    cutFirst '/' (trim s) = some (name, rest) ∧ isBlankText name = false ∧ trim rest ≠ "" ∧
      parseConstraint s (trim rest) = .ok constraint ∧
        q = ⟨.ofText name, constraint, false, true⟩ := by
  constructor
  · intro h
    unfold parse at h
    split at h
    · cases h
    · next name rest hcut =>
      dsimp only at h
      split_ifs at h with hblank
      · cases h
      · simp only [Bool.or_eq_true, not_or, Bool.not_eq_true] at hblank
        obtain ⟨c, hc, h⟩ := bind_eq_ok_iff.mp h
        exact ⟨name, rest, c, hcut, hblank.1, by simpa using hblank.2, hc, (Except.ok.inj h).symm⟩
  · rintro ⟨name, rest, constraint, hcut, hname, hrest, hconstraint, rfl⟩
    have hempty : (trim rest).isEmpty = false := by simpa using hrest
    simp only [parse, hcut, hname, hempty, hconstraint]
    rfl

private theorem isCanonical_of_parse (h : parse s = .ok q) :
    q.IsCanonical ∧ q.isOverride = false ∧ q.isTransitive = true := by
  obtain ⟨name, rest, c, hcut, hname, hrest, hc, rfl⟩ := parse_eq_ok_iff.mp h
  obtain ⟨-, hslash⟩ := cutFirst_eq_some_iff.mp hcut
  refine ⟨⟨PackageName.isCanonical_ofText hname hslash, ?_⟩, rfl, rfl⟩
  obtain ⟨body, -, hrange⟩ | ⟨hbracket, rfl⟩ := parseConstraint_eq_ok_iff.mp hc
  · obtain ⟨r, rfl, hr⟩ := Constraint.exists_range_of_parseRange hrange
    exact hr
  · have htrimmed : Trimmed (trim rest).toList := by
      rw [toList_trim]
      exact trimmed_trimChars rest.toList
    have htext : Version.ofText (trim rest) = ⟨trim rest⟩ := by
      rw [Version.ofText, htrimmed.trim_eq]
    rw [htext]
    exact ⟨⟨mt String.toList_eq_nil_iff.mp hrest, htrimmed⟩, hbracket⟩

private theorem parseConstraint_text {input : String} {c : Constraint} (h : c.IsCanonical) :
    parseConstraint input c.text = .ok c := by
  rw [parseConstraint_eq_ok_iff]
  cases c with
  | exact v => exact .inr ⟨h.2, by rw [Constraint.text, h.1.ofText_text]⟩
  | range r =>
    refine .inl ⟨r.text.toList, by simp [Constraint.text], ?_⟩
    rw [String.ofList_toList, Constraint.parseRange_text h]

/-- A canonical requirement is read back from its written form, which does not show its flags. -/
theorem parse_text (h : q.IsCanonical) :
    parse q.text = .ok { q with isOverride := false, isTransitive := true } := by
  obtain ⟨htrimmed, hne⟩ := h.constraint.trimmed_text
  have htext : q.text.toList = q.name.text.toList ++ ['/'] ++ q.constraint.text.toList := by
    simp [text]
  have htrim : trim q.text = q.text := by
    refine Trimmed.trim_eq ?_
    rw [htext]
    exact h.name.trimmed.append htrimmed h.name.ne_nil hne
  have hcut : cutFirst '/' (trim q.text) = some (q.name.text, q.constraint.text) := by
    rw [htrim]
    exact cutFirst_eq_some_iff.mpr ⟨by simp [htext], h.name.slash_notMem⟩
  refine parse_eq_ok_iff.mpr ⟨_, _, q.constraint, hcut,
    h.name.trimmed.isBlankText_eq_false h.name.ne_nil, ?_, ?_, ?_⟩
  · rw [htrimmed.trim_eq]
    exact mt String.toList_eq_nil_iff.mpr hne
  · rw [htrimmed.trim_eq]
    exact parseConstraint_text h.constraint
  · rw [h.name.ofText_text]

/-- A canonical requirement is read back from its stored form. -/
theorem ofSpec_toSpec (h : q.IsCanonical) : ofSpec q.toSpec = .ok q := by
  have hread := parse_text h
  obtain ⟨name, constraint, isOverride, isTransitive⟩ := q
  cases isOverride <;> cases isTransitive <;>
    simp [toSpec, ofSpec, hread, bind, Except.bind, pure, Except.pure]

end Requirement

/-- Whatever text they were read from, references and requirements are read back from what they are
written as, and requirements with any flags from what they are stored as. -/
theorem reads_back_of_parse :
    (∀ s r, Reference.parse s = .ok r → Reference.parse r.text = .ok r) ∧
      ∀ s q, Requirement.parse s = .ok q → ∀ isOverride isTransitive,
        Requirement.parse { q with isOverride, isTransitive }.text = .ok q ∧
          Requirement.ofSpec { q with isOverride, isTransitive }.toSpec =
            .ok { q with isOverride, isTransitive } := by
  refine ⟨fun s r h => Reference.parse_text (Reference.isCanonical_of_parse h),
    fun s q h isOverride isTransitive => ?_⟩
  obtain ⟨⟨hname, hconstraint⟩, hoverride, htransitive⟩ := Requirement.isCanonical_of_parse h
  have hq : { q with isOverride, isTransitive }.IsCanonical := ⟨hname, hconstraint⟩
  refine ⟨?_, Requirement.ofSpec_toSpec hq⟩
  rw [Requirement.parse_text hq, ← hoverride, ← htransitive]

/-- A reference whose version holds a slash. -/
def Reference.ofSlashedVersion : Reference :=
  ⟨⟨"οδυσσευς"⟩, ⟨"1.0/Beta"⟩⟩

/-- A requirement with a range of four comparators. -/
def Requirement.ofRanges : Requirement where
  name := ⟨"i̇zlib"⟩
  constraint := .range ⟨[⟨.greaterEq, 1, some 2, none, []⟩,
    ⟨.tilde, 2, some 0, some 0, ["rc", "1"]⟩, ⟨.wildcard, 3, none, none, []⟩,
    ⟨.caret, 4, none, none, []⟩]⟩
  isOverride := false
  isTransitive := true

/-- Capitals with special lowercase forms, a second slash, blanks all around, and comparators that
print differently from how they were written. -/
theorem reads_back_ofCapitals :
    Reference.parse " ΟΔΥΣΣΕΥΣ / 1.0/Beta " = .ok .ofSlashedVersion ∧
      Reference.parse Reference.ofSlashedVersion.text = .ok .ofSlashedVersion ∧
      Requirement.parse " İzlib / [ >=1.2 ,, ~2.0.0-rc.1+b7\t3.X 4] " = .ok .ofRanges ∧
      Requirement.ofRanges.text = "i̇zlib/[>=1.2, ~2.0.0-rc.1, 3.*, ^4]" ∧
      Requirement.parse Requirement.ofRanges.text = .ok .ofRanges ∧
      Requirement.ofSpec Requirement.ofRanges.overriding.nonTransitive.toSpec =
        .ok Requirement.ofRanges.overriding.nonTransitive := by
  have hreference : Reference.parse " ΟΔΥΣΣΕΥΣ / 1.0/Beta " = .ok .ofSlashedVersion := by
    decide +kernel
  have hrequirement : Requirement.parse " İzlib / [ >=1.2 ,, ~2.0.0-rc.1+b7\t3.X 4] " =
      .ok .ofRanges := by
    decide +kernel
  exact ⟨hreference, reads_back_of_parse.1 _ _ hreference, hrequirement, by decide +kernel,
    reads_back_of_parse.2 _ _ hrequirement true false⟩

end Provision
