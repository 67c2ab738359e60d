import Provision.BuildPolicy
import Provision.Fallible
import Provision.Proofs.Text.Trimming

/-!
A build policy is the union of its entries. Each entry asks for something of its own, whatever
stands before it: for nothing, for every package without a binary, for those that match a pattern,
or for packages to be built in any case. The rule that is kept for packages without a binary is
widened entry by entry; once it is for every package, later patterns are read and add nothing.
-/

namespace Provision

namespace ReferencePattern

variable {s : String} {p : ReferencePattern} {e : PatternError}

private theorem parse_eq_ok_iff :
    parse s = .ok p ↔ Glob.Pattern.parse (Text.trim s) = .ok p.glob := by
  unfold parse
  cases p
  split <;> simp_all

private theorem parse_eq_error_iff : parse s = .error e ↔
    ∃ reason, Glob.Pattern.parse (Text.trim s) = .error reason ∧ e = ⟨s, reason⟩ := by
  unfold parse
  cases Glob.Pattern.parse (Text.trim s) <;> simp [eq_comm]

end ReferencePattern

namespace MissingRule

private theorem allows_addPattern (rule : MissingRule) (p : ReferencePattern) (r : Reference) :
    (rule.addPattern p).allows r = (rule.allows r || p.isMatch r) := by
  cases rule with
  | never => simp [addPattern, allows]
  | every => rfl
  | matching patterns => simp [addPattern, allows]

private theorem addPattern_ne_matching_nil (rule : MissingRule) (p : ReferencePattern) :
    rule.addPattern p ≠ .matching [] := by
  cases rule <;> simp [addPattern]

/-! ### Rules as lists that may be missing

A rule can be kept as a list of patterns that may be missing. Then no list is for no package, and
the empty list is for every package. -/

def patterns? : MissingRule → Option (List ReferencePattern)
  | .never => none
  | .every => some []
  | .matching patterns => some patterns

def ofPatterns? : Option (List ReferencePattern) → MissingRule
  | none => .never
  | some [] => .every
  | some (p :: patterns) => .matching (p :: patterns)

theorem patterns?_ofPatterns? (list? : Option (List ReferencePattern)) :
    (ofPatterns? list?).patterns? = list? := by
  unfold ofPatterns?
  split <;> rfl

/-- A rule is its list, unless it matches nothing although it has a list. -/
theorem ofPatterns?_patterns? {rule : MissingRule} (h : rule ≠ .matching []) :
    ofPatterns? rule.patterns? = rule := by
  cases rule with
  | never => rfl
  | every => rfl
  | matching patterns =>
    cases patterns with
    | nil => exact absurd rfl h
    | cons p patterns => rfl

theorem allows_ofPatterns? (list? : Option (List ReferencePattern)) (r : Reference) :
    (ofPatterns? list?).allows r = list?.any fun list => list.isEmpty || list.any (·.isMatch r) := by
  unfold ofPatterns?
  split <;> simp [allows]

theorem addPattern_ofPatterns? (list? : Option (List ReferencePattern)) (p : ReferencePattern) :
    (ofPatterns? list?).addPattern p =
      ofPatterns? (some (list?.elim [p] fun list => if list.isEmpty then [] else list ++ [p])) := by
  unfold ofPatterns?
  split <;> simp [addPattern]

end MissingRule

namespace BuildPolicy

inductive Request
  | nothing
  | every
  | matching (pattern : String)
  | forced (pattern : String)

/-- What a trimmed entry asks for. -/
inductive Asks (s : String) : Request → Prop
  | nothing (h : s = "" ∨ s = "never") : Asks s .nothing
  | every (h : s = "missing") : Asks s .every
  | matching {p : String} (h : s = "missing:" ++ p) : Asks s (.matching p)
  | forced (hword : s ≠ "" ∧ s ≠ "never" ∧ s ≠ "missing") (hpattern : ∀ p, s ≠ "missing:" ++ p) :
      Asks s (.forced s)

/-- A text is a pattern, read without the blanks around it, for the written form of a reference or
for its bare name. -/
def Matches (p : String) (r : Reference) : Prop :=
  ∃ glob, Glob.Pattern.parse (Text.trim p) = .ok glob ∧
    (glob.isMatch r.text = true ∨ glob.isMatch r.name.text = true)

/-- An entry lets a package be built that has no binary. -/
inductive LetsBuild (entry : String) (r : Reference) : Prop
  | every (h : Asks (Text.trim entry) .every)
  | matching {p : String} (h : Asks (Text.trim entry) (.matching p)) (hmatches : Matches p r)

/-- An entry has a package built in any case. -/
inductive Forces (entry : String) (r : Reference) : Prop
  | forced {p : String} (h : Asks (Text.trim entry) (.forced p)) (hmatches : Matches p r)

/-- The pattern that an entry needs is malformed. -/
inductive Fault (entry : String) : PatternError → Prop
  | matching {p : String} {reason : Glob.SyntaxError} (h : Asks (Text.trim entry) (.matching p))
      (hmalformed : Glob.Pattern.parse (Text.trim p) = .error reason) : Fault entry ⟨p, reason⟩
  | forced {p : String} {reason : Glob.SyntaxError} (h : Asks (Text.trim entry) (.forced p))
      (hmalformed : Glob.Pattern.parse (Text.trim p) = .error reason) : Fault entry ⟨p, reason⟩

variable {policy policy' : BuildPolicy} {entry p s : String} {entries others : List String}
  {r : Reference} {e : PatternError} {request other : Request} {pattern : ReferencePattern}

private theorem matches_iff_isMatch (h : ReferencePattern.parse p = .ok pattern) :
    Matches p r ↔ pattern.isMatch r = true := by
  simp [Matches, ReferencePattern.parse_eq_ok_iff.mp h, ReferencePattern.isMatch]

/-! ### What an entry asks for -/

private theorem missing_append_ne (p : String) :
    "missing:" ++ p ≠ "" ∧ "missing:" ++ p ≠ "never" ∧ "missing:" ++ p ≠ "missing" := by
  simp [← String.toList_inj]

private theorem exists_asks (s : String) : ∃ request, Asks s request := by
  by_cases hnothing : s = "" ∨ s = "never"
  · exact ⟨_, .nothing hnothing⟩
  by_cases hmissing : s = "missing"
  · exact ⟨_, .every hmissing⟩
  by_cases hpattern : ∃ p, s = "missing:" ++ p
  · exact ⟨_, .matching hpattern.choose_spec⟩
  · obtain ⟨hempty, hnever⟩ := not_or.mp hnothing
    exact ⟨_, .forced ⟨hempty, hnever, hmissing⟩ (not_exists.mp hpattern)⟩

/-- A text asks for one thing. -/
theorem Asks.unique (h : Asks s request) (h' : Asks s other) : request = other := by
  have hne := missing_append_ne
  cases h <;> cases h' <;> simp_all

private theorem letsBuild_iff (h : Asks (Text.trim entry) request) : LetsBuild entry r ↔
    request = .every ∨ ∃ p, request = .matching p ∧ Matches p r := by
  constructor
  · rintro (hevery | ⟨hmatching, hmatches⟩)
    · exact .inl (h.unique hevery)
    · exact .inr ⟨_, h.unique hmatching, hmatches⟩
  · rintro (rfl | ⟨p, rfl, hmatches⟩)
    · exact .every h
    · exact .matching h hmatches

private theorem forces_iff (h : Asks (Text.trim entry) request) : Forces entry r ↔
    ∃ p, request = .forced p ∧ Matches p r := by
  constructor
  · rintro ⟨hforced, hmatches⟩
    exact ⟨_, h.unique hforced, hmatches⟩
  · rintro ⟨p, rfl, hmatches⟩
    exact .forced h hmatches

private theorem fault_iff (h : Asks (Text.trim entry) request) : Fault entry e ↔
    ∃ p reason, (request = .matching p ∨ request = .forced p) ∧
      Glob.Pattern.parse (Text.trim p) = .error reason ∧ e = ⟨p, reason⟩ := by
  constructor
  · rintro (⟨hmatching, hmalformed⟩ | ⟨hforced, hmalformed⟩)
    · exact ⟨_, _, .inl (h.unique hmatching), hmalformed, rfl⟩
    · exact ⟨_, _, .inr (h.unique hforced), hmalformed, rfl⟩
  · rintro ⟨p, reason, rfl | rfl, hmalformed, rfl⟩
    · exact .matching h hmalformed
    · exact .forced h hmalformed

/-! ### What an entry adds to a policy -/

private theorem addEntry_of_nothing (h : Asks (Text.trim entry) .nothing) :
    policy.addEntry entry = .ok policy := by
  cases h with
  | nothing h => exact if_pos h.symm

private theorem addEntry_of_every (h : Asks (Text.trim entry) .every) :
    policy.addEntry entry = .ok { policy with missing := .every } := by
  cases h with
  | every h => simp [addEntry, h]

private theorem addEntry_of_matching (h : Asks (Text.trim entry) (.matching p)) :
    policy.addEntry entry = ReferencePattern.parse p >>= fun pattern =>
      .ok { policy with missing := policy.missing.addPattern pattern } := by
  cases h with
  | matching h =>
    have hdrop : Text.dropStart "missing:" (Text.trim entry) = some p :=
      Text.dropStart_eq_some_iff.mpr h
    simp only [addEntry, hdrop]
    rw [if_neg, if_neg]
    · rfl
    · simp [h, missing_append_ne]
    · simp [h, missing_append_ne]

private theorem addEntry_of_forced (h : Asks (Text.trim entry) (.forced p)) :
    policy.addEntry entry = ReferencePattern.parse p >>= fun pattern =>
      .ok { policy with forced := policy.forced ++ [pattern] } := by
  cases h with
  | forced hword hpattern =>
    have hdrop : Text.dropStart "missing:" (Text.trim entry) = none :=
      Option.eq_none_iff_forall_ne_some.mpr fun p hp =>
        hpattern p (Text.dropStart_eq_some_iff.mp hp)
    simp only [addEntry, hdrop, hword, or_false, if_false]
    rfl

private theorem addEntry_eq_error_iff : policy.addEntry entry = .error e ↔ Fault entry e := by
  obtain ⟨request, hasks⟩ := exists_asks (Text.trim entry)
  rw [fault_iff hasks]
  cases request with
  | nothing => simp [addEntry_of_nothing hasks]
  | every => simp [addEntry_of_every hasks]
  | matching p =>
    rw [addEntry_of_matching hasks, bind_eq_error_iff]
    simp [ReferencePattern.parse_eq_error_iff]
  | forced p =>
    rw [addEntry_of_forced hasks, bind_eq_error_iff]
    simp [ReferencePattern.parse_eq_error_iff]

/-- What reading an entry makes of a policy. -/
theorem addEntry_cases (h : policy.addEntry entry = .ok policy') :
    (Asks (Text.trim entry) .nothing ∧ policy' = policy) ∨
    (Asks (Text.trim entry) .every ∧ policy' = { policy with missing := .every }) ∨
    (∃ p pattern, Asks (Text.trim entry) (.matching p) ∧ ReferencePattern.parse p = .ok pattern ∧
      policy' = { policy with missing := policy.missing.addPattern pattern }) ∨
    (∃ p pattern, Asks (Text.trim entry) (.forced p) ∧ ReferencePattern.parse p = .ok pattern ∧
      policy' = { policy with forced := policy.forced ++ [pattern] }) := by
  obtain ⟨request, hasks⟩ := exists_asks (Text.trim entry)
  cases request with
  | nothing =>
    rw [addEntry_of_nothing hasks] at h
    cases h
    exact .inl ⟨hasks, rfl⟩
  | every =>
    rw [addEntry_of_every hasks] at h
    cases h
    exact .inr (.inl ⟨hasks, rfl⟩)
  | matching p =>
    rw [addEntry_of_matching hasks, bind_eq_ok_iff] at h
    obtain ⟨pattern, hpattern, h⟩ := h
    cases h
    exact .inr (.inr (.inl ⟨p, pattern, hasks, hpattern, rfl⟩))
  | forced p =>
    rw [addEntry_of_forced hasks, bind_eq_ok_iff] at h
    obtain ⟨pattern, hpattern, h⟩ := h
    cases h
    exact .inr (.inr (.inr ⟨p, pattern, hasks, hpattern, rfl⟩))

private theorem buildsMissing_addEntry (h : policy.addEntry entry = .ok policy') :
    policy'.buildsMissing r = true ↔ policy.buildsMissing r = true ∨ LetsBuild entry r := by
  obtain ⟨hasks, rfl⟩ | ⟨hasks, rfl⟩ | ⟨p, pattern, hasks, hpattern, rfl⟩ |
    ⟨p, pattern, hasks, hpattern, rfl⟩ := addEntry_cases h
  · simp [letsBuild_iff hasks]
  · simp [letsBuild_iff hasks, buildsMissing, MissingRule.allows]
  · simp [letsBuild_iff hasks, buildsMissing, MissingRule.allows_addPattern,
      matches_iff_isMatch hpattern]
  · simp [letsBuild_iff hasks, buildsMissing]

private theorem isForced_addEntry (h : policy.addEntry entry = .ok policy') :
    policy'.isForced r = true ↔ policy.isForced r = true ∨ Forces entry r := by
  obtain ⟨hasks, rfl⟩ | ⟨hasks, rfl⟩ | ⟨p, pattern, hasks, hpattern, rfl⟩ |
    ⟨p, pattern, hasks, hpattern, rfl⟩ := addEntry_cases h
  · simp [forces_iff hasks]
  · simp [forces_iff hasks, isForced]
  · simp [forces_iff hasks, isForced]
  · simp [forces_iff hasks, isForced, matches_iff_isMatch hpattern, or_comm]

private theorem missing_ne_addEntry (h : policy.addEntry entry = .ok policy')
    (hne : policy.missing ≠ .matching []) : policy'.missing ≠ .matching [] := by
  obtain ⟨-, rfl⟩ | ⟨-, rfl⟩ | ⟨p, pattern, -, -, rfl⟩ | ⟨p, pattern, -, -, rfl⟩ :=
    addEntry_cases h
  · exact hne
  · simp
  · exact MissingRule.addPattern_ne_matching_nil _ _
  · exact hne

/-! ### What a list of entries comes to -/

/-- A policy is the union of its entries. -/
structure IsUnion (policy : BuildPolicy) (entries : List String) : Prop where
  buildsMissing : ∀ r, policy.buildsMissing r = true ↔ ∃ entry ∈ entries, LetsBuild entry r
  isForced : ∀ r, policy.isForced r = true ↔ ∃ entry ∈ entries, Forces entry r
  /-- Where patterns are listed there is at least one, so that an empty list would be free to stand
  for every package. -/
  missing_ne : policy.missing ≠ .matching []

/-- The rule of a policy that has been read is the one of its list. -/
theorem IsUnion.ofPatterns?_missing (h : policy.IsUnion entries) :
    .ofPatterns? policy.missing.patterns? = policy.missing :=
  MissingRule.ofPatterns?_patterns? h.missing_ne

/-- Two readings are alike: both fail, or both give a policy, and the policies let the same packages
be built and force the same ones. -/
inductive ReadAlike : Except PatternError BuildPolicy → Except PatternError BuildPolicy → Prop
  | failed {e e' : PatternError} : ReadAlike (.error e) (.error e')
  | read {policy policy' : BuildPolicy}
      (buildsMissing : ∀ r, policy.buildsMissing r = policy'.buildsMissing r)
      (isForced : ∀ r, policy.isForced r = policy'.isForced r) :
      ReadAlike (.ok policy) (.ok policy')

private theorem parse_eq_error_iff : parse entries = .error e ↔
    ∃ before entry after, entries = before ++ entry :: after ∧ Fault entry e ∧
      ∀ b ∈ before, ∀ e', ¬Fault b e' :=
  foldlM_eq_error_iff fun _ _ _ => addEntry_eq_error_iff

private theorem exists_parse_error_iff :
    (∃ e, parse entries = .error e) ↔ ∃ entry ∈ entries, ∃ e, Fault entry e :=
  exists_foldlM_error_iff fun _ _ _ => addEntry_eq_error_iff

private theorem exists_parse (hfaultless : ∀ entry ∈ entries, ∀ e, ¬Fault entry e) :
    ∃ policy, parse entries = .ok policy := by
  cases h : parse entries with
  | error e =>
    obtain ⟨entry, hentry, e', hfault⟩ := exists_parse_error_iff.mp ⟨e, h⟩
    exact absurd hfault (hfaultless entry hentry e')
  | ok policy => exact ⟨policy, rfl⟩

private theorem isUnion_of_parse (h : parse entries = .ok policy) : policy.IsUnion entries where
  buildsMissing r := by
    have hrun := holds_foldlM_iff (fun policy => policy.buildsMissing r = true)
      buildsMissing_addEntry h
    simpa [never, BuildPolicy.buildsMissing, MissingRule.allows] using hrun
  isForced r := by
    have hrun := holds_foldlM_iff (fun policy => policy.isForced r = true) isForced_addEntry h
    simpa [never, BuildPolicy.isForced] using hrun
  missing_ne := foldlM_preserves (fun policy => policy.missing ≠ .matching [])
    missing_ne_addEntry h (by simp [never])

/-- Policies of the same entries, in whatever order and however often, select alike. -/
theorem IsUnion.alike (h : policy.IsUnion entries) (h' : policy'.IsUnion others)
    (hsame : ∀ entry, entry ∈ others ↔ entry ∈ entries) :
    ReadAlike (.ok policy') (.ok policy) := by
  apply ReadAlike.read
  · intro r
    rw [Bool.eq_iff_iff, h'.buildsMissing, h.buildsMissing]
    simp only [hsame]
  · intro r
    rw [Bool.eq_iff_iff, h'.isForced, h.isForced]
    simp only [hsame]

/-- What reading the entries of a policy comes to. It fails exactly if some entry needs a pattern
that is malformed, and then with the first of them; otherwise it gives the union of the entries.
Neither whether it fails nor the union depends on the order of the entries, or on how often each of
them stands there. -/
structure ReadsAsUnion (entries : List String) : Prop where
  fails_iff : (∃ e, parse entries = .error e) ↔ ∃ entry ∈ entries, ∃ e, Fault entry e
  error_iff : ∀ e, parse entries = .error e ↔
    ∃ before entry after, entries = before ++ entry :: after ∧ Fault entry e ∧
      ∀ b ∈ before, ∀ e', ¬Fault b e'
  union : (∀ entry ∈ entries, ∀ e, ¬Fault entry e) →
    ∃ policy, parse entries = .ok policy ∧ policy.IsUnion entries
  unordered : ∀ others, (∀ entry, entry ∈ others ↔ entry ∈ entries) →
    ReadAlike (parse others) (parse entries)

/-- Any list of entries reads as their union, unless one of them is at fault. -/
theorem readsAsUnion (entries : List String) : ReadsAsUnion entries where
  fails_iff := exists_parse_error_iff
  error_iff e := parse_eq_error_iff
  union hfaultless := by
    obtain ⟨policy, h⟩ := exists_parse hfaultless
    exact ⟨policy, h, isUnion_of_parse h⟩
  unordered others hsame := by
    -- which fault comes first depends on the order, whether there is one does not
    have hfails : (∃ e, parse others = .error e) ↔ ∃ e, parse entries = .error e := by
      simp only [exists_parse_error_iff, hsame]
    cases h : parse entries with
    | error e =>
      obtain ⟨e', h'⟩ := hfails.mpr ⟨e, h⟩
      rw [h']
      exact .failed
    | ok policy =>
      cases h' : parse others with
      | error e' =>
        obtain ⟨e, he⟩ := hfails.mp ⟨e', h'⟩
        rw [h] at he
        cases he
      | ok policy' => exact (isUnion_of_parse h).alike (isUnion_of_parse h') hsame

/-- A plain `missing` takes in the patterns before it and after it, but they have to be patterns. -/
example :
    (parse ["missing:zlib/*", " missing ", "never", "missing:open*"]).toOption =
        some everyMissing ∧
      failure? (parse ["missing", "missing: [z", "[a"]) = some ⟨" [z", .brokenSet 0⟩ := by
  decide +kernel

end BuildPolicy

end Provision
