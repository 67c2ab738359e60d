import Provision.Proofs.Expansion.Parallel

/-!
How the requirements of a consumer are met. No edge leads back to the consumer, so that they never
close a cycle, and requirements of one name have nothing to do with those of another: the first that
asks for a name chooses its version, and the others have to accept it.
-/

namespace Provision

namespace Requirement

def asksFor (name : PackageName) (req : Requirement) : Bool :=
  !req.isOverride && req.name == name

def overrides (name : PackageName) (req : Requirement) : Bool :=
  req.isOverride && req.name == name

theorem asksFor_iff {name : PackageName} {req : Requirement} :
    req.asksFor name = true ↔ req.isOverride = false ∧ req.name = name := by
  simp [asksFor]

theorem name_eq_of_mem_asking {name : PackageName} {req : Requirement}
    {requirements : List Requirement} (h : req ∈ requirements.filter (·.asksFor name)) :
    req.name = name :=
  (asksFor_iff.mp (List.mem_filter.mp h).2).2

theorem overrides_iff {name : PackageName} {req : Requirement} :
    req.overrides name = true ↔ req.isOverride = true ∧ req.name = name := by
  simp [overrides]

end Requirement

namespace Expansion

variable {c : Catalog} {root : RootSpec} {pins : List Pin} {x y : Expansion} {i : Nat}
  {requester : Reference} {req : Requirement} {met left requirements : List Requirement}
  {name : PackageName} {pin : Pin} {chosen : Choice}

section Pins

/-- The pins when a list of requirements has been met. -/
def pinsAfterAll (requester : Reference) (pins : List Pin) (requirements : List Requirement) :
    List Pin :=
  requirements.foldl (pinsAfter requester) pins

theorem pinsAfterAll_append : pinsAfterAll requester pins (met ++ left) =
    pinsAfterAll requester (pinsAfterAll requester pins met) left :=
  List.foldl_append

theorem prefix_pinsAfterAll : pins <+: pinsAfterAll requester pins requirements := by
  induction requirements generalizing pins with
  | nil => exact List.prefix_refl pins
  | cons req requirements ih => exact prefix_pinsAfter.trans ih

theorem isPinned_pinsAfterAll : isPinned (pinsAfterAll requester pins requirements) name =
    (isPinned pins name || requirements.any (·.overrides name)) := by
  induction requirements generalizing pins with
  | nil => simp [pinsAfterAll]
  | cons req requirements ih =>
    have hstep : pinsAfterAll requester pins (req :: requirements) =
        pinsAfterAll requester (pinsAfter requester pins req) requirements := rfl
    rw [hstep, ih, isPinned_pinsAfter, List.any_cons, Bool.or_assoc]
    rfl

/-- Overrides of names that have pins change nothing. -/
theorem pinsAfterAll_of_isPinned (h : ∀ name, requirements.any (·.overrides name) = true →
    isPinned pins name = true) : pinsAfterAll requester pins requirements = pins := by
  induction requirements with
  | nil => rfl
  | cons req requirements ih =>
    have hkept : pinsAfter requester pins req = pins := by
      cases hkind : req.isOverride with
      | false => exact pinsAfter_of_plain hkind
      | true =>
        have hpinned : isPinned pins req.name = true := by
          apply h
          simp [Requirement.overrides, hkind]
        simp [pinsAfter, hpinned]
    rw [pinsAfterAll, List.foldl_cons, hkept]
    refine ih fun name hname => h name ?_
    rw [List.any_cons, hname, Bool.or_true]

theorem pinsAfterAll_of_plain (h : ∀ req ∈ requirements, req.isOverride = false) :
    pinsAfterAll requester pins requirements = pins := by
  refine pinsAfterAll_of_isPinned fun name hname => ?_
  obtain ⟨req, hreq, hoverrides⟩ := List.any_eq_true.mp hname
  have hplain := h req hreq
  rw [(Requirement.overrides_iff.mp hoverrides).1] at hplain
  cases hplain

theorem pinsAfterAll_overrides : pinsAfterAll requester pins (requirements.filter (·.isOverride)) =
    pinsAfterAll requester pins requirements := by
  induction requirements generalizing pins with
  | nil => rfl
  | cons req requirements ih =>
    cases hkind : req.isOverride with
    | true =>
      rw [List.filter_cons_of_pos hkind]
      exact ih
    | false =>
      rw [List.filter_cons_of_neg (by simp [hkind])]
      have hkept : pinsAfterAll requester pins (req :: requirements) =
          pinsAfterAll requester pins requirements := by
        rw [pinsAfterAll, List.foldl_cons, pinsAfter_of_plain hkind]
        rfl
      exact ih.trans hkept.symm

/-- A list of requirements that begins with some that have been met leaves the same pins as from
the start. -/
theorem pinsAfterAll_again : pinsAfterAll requester (pinsAfterAll requester pins met) (met ++ left) =
    pinsAfterAll requester pins (met ++ left) := by
  have hagain : pinsAfterAll requester (pinsAfterAll requester pins met) met =
      pinsAfterAll requester pins met := by
    refine pinsAfterAll_of_isPinned fun name hname => ?_
    rw [isPinned_pinsAfterAll, hname, Bool.or_true]
  rw [pinsAfterAll_append, pinsAfterAll_append, hagain]

end Pins

private theorem Met.prefix_choices (h : Met c i requester req x y) : x.choices <+: y.choices := by
  cases h with
  | repeated => exact List.prefix_refl _
  | pinned => exact List.prefix_refl _
  | joined => exact List.prefix_refl _
  | added => exact List.prefix_append _ _

theorem choices_prefix_of_meetAll
    (h : requirements.foldlM (Expansion.meet c i requester) x = .ok y) :
    x.choices <+: y.choices :=
  foldlM_preserves (fun z => x.choices <+: z.choices)
    (fun hmeet hz => hz.trans (met_of_meet hmeet).prefix_choices) h (List.prefix_refl _)

def ofConsumer (pins : List Pin) : Expansion :=
  ⟨.ofRoot (.new consumerReference none), [], pins, [], 0⟩

def meetConsumer (c : Catalog) (requirements : List Requirement) (pins : List Pin) :
    Except Interruption Expansion :=
  requirements.foldlM (meet c 0 consumerReference) (ofConsumer pins)

theorem expand_consumer : c.expand (.consumer requirements) pins =
    meetConsumer c requirements pins >>= run c (.consumer requirements) :=
  run_of_cons (x := { ofConsumer pins with queue := [0] }) rfl rfl

theorem underway_ofConsumer :
    Underway c (.consumer requirements) pins 0 [] requirements (ofConsumer pins) :=
  Underway.start (x := { ofConsumer pins with queue := [0] }) (n := .new consumerReference none) rfl
    rfl

theorem underway_of_meetConsumer (h : meetConsumer c requirements pins = .ok y) :
    Underway c (.consumer requirements) pins 0 requirements [] y :=
  underway_ofConsumer.foldlM_ok (n := .new consumerReference none) rfl h

theorem Underway.node_zero (h : Underway c (.consumer requirements) pins i met left x) :
    x.graph.nodes[0]? = some (.new consumerReference none) := by
  obtain ⟨n, hn⟩ := Graph.exists_getElem?_of_lt_size (Nat.zero_lt_of_lt h.queue_eq.1)
  cases h.entered 0 n hn with
  | consumer => exact hn
  | dependency hi => cases hi

theorem Underway.requirements_eq (h : Underway c (.consumer requirements) pins 0 met left x) :
    requirements = met ++ left := by
  obtain ⟨n, hn, hreqs⟩ := h.exists_node
  obtain rfl := Option.some.inj (h.node_zero.symm.trans hn)
  exact hreqs

/-- If not all requirements of a consumer can be met, the expansion gets to the first that cannot. -/
theorem exists_underway_of_error {e : Interruption}
    (h : meetConsumer c requirements pins = .error e) :
    ∃ met req left x, Underway c (.consumer requirements) pins 0 met (req :: left) x ∧
      meet c 0 consumerReference x req = .error e := by
  obtain ⟨met, req, left, x, hunderway, -, hmeet⟩ :=
    underway_ofConsumer.foldlM_error (n := .new consumerReference none) rfl h
  exact ⟨met, req, left, x, hunderway, hmeet⟩

/-- What holds of a consumer with no requirement met, and is kept as they are met, holds of the
consumer throughout. -/
theorem Underway.induction_consumer {P : List Requirement → Expansion → Prop}
    (hstart : P [] (ofConsumer pins))
    (hmeet : ∀ {met left req x y}, Underway c (.consumer requirements) pins 0 met (req :: left) x →
      Met c 0 consumerReference req x y → P met x → P (met ++ [req]) y)
    (h : Underway c (.consumer requirements) pins 0 met left x) : P met x := by
  generalize hi : 0 = i at h
  induction h with
  | start hinit hnode =>
    cases hinit
    exact hstart
  | meet h hnode hmet ih =>
    subst hi
    obtain rfl := Option.some.inj (h.node_zero.symm.trans hnode)
    exact hmeet h hmet (ih rfl)
  | next h hqueue hnode ih =>
    have hpos := h.head_queue hqueue
    omega

section Phase

variable (h : Underway c (.consumer requirements) pins 0 met left x)

include h

theorem Underway.pins_consumer : x.pins = pinsAfterAll consumerReference pins met := by
  apply h.induction_consumer (P := fun met x => x.pins = pinsAfterAll consumerReference pins met)
  · rfl
  · intro met left req x y _ hmet ih
    rw [hmet.pins_eq, ih, pinsAfterAll_append]
    rfl

/-- The consumer itself is nobody's choice. -/
theorem Underway.node_pos (hchosen : x.choice? name = some chosen) : 0 < chosen.node := by
  obtain ⟨n, hn, hpackage, -⟩ := h.isPackage_choice hchosen
  refine Nat.pos_of_ne_zero fun hzero => ?_
  rw [hzero, h.node_zero] at hn
  cases hn
  cases hpackage

private theorem Underway.target_ne_zero : ∀ e ∈ x.graph.edges, e.target ≠ 0 := by
  apply h.induction_consumer (P := fun _ x => ∀ e ∈ x.graph.edges, e.target ≠ 0)
  · intro e he
    cases he
  · intro met left req x y hx hmet ih
    cases hmet with
    | repeated => exact ih
    | pinned => exact ih
    | joined chosen hplain hchosen =>
      intro e he
      rcases List.mem_append.mp he with he | he
      · exact ih e he
      · rw [List.mem_singleton.mp he]
        exact Nat.ne_of_gt (hx.node_pos hchosen)
    | added =>
      intro e he
      have hlt := hx.queue_eq.1
      rcases List.mem_append.mp he with he | he
      · exact ih e he
      · rw [List.mem_singleton.mp he]
        exact Nat.ne_of_gt hlt

/-- A requirement of the consumer closes no cycle. -/
theorem Underway.path?_consumer (hchosen : x.choice? name = some chosen) :
    x.graph.path? chosen.node 0 = none :=
  Graph.path?_eq_none h.target_ne_zero (Nat.ne_of_gt (h.node_pos hchosen))

/-- A name has a choice when a requirement that asks for it is met. -/
theorem Underway.choice?_eq_none_iff :
    x.choice? name = none ↔ met.filter (·.asksFor name) = [] := by
  apply h.induction_consumer
    (P := fun met x => x.choice? name = none ↔ met.filter (·.asksFor name) = [])
  · simp [ofConsumer, choice?]
  · intro met left req x y hx hmet ih
    rw [List.filter_append, List.append_eq_nil_iff, ← ih]
    cases hmet with
    | repeated pin hoverride => simp [Requirement.asksFor, hoverride]
    | pinned hoverride => simp [choice?, Requirement.asksFor, hoverride]
    | joined chosen hplain hchosen =>
      have hother : x.choice? name = none → req.name ≠ name := by
        rintro hnone rfl
        rw [hnone] at hchosen
        cases hchosen
      simpa [choice?, Requirement.asksFor, hplain] using hother
    | added version recipe hplain hfree =>
      simp [choice?, Requirement.asksFor, hplain]

end Phase

private theorem Met.isSatisfied_of_choice?
    (h : Met c i requester req x y) (hplain : req.isOverride = false)
    (hchosen : x.choice? req.name = some chosen) :
    (x.constraintFor req).isSatisfied chosen.version = true := by
  cases h with
  | repeated _ hoverride => exact absurd hplain (by simp [hoverride])
  | pinned hoverride => exact absurd hplain (by simp [hoverride])
  | joined other _ hother hfits =>
    obtain rfl := Option.some.inj (hother.symm.trans hchosen)
    exact hfits
  | added version recipe _ hfree =>
    rw [hfree] at hchosen
    cases hchosen

/-- Only a requirement that asks for a name gives it a choice. -/
theorem Met.choose_of_fresh (h : Met c i requester req x y) (hfree : x.choice? name = none)
    (hchosen : y.choice? name = some chosen) :
    req.asksFor name = true ∧
      ∃ recipe, c.choose name (x.constraintFor req) requester = .ok (chosen.version, recipe) := by
  cases h with
  | repeated =>
    rw [hfree] at hchosen
    cases hchosen
  | pinned =>
    have hold : x.choice? name = some chosen := hchosen
    rw [hfree] at hold
    cases hold
  | joined =>
    have hold : x.choice? name = some chosen := hchosen
    rw [hfree] at hold
    cases hold
  | added version recipe hplain _ hchoose =>
    simp only [choice?, List.find?_append, Option.or_eq_some_iff, List.find?_singleton] at hchosen
    rcases hchosen with hold | ⟨-, hnew⟩
    · have hold : x.choice? name = some chosen := hold
      rw [hfree] at hold
      cases hold
    · split at hnew
      · rename_i hname
        cases hnew
        obtain rfl := beq_iff_eq.mp hname
        exact ⟨Requirement.asksFor_iff.mpr ⟨hplain, rfl⟩, recipe, hchoose⟩
      · cases hnew

/-- A pin that is there at two moments, or at neither, is the same in between. -/
theorem pin?_eq_of_prefix (hfirst : pins <+: x.pins) (hlast : x.pins <+: y.pins)
    (hpin : y.pin? name = pins.find? (·.name == name)) :
    x.pin? name = pins.find? (·.name == name) := by
  cases hfound : pins.find? (·.name == name) with
  | some pin => exact hfirst.find?_eq_some hfound
  | none => exact hlast.find?_eq_none (hpin.trans hfound)

theorem constraintFor_congr (hpin : x.pin? req.name = y.pin? req.name) :
    x.constraintFor req = y.constraintFor req := by
  rw [constraintFor, constraintFor, hpin]

/-- Of a list of requirements that ask for a name, the first chooses a version and the others accept
it, each under some constraint. -/
def Settles (c : Catalog) (constraintOf : Requirement → Constraint) (name : PackageName)
    (asking : List Requirement) (v : Version) : Prop :=
  ∃ first later recipe, asking = first :: later ∧
    c.choose name (constraintOf first) consumerReference = .ok (v, recipe) ∧
    ∀ r ∈ later, (constraintOf r).isSatisfied v = true

/-- The choice for a name settles the requirements that have asked for it, if the name has had the
same pin throughout. -/
theorem Underway.settles (h : Underway c (.consumer requirements) pins 0 met left x)
    (hpin : x.pin? name = pins.find? (·.name == name)) (hchosen : x.choice? name = some chosen) :
    Settles c x.constraintFor name (met.filter (·.asksFor name)) chosen.version := by
  revert hpin hchosen chosen
  apply h.induction_consumer (P := fun met x => ∀ chosen, x.pin? name = pins.find? (·.name == name) →
    x.choice? name = some chosen →
      Settles c x.constraintFor name (met.filter (·.asksFor name)) chosen.version)
  · intro chosen _ hchosen
    cases hchosen
  · intro met left req x y hx hmet ih chosen hpin hchosen
    have hbefore : x.pin? name = pins.find? (·.name == name) :=
      pin?_eq_of_prefix hx.pins_prefix (hmet.pins_eq ▸ prefix_pinsAfter) hpin
    have hsame : ∀ r : Requirement, r.name = name → y.constraintFor r = x.constraintFor r := by
      rintro r rfl
      exact constraintFor_congr (hpin.trans hbefore.symm)
    cases hold : x.choice? name with
    | none =>
      obtain ⟨hasks, recipe, hchoose⟩ := hmet.choose_of_fresh hold hchosen
      refine ⟨req, [], recipe, ?_, ?_, by simp⟩
      · rw [List.filter_append, hx.choice?_eq_none_iff.mp hold]
        simp [hasks]
      · rwa [hsame req (Requirement.asksFor_iff.mp hasks).2]
    | some old =>
      obtain rfl := Option.some.inj ((hmet.choice?_eq hold).symm.trans hchosen)
      obtain ⟨first, later, recipe, hfirst, hchoose, hlater⟩ := ih old hbefore hold
      have hname : ∀ r ∈ first :: later, r.name = name := by
        intro r hr
        rw [← hfirst] at hr
        exact Requirement.name_eq_of_mem_asking hr
      refine ⟨first, later ++ [req].filter (·.asksFor name), recipe, ?_, ?_, fun r hr => ?_⟩
      · rw [List.filter_append, hfirst, List.cons_append]
      · rwa [hsame first (hname first List.mem_cons_self)]
      · rcases List.mem_append.mp hr with hr | hr
        · rw [hsame r (hname r (List.mem_cons_of_mem _ hr))]
          exact hlater r hr
        · obtain ⟨hreq, hasks⟩ := List.mem_filter.mp hr
          obtain rfl := List.mem_singleton.mp hreq
          obtain ⟨hplain, rfl⟩ := Requirement.asksFor_iff.mp hasks
          rw [hsame r rfl]
          exact hmet.isSatisfied_of_choice? hplain hold

end Expansion

end Provision
