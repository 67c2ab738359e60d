import Provision.Proofs.Expansion.Consumer

/-!
A consumer whose overrides stand first, next to one that lists them anywhere. With all overrides
first, every pin stands before a version is chosen. In another order a requirement can ask for a
name ahead of its override. When its version satisfies the override it stays, which makes no
difference if the override would choose it too. When the requirements that ask ahead can be met, the
consumer gets as far as the override.
-/

namespace Provision

namespace Expansion

variable {c : Catalog} {pins next : List Pin} {x y w : Expansion} {req : Requirement}
  {met left requirements : List Requirement} {name : PackageName} {pin : Pin} {chosen : Choice}

def overridesFirst (requirements : List Requirement) : List Requirement :=
  requirements.filter (·.isOverride) ++ requirements.filter (!·.isOverride)

/-- The requirements that ask for a name ahead of its overrides. -/
def askingAhead (name : PackageName) (requirements : List Requirement) : List Requirement :=
  (requirements.takeWhile (!·.overrides name)).filter (·.asksFor name)

/-- An override that accepts the version that is chosen ahead of it would choose that version. -/
def OverridesChoose (c : Catalog) (requirements : List Requirement) : Prop :=
  ∀ req ∈ requirements, req.isOverride = true →
    ∀ first, (askingAhead req.name requirements).head? = some first →
      ∀ v, c.chooseVersion req.name first.constraint consumerReference = .ok v →
        req.constraint.isSatisfied v = true →
          c.chooseVersion req.name req.constraint consumerReference = .ok v

/-- What asks for a name ahead of its override can be met without the override. -/
def AheadSettled (c : Catalog) (requirements : List Requirement) : Prop :=
  ∀ req ∈ requirements, req.isOverride = true → askingAhead req.name requirements ≠ [] →
    ∃ v, Settles c (·.constraint) req.name (askingAhead req.name requirements) v

/-- Pins hold what all overrides of a list ask for. -/
def PinsAgree (pins : List Pin) (requirements : List Requirement) : Prop :=
  ∀ req ∈ requirements, req.isOverride = true →
    ∃ pin, pins.find? (·.name == req.name) = some pin ∧ pin.constraint = req.constraint

section Lists

private theorem mem_plain (h : req ∈ requirements.filter (!·.isOverride)) :
    req.isOverride = false := by
  simpa using (List.mem_filter.mp h).2

private theorem filter_asksFor_plain :
    (requirements.filter (!·.isOverride)).filter (·.asksFor name) =
    requirements.filter (·.asksFor name) := by
  rw [List.filter_filter]
  congr 1
  funext req
  cases hkind : req.isOverride <;> simp [Requirement.asksFor, hkind]

private theorem askingAhead_append
    (left : List Requirement) (hmet : met.any (·.overrides name) = false)
    (hplain : req.isOverride = false) (hname : req.name = name) :
    ∃ later, askingAhead name (met ++ req :: left) = met.filter (·.asksFor name) ++ req :: later := by
  refine ⟨(left.takeWhile (!·.overrides name)).filter (·.asksFor name), ?_⟩
  rw [askingAhead, List.takeWhile_append_of_pos, List.takeWhile_cons_of_pos, List.filter_append,
    List.filter_cons_of_pos]
  · exact Requirement.asksFor_iff.mpr ⟨hplain, hname⟩
  · simp [Requirement.overrides, hplain]
  · intro r hr
    simpa using List.any_eq_false.mp hmet r hr

end Lists

section OverridesFirst

/-- An override that agrees with the pin of its name is in conflict with nothing. -/
theorem registerPin_ne_failed {requester : Reference} {e : GraphError}
    (hagrees : ∀ pin, x.pin? req.name = some pin → pin.constraint = req.constraint) :
    x.registerPin requester req ≠ .error (.failed e) := by
  unfold registerPin
  cases hpin : x.pin? req.name with
  | some pin => simp [hagrees pin hpin]
  | none =>
    cases hchosen : x.choice? req.name with
    | some chosen =>
      dsimp only
      split <;> simp
    | none => simp

/-- Where nothing has been chosen, such an override leaves its pin and nothing else. -/
theorem meet_ofConsumer (hoverride : req.isOverride = true)
    (hagrees : ∀ pin, pins.find? (·.name == req.name) = some pin → pin.constraint = req.constraint) :
    meet c 0 consumerReference (ofConsumer pins) req =
      .ok (ofConsumer (pinsAfter consumerReference pins req)) := by
  cases hmeet : meet c 0 consumerReference (ofConsumer pins) req with
  | ok y =>
    have hmet := met_of_meet hmeet
    rw [← show y.pins = pinsAfter consumerReference pins req from hmet.pins_eq]
    cases hmet with
    | repeated => rfl
    | pinned => rfl
    | joined _ hplain => exact absurd hoverride (by simp [hplain])
    | added _ _ hplain => exact absurd hoverride (by simp [hplain])
  | error e =>
    cases e with
    | restart next =>
      obtain ⟨-, -, ⟨chosen, hchosen, -⟩, -⟩ := restart_of_meet hmeet
      cases hchosen
    | failed e =>
      rw [meet_of_override hoverride] at hmeet
      exact absurd hmeet (registerPin_ne_failed hagrees)

private theorem meetConsumer_overrides {overrides : List Requirement}
    (hoverrides : ∀ req ∈ overrides, req.isOverride = true)
    (hagree : PinsAgree (pinsAfterAll consumerReference pins overrides) overrides) :
    meetConsumer c overrides pins =
      .ok (ofConsumer (pinsAfterAll consumerReference pins overrides)) := by
  unfold meetConsumer
  induction overrides generalizing pins with
  | nil => rfl
  | cons req overrides ih =>
    obtain ⟨hoverride, hrest⟩ := List.forall_mem_cons.mp hoverrides
    have hmeet : meet c 0 consumerReference (ofConsumer pins) req =
        .ok (ofConsumer (pinsAfter consumerReference pins req)) := by
      refine meet_ofConsumer hoverride fun pin hpin => ?_
      obtain ⟨last, hlast, hsame⟩ := hagree req List.mem_cons_self hoverride
      have hprefix : pins <+: pinsAfterAll consumerReference pins (req :: overrides) :=
        prefix_pinsAfterAll
      have hkept := hprefix.find?_eq_some hpin
      obtain rfl := Option.some.inj (hkept.symm.trans hlast)
      exact hsame
    rw [List.foldlM_cons, hmeet]
    exact ih hrest fun r hr => hagree r (List.mem_cons_of_mem req hr)

private theorem pinsAgree_of_meetConsumer (h : meetConsumer c requirements pins = .ok y) :
    y.pins = pinsAfterAll consumerReference pins requirements ∧ PinsAgree y.pins requirements := by
  have hunderway := underway_of_meetConsumer h
  refine ⟨hunderway.pins_consumer, fun req hreq hoverride => ?_⟩
  refine hunderway.pin?_of_override 0 _ hunderway.node_zero req ?_ hoverride
  rwa [metOf, if_neg (Nat.lt_irrefl 0), if_pos rfl]

/-- A consumer without choices is not restarted. -/
theorem meetConsumer_ne_restart {requirements : List Requirement}
    (hkind : (∀ req ∈ requirements, req.isOverride = true) ∨
      ∀ req ∈ requirements, req.isOverride = false) :
    meetConsumer c requirements pins ≠ .error (.restart next) := by
  intro h
  obtain ⟨met, req, left, x, hunderway, hmeet⟩ := exists_underway_of_error h
  have hreqs := hunderway.requirements_eq
  obtain ⟨hoverride, -, ⟨chosen, hchosen, -⟩, -⟩ := restart_of_meet hmeet
  rcases hkind with hoverrides | hplain
  · have hnone : x.choice? req.name = none := by
      refine hunderway.choice?_eq_none_iff.mpr (List.filter_eq_nil_iff.mpr fun r hr => ?_)
      simp [Requirement.asksFor, hoverrides r (hreqs ▸ List.mem_append_left _ hr)]
    rw [hnone] at hchosen
    cases hchosen
  · rw [hplain req (by simp [hreqs])] at hoverride
    cases hoverride

/-- With the overrides first, the other requirements are met under all the pins. -/
theorem meetConsumer_overridesFirst
    (hagree : PinsAgree (pinsAfterAll consumerReference pins requirements) requirements) :
    meetConsumer c (overridesFirst requirements) pins =
      meetConsumer c (requirements.filter (!·.isOverride))
        (pinsAfterAll consumerReference pins requirements) := by
  have hoverrides : meetConsumer c (requirements.filter (·.isOverride)) pins =
      .ok (ofConsumer (pinsAfterAll consumerReference pins requirements)) := by
    rw [meetConsumer_overrides, pinsAfterAll_overrides]
    · simp
    · rw [pinsAfterAll_overrides]
      exact fun req hreq => hagree req (List.mem_filter.mp hreq).1
  rw [meetConsumer, overridesFirst, List.foldlM_append]
  rw [meetConsumer] at hoverrides
  rw [hoverrides]
  rfl

/-- Overrides that do not agree are in conflict. -/
theorem exists_failed_overridesFirst
    (hdisagree : ¬PinsAgree (pinsAfterAll consumerReference pins requirements) requirements) :
    ∃ e, meetConsumer c (overridesFirst requirements) pins = .error (.failed e) := by
  have hfirst : meetConsumer c (overridesFirst requirements) pins =
      meetConsumer c (requirements.filter (·.isOverride)) pins >>= fun x =>
        (requirements.filter (!·.isOverride)).foldlM (meet c 0 consumerReference) x :=
    List.foldlM_append
  cases hoverrides : meetConsumer c (requirements.filter (·.isOverride)) pins with
  | ok y =>
    obtain ⟨hpins, hagree⟩ := pinsAgree_of_meetConsumer hoverrides
    refine absurd (fun req hreq hoverride => ?_) hdisagree
    rw [hpins, pinsAfterAll_overrides] at hagree
    exact hagree req (List.mem_filter.mpr ⟨hreq, hoverride⟩) hoverride
  | error e =>
    cases e with
    | restart next => exact absurd hoverrides (meetConsumer_ne_restart (.inl (by simp)))
    | failed e =>
      rw [hfirst, hoverrides]
      exact ⟨e, rfl⟩

end OverridesFirst

section Completed

/-- An override that is met changes nothing of what is chosen. -/
theorem Met.alike_of_override {i : Nat} {requester : Reference} (h : Met c i requester req x y)
    (hoverride : req.isOverride = true) (hw : Alike x w) : Alike y w := by
  cases h with
  | repeated => exact hw
  | pinned => exact ⟨hw.graph, hw.taken_eq, hw.queue_eq⟩
  | joined _ hplain => exact absurd hoverride (by simp [hplain])
  | added _ _ hplain => exact absurd hoverride (by simp [hplain])

private theorem find?_isSome : (pins.find? (·.name == name)).isSome = isPinned pins name :=
  (isPinned_of_pin? (x := ofConsumer pins)).symm

/-- As long as a name has no pin, it had none from the start and no override of it has been met. -/
theorem Underway.unpinned (h : Underway c (.consumer requirements) pins 0 met left x)
    (hfree : x.pin? name = none) :
    isPinned pins name = false ∧ met.any (·.overrides name) = false := by
  have hnone := isPinned_eq_false_of_pin? hfree
  rwa [h.pins_consumer, isPinned_pinsAfterAll, Bool.or_eq_false_iff] at hnone

/-- A pin that is still to come is that of an override. -/
theorem Underway.exists_override (h : Underway c (.consumer requirements) pins 0 met left x)
    (hagree : PinsAgree (pinsAfterAll consumerReference pins requirements) requirements)
    (hfree : x.pin? name = none)
    (hpin : (pinsAfterAll consumerReference pins requirements).find? (·.name == name) = some pin) :
    ∃ o ∈ requirements, o.isOverride = true ∧ o.name = name ∧ o.constraint = pin.constraint := by
  have hpinned : isPinned (pinsAfterAll consumerReference pins requirements) name = true := by
    rw [← find?_isSome, hpin]
    rfl
  rw [isPinned_pinsAfterAll, (h.unpinned hfree).1, Bool.false_or] at hpinned
  obtain ⟨o, ho, hoverrides⟩ := List.any_eq_true.mp hpinned
  obtain ⟨hoverride, rfl⟩ := Requirement.overrides_iff.mp hoverrides
  obtain ⟨last, hlast, hsame⟩ := hagree o ho hoverride
  obtain rfl := Option.some.inj (hpin.symm.trans hlast)
  exact ⟨o, ho, hoverride, rfl, hsame.symm⟩

/-- All pins of a consumer are those of its whole list. -/
theorem Underway.pins_prefix_all (h : Underway c (.consumer requirements) pins 0 met left x) :
    x.pins <+: pinsAfterAll consumerReference pins requirements := by
  rw [h.pins_consumer, h.requirements_eq, pinsAfterAll_append]
  exact prefix_pinsAfterAll

/-- A version that is chosen ahead of an override, and that the override accepts, is what it would
choose. -/
theorem choose_of_ahead (hchoose : OverridesChoose c requirements)
    (hx : Underway c (.consumer requirements) pins 0 met (req :: left) x)
    (hagree : PinsAgree (pinsAfterAll consumerReference pins requirements) requirements)
    (hplain : req.isOverride = false) (hfree : x.choice? req.name = none)
    (hunpinned : x.pin? req.name = none)
    (hpin : (pinsAfterAll consumerReference pins requirements).find? (·.name == req.name) = some pin)
    {version : Version} {recipe : Recipe}
    (hfound : c.choose req.name req.constraint consumerReference = .ok (version, recipe))
    (hfits : pin.constraint.isSatisfied version = true) :
    c.choose req.name pin.constraint consumerReference = .ok (version, recipe) := by
  obtain ⟨o, ho, hoverride, hname, hconstraint⟩ := hx.exists_override hagree hunpinned hpin
  obtain ⟨hversion, hrecipe⟩ := Catalog.choose_eq_ok hfound
  obtain ⟨later, hahead⟩ := askingAhead_append left (hx.unpinned hunpinned).2 hplain rfl
  rw [hx.choice?_eq_none_iff.mp hfree, List.nil_append] at hahead
  have hfirst : (askingAhead o.name requirements).head? = some req := by
    rw [hname, hx.requirements_eq, hahead, List.head?_cons]
  have hsame := hchoose o ho hoverride req hfirst version (hname ▸ hversion) (hconstraint ▸ hfits)
  rw [hname, hconstraint] at hsame
  simp [Catalog.choose, hsame, hrecipe, bind, Except.bind, pure, Except.pure]

section End

variable {z : Expansion} (hend : meetConsumer c requirements pins = .ok z)
  (hx : Underway c (.consumer requirements) pins 0 met (req :: left) x)

include hend

/-- What has been chosen satisfies the pins that stand in the end. -/
theorem isSatisfied_of_end (hchosen : z.choice? name = some chosen) (hpin : z.pin? name = some pin) :
    pin.constraint.isSatisfied chosen.version = true := by
  have hz := underway_of_meetConsumer hend
  exact hz.isSatisfied_of_pin? hchosen hpin (.inl (hz.node_pos hchosen))

include hx

private theorem pins_prefix_of_end : x.pins <+: z.pins := by
  rw [(pinsAgree_of_meetConsumer hend).1]
  exact hx.pins_prefix_all

private theorem constraintFor_isSatisfied_of_end (hchosen : z.choice? req.name = some chosen)
    (hfits : (x.constraintFor req).isSatisfied chosen.version = true) :
    (z.constraintFor req).isSatisfied chosen.version = true := by
  cases hpin : z.pin? req.name with
  | some pin =>
    have hbound := isSatisfied_of_end hend hchosen hpin
    simpa [constraintFor, hpin] using hbound
  | none =>
    have hnone : x.pin? req.name = none := (pins_prefix_of_end hend hx).find?_eq_none hpin
    rwa [constraintFor_congr (hpin.trans hnone.symm)]

/-- What is chosen under the pins that stand by now is what the pins in the end would choose. -/
theorem choose_of_end (hchoose : OverridesChoose c requirements) (hplain : req.isOverride = false)
    (hfree : x.choice? req.name = none) (hchosen : z.choice? req.name = some chosen)
    {recipe : Recipe} (hfound : c.choose req.name (x.constraintFor req) consumerReference =
      .ok (chosen.version, recipe)) :
    c.choose req.name (z.constraintFor req) consumerReference = .ok (chosen.version, recipe) := by
  have hprefix := pins_prefix_of_end hend hx
  cases hpin : z.pin? req.name with
  | none =>
    have hnone : x.pin? req.name = none := hprefix.find?_eq_none hpin
    rwa [constraintFor_congr (hpin.trans hnone.symm)]
  | some pin =>
    cases hold : x.pin? req.name with
    | some old =>
      have hkept : z.pin? req.name = some old := hprefix.find?_eq_some hold
      rwa [constraintFor_congr (hkept.trans hold.symm)]
    | none =>
      obtain ⟨hzpins, hagree⟩ := pinsAgree_of_meetConsumer hend
      have hown : x.constraintFor req = req.constraint := by simp [constraintFor, hold]
      have hlast : z.constraintFor req = pin.constraint := by simp [constraintFor, hpin]
      rw [hown] at hfound
      rw [hlast]
      have hfits := isSatisfied_of_end hend hchosen hpin
      rw [hzpins] at hagree
      rw [pin?, hzpins] at hpin
      exact choose_of_ahead hchoose hx hagree hplain hfree hold hpin hfound hfits

/-- A requirement of a consumer that is met ahead of some overrides is met in the same way when their
pins are there already. -/
theorem exists_alike_of_met (hchoose : OverridesChoose c requirements)
    (hmet : Met c 0 consumerReference req x y) (hchoices : y.choices <+: z.choices) (hw : Alike x w)
    (hwpins : w.pins = z.pins) (hplain : req.isOverride = false) :
    ∃ w', meet c 0 consumerReference w req = .ok w' ∧ Alike y w' ∧ w'.pins = z.pins := by
  have hconstraint : w.constraintFor req = z.constraintFor req := by
    apply constraintFor_congr
    rw [pin?, pin?, hwpins]
  cases hmet with
  | repeated _ hoverride => exact absurd hplain (by simp [hoverride])
  | pinned hoverride => exact absurd hplain (by simp [hoverride])
  | joined chosen _ hchosen hsatisfied hpath =>
    obtain ⟨other, hother, hversion, hnode⟩ := hw.exists_choice? hchosen
    have hstill : (w.constraintFor req).isSatisfied other.version = true := by
      have hkept : z.choice? req.name = some chosen := hchoices.find?_eq_some hchosen
      rw [hconstraint, hversion]
      exact constraintFor_isSatisfied_of_end hend hx hkept hsatisfied
    have hopen : w.graph.path? other.node 0 = none := by
      rw [hnode, ← hw.graph.path?_eq]
      exact hpath
    refine ⟨{ w with
      graph := w.graph.addEdge (w.edgeFor 0 req other.node)
      position := w.position + 1 }, ?_, hw.addEdge (by rfl) hnode.symm _ _, hwpins⟩
    rw [meet_of_chosen hplain hother]
    simp [joinChoice, hstill, hopen, edgeFor]
  | added version recipe _ hfree hfound =>
    have hchosen : z.choice? req.name =
        some ⟨req.name, version, x.graph.size, consumerReference, x.constraintFor req⟩ := by
      refine hchoices.find?_eq_some ?_
      have hnew : x.choices.find? (·.name == req.name) = none := hfree
      simp [List.find?_append, hnew]
    have hsame := choose_of_end hend hx hchoose hplain hfree hchosen hfound
    rw [← hconstraint] at hsame
    refine ⟨_, meet_of_found hplain (hw.choice?_eq_none hfree) hsame, ?_, hwpins⟩
    exact hw.addChoice (x.constraintFor req) (w.constraintFor req) version recipe

end End

private theorem exists_alike_of_meetAll (hchoose : OverridesChoose c requirements) {z : Expansion}
    (hend : meetConsumer c requirements pins = .ok z)
    (hx : Underway c (.consumer requirements) pins 0 met left x)
    (hleft : left.foldlM (meet c 0 consumerReference) x = .ok z) (hw : Alike x w)
    (hwpins : w.pins = z.pins) :
    ∃ w', (left.filter (!·.isOverride)).foldlM (meet c 0 consumerReference) w = .ok w' ∧
      Alike z w' ∧ w'.pins = z.pins := by
  induction left generalizing met x w with
  | nil =>
    cases hleft
    exact ⟨w, rfl, hw, hwpins⟩
  | cons req left ih =>
    rw [List.foldlM_cons, bind_eq_ok_iff] at hleft
    obtain ⟨y, hmeet, hleft⟩ := hleft
    have hmet := met_of_meet hmeet
    have hy := Underway.meet hx hx.node_zero hmet
    cases hkind : req.isOverride with
    | true =>
      rw [List.filter_cons_of_neg (by simp [hkind])]
      exact ih hy hleft (hmet.alike_of_override hkind hw) hwpins
    | false =>
      have hchoices := choices_prefix_of_meetAll hleft
      obtain ⟨w', hmeet', hw', hwpins'⟩ :=
        exists_alike_of_met hend hx hchoose hmet hchoices hw hwpins hkind
      rw [List.filter_cons_of_pos (by simp [hkind]), List.foldlM_cons, hmeet']
      exact ih hy hleft hw' hwpins'

/-- A consumer that meets its requirements in the order of the list meets them with the overrides
first as well, and chooses the same. -/
theorem exists_alike_of_meetConsumer (hchoose : OverridesChoose c requirements)
    (h : meetConsumer c requirements pins = .ok x) :
    ∃ w, meetConsumer c (overridesFirst requirements) pins = .ok w ∧ Alike x w ∧
      x.pins = w.pins := by
  obtain ⟨hpins, hagree⟩ := pinsAgree_of_meetConsumer h
  have hstart : Alike (ofConsumer pins) (ofConsumer x.pins) := ⟨.refl _, rfl, rfl⟩
  obtain ⟨w, hmeet, hw, hwpins⟩ :=
    exists_alike_of_meetAll hchoose h underway_ofConsumer h hstart rfl
  rw [hpins] at hagree
  refine ⟨w, ?_, hw, hwpins.symm⟩
  rw [meetConsumer_overridesFirst hagree, ← hpins]
  exact hmeet

end Completed

section Failed

/-- Requirements that are met under all the pins settle every name. -/
theorem settles_of_plain (hplain : ∀ req ∈ requirements, req.isOverride = false)
    (h : meetConsumer c requirements pins = .ok w) (hasks : requirements.filter (·.asksFor name) ≠ []) :
    ∃ v, Settles c (ofConsumer pins).constraintFor name (requirements.filter (·.asksFor name)) v := by
  have hunderway := underway_of_meetConsumer h
  have hpins : w.pins = pins := by
    rw [hunderway.pins_consumer, pinsAfterAll_of_plain hplain]
  cases hchosen : w.choice? name with
  | none => exact absurd (hunderway.choice?_eq_none_iff.mp hchosen) hasks
  | some chosen =>
    have hpin : w.pin? name = pins.find? (·.name == name) := by rw [pin?, hpins]
    have hsettles := hunderway.settles hpin hchosen
    have hsame : w.constraintFor = (ofConsumer pins).constraintFor := by
      funext r
      apply constraintFor_congr
      rw [pin?, hpins]
      rfl
    exact ⟨chosen.version, hsame ▸ hsettles⟩

private theorem Settles.congr
    {f g : Requirement → Constraint} {asking : List Requirement} {v : Version}
    (h : Settles c f name asking v) (hsame : ∀ r ∈ asking, f r = g r) : Settles c g name asking v := by
  obtain ⟨first, later, recipe, rfl, hchoose, hlater⟩ := h
  refine ⟨first, later, recipe, rfl, ?_, fun r hr => ?_⟩
  · rw [← hsame first List.mem_cons_self]
    exact hchoose
  · rw [← hsame r (List.mem_cons_of_mem first hr)]
    exact hlater r hr

/-- If the names of all requirements that are left can be settled, a requirement that asks for one is
met. -/
theorem exists_meet_of_settles (hx : Underway c (.consumer requirements) pins 0 met (req :: left) x)
    (hplain : req.isOverride = false) {asking later : List Requirement} {v : Version}
    (hasking : asking = met.filter (·.asksFor req.name) ++ req :: later)
    (hsettles : Settles c x.constraintFor req.name asking v) :
    ∃ y, meet c 0 consumerReference x req = .ok y := by
  obtain ⟨first, others, recipe, hsplit, hchoose, hothers⟩ := hsettles
  rw [hasking] at hsplit
  cases hchosen : x.choice? req.name with
  | none =>
    rw [hx.choice?_eq_none_iff.mp hchosen, List.nil_append] at hsplit
    obtain ⟨rfl, rfl⟩ := List.cons.inj hsplit
    exact ⟨_, meet_of_found hplain hchosen hchoose⟩
  | some chosen =>
    have hsatisfied : (x.constraintFor req).isSatisfied chosen.version = true := by
      cases hpin : x.pin? req.name with
      | some pin =>
        have hbound := hx.isSatisfied_of_pin? hchosen hpin (.inl (hx.node_pos hchosen))
        simpa [constraintFor, hpin] using hbound
      | none =>
        have hnever : pins.find? (·.name == req.name) = none := hx.pins_prefix.find?_eq_none hpin
        obtain ⟨first', others', recipe', hfirst', hchoose', -⟩ :=
          hx.settles (hpin.trans hnever.symm) hchosen
        -- the version that stands is the one that the first requirement can choose
        rw [hfirst', List.cons_append] at hsplit
        obtain ⟨rfl, rfl⟩ := List.cons.inj hsplit
        obtain ⟨hversion, -⟩ := Prod.mk.inj (Except.ok.inj (hchoose'.symm.trans hchoose))
        rw [hversion]
        exact hothers req (by simp)
    rw [meet_of_chosen hplain hchosen]
    simp [joinChoice, hsatisfied, hx.path?_consumer hchosen]

section Settled

variable (hx : Underway c (.consumer requirements) pins 0 met (req :: left) x)
  (hplain : req.isOverride = false)

include hx hplain

/-- A name that has its last pin by now, or never gets one, is settled as with the overrides first. -/
theorem exists_settles_of_pin
    (hw : meetConsumer c (requirements.filter (!·.isOverride))
      (pinsAfterAll consumerReference pins requirements) = .ok w)
    (hpin : x.pin? req.name =
      (ofConsumer (pinsAfterAll consumerReference pins requirements)).pin? req.name) :
    ∃ asking later v, asking = met.filter (·.asksFor req.name) ++ req :: later ∧
      Settles c x.constraintFor req.name asking v := by
  have hsplit : requirements.filter (·.asksFor req.name) =
      met.filter (·.asksFor req.name) ++ req :: left.filter (·.asksFor req.name) := by
    rw [hx.requirements_eq, List.filter_append, List.filter_cons_of_pos]
    exact Requirement.asksFor_iff.mpr ⟨hplain, rfl⟩
  have hasks : (requirements.filter (!·.isOverride)).filter (·.asksFor req.name) ≠ [] := by
    rw [filter_asksFor_plain, hsplit]
    simp
  obtain ⟨v, hsettles⟩ := settles_of_plain (fun r => mem_plain) hw hasks
  rw [filter_asksFor_plain] at hsettles
  refine ⟨_, _, v, hsplit, hsettles.congr fun r hr => ?_⟩
  have hr := Requirement.name_eq_of_mem_asking hr
  exact constraintFor_congr (hr ▸ hpin.symm)

/-- A name that is still to get its pin is settled by what asks for it ahead. -/
theorem exists_settles_of_ahead (hahead : AheadSettled c requirements)
    (hagree : PinsAgree (pinsAfterAll consumerReference pins requirements) requirements)
    (hunpinned : x.pin? req.name = none)
    (hpin : (pinsAfterAll consumerReference pins requirements).find? (·.name == req.name) = some pin) :
    ∃ asking later v, asking = met.filter (·.asksFor req.name) ++ req :: later ∧
      Settles c x.constraintFor req.name asking v := by
  obtain ⟨o, ho, hoverride, hname, -⟩ := hx.exists_override hagree hunpinned hpin
  obtain ⟨later, hlater⟩ := askingAhead_append left (hx.unpinned hunpinned).2 hplain rfl
  rw [← hx.requirements_eq] at hlater
  have hasks : askingAhead o.name requirements ≠ [] := by
    rw [hname, hlater]
    simp
  obtain ⟨v, hsettles⟩ := hahead o ho hoverride hasks
  rw [hname] at hsettles
  refine ⟨_, later, v, hlater, hsettles.congr fun r hr => ?_⟩
  have hr := Requirement.name_eq_of_mem_asking hr
  simp [constraintFor, hr, hunpinned]

private theorem exists_settles (hahead : AheadSettled c requirements)
    (hagree : PinsAgree (pinsAfterAll consumerReference pins requirements) requirements)
    (hw : meetConsumer c (requirements.filter (!·.isOverride))
      (pinsAfterAll consumerReference pins requirements) = .ok w) :
    ∃ asking later v, asking = met.filter (·.asksFor req.name) ++ req :: later ∧
      Settles c x.constraintFor req.name asking v := by
  cases hnow : x.pin? req.name with
  | some pin =>
    have hkept := hx.pins_prefix_all.find?_eq_some hnow
    exact exists_settles_of_pin hx hplain hw (hnow.trans hkept.symm)
  | none =>
    cases hlast : (pinsAfterAll consumerReference pins requirements).find? (·.name == req.name) with
    | none => exact exists_settles_of_pin hx hplain hw (hnow.trans hlast.symm)
    | some pin => exact exists_settles_of_ahead hx hplain hahead hagree hnow hlast

end Settled

/-- If what asks ahead of overrides can be met, a consumer that fails to meet its requirements in the
order of the list also fails with the overrides first. -/
theorem exists_failed_of_meetConsumer (hahead : AheadSettled c requirements) {e : GraphError}
    (h : meetConsumer c requirements pins = .error (.failed e)) :
    ∃ e', meetConsumer c (overridesFirst requirements) pins = .error (.failed e') := by
  by_cases hagree : PinsAgree (pinsAfterAll consumerReference pins requirements) requirements
  swap
  · exact exists_failed_overridesFirst hagree
  rw [meetConsumer_overridesFirst hagree]
  have hplains : ∀ req ∈ requirements.filter (!·.isOverride), req.isOverride = false :=
    fun req => mem_plain
  cases hfirst : meetConsumer c (requirements.filter (!·.isOverride))
    (pinsAfterAll consumerReference pins requirements) with
  | error e' =>
    cases e' with
    | restart next => exact absurd hfirst (meetConsumer_ne_restart (.inr hplains))
    | failed e' => exact ⟨e', rfl⟩
  | ok w =>
    exfalso
    obtain ⟨met, req, left, x, hx, hmeet⟩ := exists_underway_of_error h
    have hreqs := hx.requirements_eq
    cases hkind : req.isOverride with
    | true =>
      rw [meet_of_override hkind] at hmeet
      refine registerPin_ne_failed (fun pin hpin => ?_) hmeet
      obtain ⟨last, hlast, hsame⟩ := hagree req (by simp [hreqs]) hkind
      obtain rfl := Option.some.inj ((hx.pins_prefix_all.find?_eq_some hpin).symm.trans hlast)
      exact hsame
    | false =>
      obtain ⟨asking, later, v, hasking, hsettles⟩ := exists_settles hx hkind hahead hagree hfirst
      obtain ⟨y, hy⟩ := exists_meet_of_settles hx hkind hasking hsettles
      rw [hy] at hmeet
      cases hmeet

end Failed

end Expansion

end Provision
