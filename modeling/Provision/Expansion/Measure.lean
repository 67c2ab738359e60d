import Provision.Expansion.Basic
import Provision.Fallible

/-!
Why expansions end. Every step either takes a node off the queue or gives a name its node, and
meeting a requirement leaves no more to do than before. Every restart pins one more of the names
that some override of the catalog or of the consumer is for.
-/

namespace Provision

section Counting

variable {α : Type} {p q : α → Bool}

/-- A count decreases when its condition is strengthened and one member drops out. -/
theorem countP_lt_of_mem {l : List α} (h : ∀ a ∈ l, q a = true → p a = true) {a : α} (ha : a ∈ l)
    (hp : p a = true) (hq : q a = false) : l.countP q < l.countP p := by
  induction l with
  | nil => simp at ha
  | cons b l ih =>
    obtain ⟨hb, hl⟩ := List.forall_mem_cons.mp h
    have hle := List.countP_mono_left hl
    rcases List.mem_cons.mp ha with rfl | ha
    · simp [hp, hq]
      omega
    · have := ih hl ha
      by_cases hqb : q b = true
      · simp [hqb, hb hqb]
        omega
      · simp [hqb, List.countP_cons]
        omega

end Counting

namespace Catalog

private theorem mem_available_of_chooseVersion
    {c : Catalog} {name : PackageName} {constraint : Constraint}
    {requester : Reference} {v : Version}
    (h : c.chooseVersion name constraint requester = .ok v) : v ∈ c.available name := by
  simp only [chooseVersion] at h
  split at h
  · simp at h
  · split at h
    · rename_i hfind
      obtain rfl := Except.ok.inj h
      simpa using List.mem_of_find?_eq_some hfind
    · simp at h

theorem choose_eq_ok {c : Catalog} {name : PackageName} {constraint : Constraint}
    {requester : Reference} {v : Version} {recipe : Recipe}
    (h : c.choose name constraint requester = .ok (v, recipe)) :
    c.chooseVersion name constraint requester = .ok v ∧ c.recipe? ⟨name, v⟩ = some recipe := by
  rw [choose, bind_eq_ok_iff] at h
  obtain ⟨version, hversion, h⟩ := h
  split at h
  · rename_i hrecipe
    obtain ⟨rfl, rfl⟩ := Prod.mk.inj (Except.ok.inj h)
    exact ⟨hversion, hrecipe⟩
  · simp [throw, throwThe, MonadExceptOf.throw] at h

end Catalog

namespace Expansion

variable {c : Catalog} {x y : Expansion} {current : Nat} {requester : Reference}
  {req : Requirement}

private theorem registerPin_eq_ok (h : x.registerPin requester req = .ok y) :
    y.graph = x.graph ∧ y.choices = x.choices ∧ y.queue = x.queue := by
  simp only [registerPin] at h
  split at h
  · split at h
    · cases h
      exact ⟨rfl, rfl, rfl⟩
    · simp at h
  · split at h
    · split at h
      · cases h
        exact ⟨rfl, rfl, rfl⟩
      · simp at h
    · cases h
      exact ⟨rfl, rfl, rfl⟩

private theorem joinChoice_eq_ok {constraint : Constraint} {chosen : Choice}
    (h : x.joinChoice current requester req constraint chosen = .ok y) :
    y.graph.nodes = x.graph.nodes ∧ y.choices = x.choices ∧ y.queue = x.queue ∧
      y.pins = x.pins := by
  simp only [joinChoice] at h
  split at h
  · simp at h
  · split at h
    · simp at h
    · cases h
      exact ⟨rfl, rfl, rfl, rfl⟩

private theorem choices_any_of_choice? {name : PackageName} :
    x.choices.any (·.name == name) = (x.choice? name).isSome := by
  rw [Bool.eq_iff_iff, choice?, List.find?_isSome, List.any_eq_true]

/-- Meeting a requirement leaves no more to do than before. -/
theorem remaining_meet_le (h : meet c current requester x req = .ok y) :
    y.remaining c ≤ x.remaining c := by
  simp only [meet] at h
  split at h
  · obtain ⟨-, hchoices, hqueue⟩ := registerPin_eq_ok h
    simp [remaining, unchosen, hchoices, hqueue]
  · split at h
    · obtain ⟨-, hchoices, hqueue, -⟩ := joinChoice_eq_ok h
      simp [remaining, unchosen, hchoices, hqueue]
    · rename_i hnone
      split at h
      · rename_i version recipe hchoose
        cases h
        have hmem : req.name ∈ c.names := Catalog.mem_names_of_mem_available
          (Catalog.mem_available_of_chooseVersion (Catalog.choose_eq_ok hchoose).1)
        have hfresh : x.choices.any (·.name == req.name) = false := by
          rw [choices_any_of_choice?, hnone]
          rfl
        have := countP_lt_of_mem (l := c.names)
          (p := fun name => !x.choices.any (·.name == name))
          (q := fun name => !(x.choices.any (·.name == name) || req.name == name))
          (fun name _ hname => by simp_all) hmem (by simp [hfresh]) (by simp)
        simp only [remaining, unchosen, addChoice, List.any_append, List.any_cons, List.any_nil,
          Bool.or_false, List.length_append, List.length_cons, List.length_nil]
        omega
      · simp at h

/-- Meeting requirements one after the other leaves no more to do than before. -/
theorem remaining_meetAll_le {requirements : List Requirement}
    (h : requirements.foldlM (meet c current requester) x = .ok y) :
    y.remaining c ≤ x.remaining c :=
  foldlM_preserves (fun z => z.remaining c ≤ x.remaining c)
    (fun hmeet hz => Nat.le_trans (remaining_meet_le hmeet) hz) h (Nat.le_refl _)

def FromCatalog (c : Catalog) (x : Expansion) : Prop :=
  ∀ n ∈ x.graph.nodes, ∀ recipe, n.recipe? = some recipe → recipe ∈ c.recipes

private theorem fromCatalog_meet
    (hx : x.FromCatalog c) (h : meet c current requester x req = .ok y) :
    y.FromCatalog c := by
  simp only [meet] at h
  split at h
  · obtain ⟨hgraph, -, -⟩ := registerPin_eq_ok h
    simpa [FromCatalog, hgraph] using hx
  · split at h
    · obtain ⟨hnodes, -⟩ := joinChoice_eq_ok h
      simpa [FromCatalog, hnodes] using hx
    · split at h
      · rename_i version recipe hchoose
        cases h
        intro n hn recipe' hrecipe'
        simp only [addChoice, Graph.addEdge, Graph.addNode, List.mem_append,
          List.mem_singleton] at hn
        rcases hn with hn | rfl
        · exact hx n hn recipe' hrecipe'
        · cases hrecipe'
          exact Catalog.mem_recipes_of_recipe? (Catalog.choose_eq_ok hchoose).2
      · simp at h

theorem fromCatalog_meetAll {requirements : List Requirement} (hx : x.FromCatalog c)
    (h : requirements.foldlM (meet c current requester) x = .ok y) : y.FromCatalog c :=
  foldlM_preserves (FromCatalog c) (fun hmeet hz => fromCatalog_meet hz hmeet) h hx

end Expansion

def Catalog.allRequirements (c : Catalog) (root : RootSpec) : List Requirement :=
  root.requirements ++ c.recipes.flatMap (·.requires)

def Catalog.overrideNames (c : Catalog) (root : RootSpec) : List PackageName :=
  ((c.allRequirements root).filter (·.isOverride)).map (·.name)

/-- The names that some override is for and that have no pin yet. -/
def Catalog.unpinned (c : Catalog) (root : RootSpec) (pins : List Pin) : Nat :=
  (c.overrideNames root).countP fun name => !isPinned pins name

/-- Pins that keep every pinned name and pin an override name that was free before. -/
def PinsOneMore (c : Catalog) (root : RootSpec) (old new : List Pin) : Prop :=
  (∀ name, isPinned old name = true → isPinned new name = true) ∧
    ∃ name ∈ c.overrideNames root, isPinned old name = false ∧ isPinned new name = true

theorem PinsOneMore.unpinned_lt {c : Catalog} {root : RootSpec} {old new : List Pin}
    (h : PinsOneMore c root old new) : c.unpinned root new < c.unpinned root old := by
  obtain ⟨hkeep, name, hmem, hold, hnew⟩ := h
  refine countP_lt_of_mem (fun name _ hname => ?_) hmem (by simp [hold]) (by simp [hnew])
  have := hkeep name
  cases h : isPinned old name <;> simp_all

namespace Expansion

variable {c : Catalog} {root : RootSpec} {x y : Expansion} {current : Nat} {requester : Reference}
  {req : Requirement}

theorem isPinned_of_pin? {name : PackageName} :
    isPinned x.pins name = (x.pin? name).isSome := by
  rw [Bool.eq_iff_iff, pin?, List.find?_isSome, isPinned, List.any_eq_true]

/-- Pins are never taken back. -/
theorem isPinned_meet (h : meet c current requester x req = .ok y) {name : PackageName}
    (hname : isPinned x.pins name = true) : isPinned y.pins name = true := by
  simp only [meet] at h
  split at h
  · simp only [registerPin] at h
    split at h
    · split at h
      · cases h
        exact hname
      · simp at h
    · split at h
      · split at h
        · cases h
          simp_all [isPinned]
        · simp at h
      · cases h
        simp_all [isPinned]
  · split at h
    · obtain ⟨-, -, -, hpins⟩ := joinChoice_eq_ok h
      rwa [hpins]
    · split at h
      · cases h
        exact hname
      · simp at h

/-- A restart pins a name that was free. -/
theorem pinsOneMore_meet {pins : List Pin} (hreq : req ∈ c.allRequirements root)
    (h : meet c current requester x req = .error (.restart pins)) :
    PinsOneMore c root x.pins pins := by
  simp only [meet] at h
  split at h
  · rename_i hoverride
    simp only [registerPin] at h
    split at h
    · split at h <;> simp at h
    · rename_i hfree
      split at h
      · split at h
        · simp at h
        · cases h
          refine ⟨fun name hname => by simp_all [isPinned], req.name, ?_, ?_, by simp [isPinned]⟩
          · exact List.mem_map_of_mem (List.mem_filter.mpr ⟨hreq, hoverride⟩)
          · rw [isPinned_of_pin?, hfree]
            rfl
      · simp at h
  · split at h
    · simp only [joinChoice] at h
      split at h
      · simp at h
      · split at h <;> simp at h
    · split at h <;> simp at h

theorem pinsOneMore_of_le {old pins : List Pin}
    (hle : ∀ name, isPinned old name = true → isPinned x.pins name = true)
    (h : PinsOneMore c root x.pins pins) : PinsOneMore c root old pins := by
  obtain ⟨hkeep, name, hmem, hfree, hnew⟩ := h
  refine ⟨fun name hname => hkeep name (hle name hname), name, hmem, ?_, hnew⟩
  cases hold : isPinned old name
  · rfl
  · rw [hle name hold] at hfree
    simp at hfree

theorem isPinned_meetAll {requirements : List Requirement}
    (h : requirements.foldlM (meet c current requester) x = .ok y) {name : PackageName}
    (hname : isPinned x.pins name = true) : isPinned y.pins name = true :=
  foldlM_preserves (fun z => isPinned z.pins name = true)
    (fun hmeet hz => isPinned_meet hmeet hz) h hname

theorem pinsOneMore_meetAll {requirements : List Requirement} {pins : List Pin}
    (hreqs : ∀ req ∈ requirements, req ∈ c.allRequirements root)
    (h : requirements.foldlM (meet c current requester) x = .error (.restart pins)) :
    PinsOneMore c root x.pins pins := by
  induction requirements generalizing x with
  | nil => simp [pure, Except.pure] at h
  | cons req requirements ih =>
    obtain ⟨hreq, hreqs⟩ := List.forall_mem_cons.mp hreqs
    rw [List.foldlM_cons, bind_eq_error_iff] at h
    rcases h with hrestart | ⟨z, hmeet, hrest⟩
    · exact pinsOneMore_meet hreq hrestart
    · exact pinsOneMore_of_le (fun _ => isPinned_meet hmeet) (ih hreqs hrest)

/-- The requirements of a node with a recipe of the catalog are requirements that an expansion can
meet. -/
theorem requirementsOf_subset (root : RootSpec) {n : Node}
    (h : ∀ recipe, n.recipe? = some recipe → recipe ∈ c.recipes) :
    ∀ req ∈ requirementsOf root n, req ∈ c.allRequirements root := by
  intro req hreq
  unfold requirementsOf at hreq
  cases hrecipe : n.recipe? with
  | none => exact List.mem_append_left _ (by simpa [hrecipe] using hreq)
  | some recipe =>
    exact List.mem_append_right _
      (List.mem_flatMap.mpr ⟨recipe, h recipe hrecipe, by simpa [hrecipe] using hreq⟩)

end Expansion

end Provision
