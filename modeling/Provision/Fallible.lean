/-!
Computations that may fail: when chains of them and traversals succeed, what a chain keeps, and with
which fault it fails.
-/

namespace Provision

variable {α β γ ε ε' : Type} {x x' : Except ε α} {a : α} {b : β}

theorem bind_eq_ok_iff {f : α → Except ε β} :
    x >>= f = .ok b ↔ ∃ a, x = .ok a ∧ f a = .ok b := by
  cases x with
  | error e => simp [bind, Except.bind]
  | ok a => simp [bind, Except.bind]

theorem bind_eq_error_iff {f : α → Except ε β} {e : ε} :
    x >>= f = .error e ↔ x = .error e ∨ ∃ a, x = .ok a ∧ f a = .error e := by
  cases x with
  | error e' => simp [bind, Except.bind]
  | ok a => simp [bind, Except.bind]

theorem map_eq_ok_iff {f : α → β} : f <$> x = .ok b ↔ ∃ a, x = .ok a ∧ f a = b := by
  cases x with
  | error e => simp [Functor.map, Except.map]
  | ok a => simp [Functor.map, Except.map]

theorem mapError_eq_ok_iff {wrap : ε → ε'} : x.mapError wrap = .ok a ↔ x = .ok a := by
  cases x with
  | error e =>
    change Except.error (wrap e) = .ok a ↔ _
    simp
  | ok b =>
    change Except.ok b = .ok a ↔ _
    simp

theorem mapError_eq_error_iff {wrap : ε → ε'} {e' : ε'} :
    x.mapError wrap = .error e' ↔ ∃ e, x = .error e ∧ wrap e = e' := by
  cases x with
  | error e =>
    change Except.error (wrap e) = .error e' ↔ _
    simp
  | ok a =>
    change Except.ok a = .error e' ↔ _
    simp

theorem toOption_eq_some_iff : x.toOption = some a ↔ x = .ok a := by
  cases x <;> simp [Except.toOption]

/-- What is seen of a result tells that there is one. -/
theorem exists_ok_of_map_toOption {f : α → β} (h : x.toOption.map f = some b) :
    ∃ a, x = .ok a ∧ f a = b := by
  obtain ⟨a, ha, hb⟩ := Option.map_eq_some_iff.mp h
  cases x with
  | error e => cases ha
  | ok _ =>
    cases ha
    exact ⟨a, rfl, hb⟩

def failure? : Except ε α → Option ε
  | .ok _ => none
  | .error e => some e

theorem eq_error_of_failure? {e : ε} (h : failure? x = some e) : x = .error e := by
  cases x with
  | ok a => cases h
  | error e' =>
    cases h
    rfl

section Traversal

variable {f : α → Except ε β} {l : List α} {l' : List β}

/-- A traversal that succeeds has succeeded at every place. -/
theorem getElem?_of_mapM_ok (h : l.mapM f = .ok l') :
    l'.length = l.length ∧
      ∀ (i : Nat) (a : α), l[i]? = some a → ∃ b, f a = .ok b ∧ l'[i]? = some b := by
  induction l generalizing l' with
  | nil =>
    rw [List.mapM_nil] at h
    cases h
    exact ⟨rfl, by simp⟩
  | cons a l ih =>
    simp only [List.mapM_cons, bind_eq_ok_iff] at h
    obtain ⟨b, hfirst, bs, hrest, h⟩ := h
    cases h
    obtain ⟨hlength, hat⟩ := ih hrest
    refine ⟨by simp [hlength], fun i a' ha' => ?_⟩
    cases i with
    | zero =>
      cases ha'
      exact ⟨b, hfirst, rfl⟩
    | succ i => exact hat i a' ha'

/-- What is seen of the results of a traversal, where each place shows what is seen of its own. -/
theorem map_eq_of_mapM_ok {shown : α → γ} {part : β → γ} (h : l.mapM f = .ok l')
    (hshown : ∀ a ∈ l, ∀ b, f a = .ok b → part b = shown a) : l'.map part = l.map shown := by
  obtain ⟨hlength, hat⟩ := getElem?_of_mapM_ok h
  refine List.ext_getElem? fun i => ?_
  rw [List.getElem?_map, List.getElem?_map]
  cases ha : l[i]? with
  | none =>
    rw [List.getElem?_eq_none_iff, ← hlength, ← List.getElem?_eq_none_iff] at ha
    rw [ha]
    rfl
  | some a =>
    obtain ⟨b, hfa, hb⟩ := hat i a ha
    rw [hb, Option.map_some, Option.map_some, hshown a (List.mem_of_getElem? ha) b hfa]

/-- A chain of checks succeeds exactly if each of them does. -/
theorem forM_eq_ok_iff {check : α → Except ε Unit} :
    l.forM check = .ok () ↔ ∀ a ∈ l, check a = .ok () := by
  induction l with
  | nil => simp [pure, Except.pure]
  | cons a l ih =>
    change (check a >>= fun _ => l.forM check) = .ok () ↔ _
    rw [bind_eq_ok_iff, ih, List.forall_mem_cons]
    exact ⟨fun ⟨_, hfirst, hrest⟩ => ⟨hfirst, hrest⟩, fun ⟨hfirst, hrest⟩ => ⟨(), hfirst, hrest⟩⟩

/-- A traversal that fails has failed at some place. -/
theorem exists_of_mapM_error {e : ε} (h : l.mapM f = .error e) : ∃ a ∈ l, f a = .error e := by
  induction l with
  | nil => cases h
  | cons a l ih =>
    cases hfirst : f a with
    | error e' =>
      rw [List.mapM_cons, hfirst] at h
      cases h
      exact ⟨a, List.mem_cons_self, hfirst⟩
    | ok b =>
      cases hrest : l.mapM f with
      | error e' =>
        rw [List.mapM_cons, hfirst, hrest] at h
        cases h
        obtain ⟨a', hmem, ha'⟩ := ih hrest
        exact ⟨a', List.mem_cons_of_mem a hmem, ha'⟩
      | ok bs =>
        rw [List.mapM_cons, hfirst, hrest] at h
        cases h

/-- What a traversal yields with each place is what the place yields. -/
theorem exists_lookup_of_mapM_ok [BEq α] [LawfulBEq α] {l' : List (α × β)}
    (h : l.mapM (fun a => (a, ·) <$> f a) = .ok l') (ha : a ∈ l) :
    ∃ b, l'.lookup a = some b ∧ f a = .ok b := by
  induction l generalizing l' with
  | nil => cases ha
  | cons first l ih =>
    simp only [List.mapM_cons, bind_eq_ok_iff, map_eq_ok_iff] at h
    obtain ⟨-, ⟨b, hfirst, rfl⟩, rest, hrest, h⟩ := h
    cases h
    rw [List.lookup_cons]
    split
    · rename_i heq
      obtain rfl := eq_of_beq heq
      exact ⟨b, rfl, hfirst⟩
    · rename_i hne
      refine ih hrest ((List.mem_cons.mp ha).resolve_left fun heq => ?_)
      rw [heq, beq_self_eq_true] at hne
      cases hne

theorem exists_mapM_ok (h : ∀ a ∈ l, ∃ b, f a = .ok b) : ∃ l', l.mapM f = .ok l' := by
  induction l with
  | nil => exact ⟨[], rfl⟩
  | cons a l ih =>
    obtain ⟨b, hb⟩ := h a List.mem_cons_self
    obtain ⟨bs, hbs⟩ := ih fun a' ha' => h a' (List.mem_cons_of_mem a ha')
    refine ⟨b :: bs, ?_⟩
    simp only [List.mapM_cons, bind_eq_ok_iff]
    exact ⟨b, hb, bs, hbs, rfl⟩

variable {f : Nat × α → Except ε β}

theorem getElem?_of_mapM_mapIdx_ok (h : (l.mapIdx (·, ·)).mapM f = .ok l') :
    l'.length = l.length ∧
      ∀ (i : Nat) (a : α), l[i]? = some a → ∃ b, f (i, a) = .ok b ∧ l'[i]? = some b := by
  obtain ⟨hlength, hat⟩ := getElem?_of_mapM_ok h
  refine ⟨by simpa using hlength, fun i a ha => hat i (i, a) ?_⟩
  simp [ha]

end Traversal

section Chain

variable {σ : Type} {step : σ → α → Except ε σ} {fault : α → ε → Prop} {s s' : σ} {e : ε}
  {l : List α}

private theorem exists_ok_of_faultless (hstep : ∀ s a e, step s a = .error e ↔ fault a e) {a : α}
    (hfaultless : ∀ e, ¬fault a e) (s : σ) : ∃ s', step s a = .ok s' := by
  cases h : step s a with
  | error e => exact absurd ((hstep s a e).mp h) (hfaultless e)
  | ok s' => exact ⟨s', rfl⟩

/-- Where the steps of a chain fail for faults of their own, the chain fails with the first fault. -/
theorem foldlM_eq_error_iff (hstep : ∀ s a e, step s a = .error e ↔ fault a e) :
    l.foldlM step s = .error e ↔
      ∃ before a after, l = before ++ a :: after ∧ fault a e ∧
        ∀ b ∈ before, ∀ e', ¬fault b e' := by
  induction l generalizing s with
  | nil => simp [pure, Except.pure]
  | cons a rest ih =>
    rw [List.foldlM_cons, bind_eq_error_iff, hstep]
    constructor
    · rintro (hfault | ⟨s', hok, h⟩)
      · exact ⟨[], a, rest, rfl, hfault, by simp⟩
      · obtain ⟨before, b, after, rfl, hfault, hbefore⟩ := ih.mp h
        refine ⟨a :: before, b, after, rfl, hfault,
          List.forall_mem_cons.mpr ⟨fun e' hfirst => ?_, hbefore⟩⟩
        rw [(hstep s a e').mpr hfirst] at hok
        cases hok
    · rintro ⟨before, b, after, hsplit, hfault, hbefore⟩
      cases before with
      | nil =>
        cases hsplit
        exact .inl hfault
      | cons first before =>
        cases hsplit
        obtain ⟨hfirst, hbefore⟩ := List.forall_mem_cons.mp hbefore
        obtain ⟨s', hok⟩ := exists_ok_of_faultless hstep hfirst s
        exact .inr ⟨s', hok, ih.mpr ⟨before, b, after, rfl, hfault, hbefore⟩⟩

theorem exists_foldlM_error_iff (hstep : ∀ s a e, step s a = .error e ↔ fault a e) :
    (∃ e, l.foldlM step s = .error e) ↔ ∃ a ∈ l, ∃ e, fault a e := by
  induction l generalizing s with
  | nil => simp [pure, Except.pure]
  | cons a rest ih =>
    simp only [List.foldlM_cons, bind_eq_error_iff, hstep, List.mem_cons, exists_eq_or_imp,
      exists_or]
    by_cases hfault : ∃ e, fault a e
    · simp only [hfault, true_or]
    · obtain ⟨s', hok⟩ := exists_ok_of_faultless hstep (not_exists.mp hfault) s
      simp only [hok, Except.ok.injEq, exists_eq_left', ih]

/-- What every step keeps is kept by a chain of steps. -/
theorem foldlM_preserves (keeps : σ → Prop)
    (hstep : ∀ {s a s'}, step s a = .ok s' → keeps s → keeps s')
    (h : l.foldlM step s = .ok s') (hs : keeps s) : keeps s' := by
  induction l generalizing s with
  | nil =>
    cases h
    exact hs
  | cons a rest ih =>
    rw [List.foldlM_cons, bind_eq_ok_iff] at h
    obtain ⟨between, hfirst, hrest⟩ := h
    exact ih hrest (hstep hfirst hs)

/-- What each step of a chain can only add to holds in the end if it has held before or some step
adds to it. -/
theorem holds_foldlM_iff (holds : σ → Prop) {adds : α → Prop}
    (hstep : ∀ {s a s'}, step s a = .ok s' → (holds s' ↔ holds s ∨ adds a))
    (h : l.foldlM step s = .ok s') : holds s' ↔ holds s ∨ ∃ a ∈ l, adds a := by
  induction l generalizing s with
  | nil =>
    cases h
    simp
  | cons a rest ih =>
    rw [List.foldlM_cons, bind_eq_ok_iff] at h
    obtain ⟨between, hfirst, hrest⟩ := h
    simp only [ih hrest, hstep hfirst, List.mem_cons, exists_eq_or_imp, or_assoc]

end Chain

end Provision
