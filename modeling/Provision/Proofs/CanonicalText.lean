import Mathlib.Tactic.SplitIfs
import Provision.PackageId

/-!
The canonical text of a configuration can be read back. An escaped key or value never shows an
unescaped equals sign, opening bracket or line break, so the first equals sign ends a key, the
first line break ends a value, and an opening bracket at the start of a line begins a section.
Hence two configurations with one text are equal, and so are two with one hashed text.
-/

namespace Provision

/-- The characters that an escaped key or value never begins with. -/
def IsReserved (c : Char) : Prop :=
  c = '=' ∨ c = '[' ∨ c = '\n'

private theorem escapeChar_append_inj {a b : Char} {r t : List Char}
    (h : escapeChar a ++ r = escapeChar b ++ t) : a = b ∧ r = t := by
  unfold escapeChar at h
  split_ifs at h <;> grind

private theorem escapeChar_append_ne {a x : Char} {r t : List Char} (hx : IsReserved x) :
    escapeChar a ++ r ≠ x :: t := by
  intro h
  unfold escapeChar at h
  split_ifs at h <;> rcases hx with rfl | rfl | rfl <;> simp_all

/-- A reserved character ends an escaped token, wherever the two texts go on from there. -/
theorem escapeChars_append_cons_inj {a b : List Char} {x y : Char} {r t : List Char}
    (hx : IsReserved x) (hy : IsReserved y)
    (h : escapeChars a ++ x :: r = escapeChars b ++ y :: t) : a = b ∧ x = y ∧ r = t := by
  induction a generalizing b with
  | nil =>
    cases b with
    | nil =>
      obtain ⟨rfl, rfl⟩ := List.cons.inj h
      exact ⟨rfl, rfl, rfl⟩
    | cons c b =>
      simp only [escapeChars, List.flatMap_nil, List.nil_append, List.flatMap_cons,
        List.append_assoc] at h
      exact absurd h.symm (escapeChar_append_ne hx)
  | cons c a ih =>
    cases b with
    | nil =>
      simp only [escapeChars, List.flatMap_nil, List.nil_append, List.flatMap_cons,
        List.append_assoc] at h
      exact absurd h (escapeChar_append_ne hy)
    | cons d b =>
      simp only [escapeChars, List.flatMap_cons, List.append_assoc] at h
      obtain ⟨rfl, hrest⟩ := escapeChar_append_inj h
      obtain ⟨rfl, hxy, hrt⟩ := ih hrest
      exact ⟨rfl, hxy, hrt⟩

namespace Configuration

/-- What may follow the values of a section: the next section, or nothing. -/
def OpensSection : List Char → Prop
  | [] => True
  | c :: _ => c = '['

private theorem entryChars_append_inj {e f : String × String} {r t : List Char}
    (h : entryChars e ++ r = entryChars f ++ t) : e = f ∧ r = t := by
  simp only [entryChars, List.append_assoc, List.cons_append, List.nil_append] at h
  obtain ⟨hkey, -, hvalue⟩ := escapeChars_append_cons_inj (.inl rfl) (.inl rfl) h
  obtain ⟨hvalue, -, hrest⟩ :=
    escapeChars_append_cons_inj (.inr (.inr rfl)) (.inr (.inr rfl)) hvalue
  exact ⟨Prod.ext (String.toList_inj.mp hkey) (String.toList_inj.mp hvalue), hrest⟩

private theorem not_opensSection_entryChars (e : String × String) (r : List Char) :
    ¬ OpensSection (entryChars e ++ r) := by
  intro h
  obtain ⟨t, ht⟩ : ∃ t, entryChars e ++ r = '[' :: t := by
    cases hchars : entryChars e ++ r with
    | nil => simp [entryChars] at hchars
    | cons c t => exact ⟨t, by rw [hchars] at h; rw [show c = '[' from h]⟩
  cases hkey : e.1.toList with
  | nil => simp [entryChars, hkey, escapeChars] at ht
  | cons c cs =>
    simp only [entryChars, hkey, escapeChars, List.flatMap_cons, List.append_assoc] at ht
    exact escapeChar_append_ne (.inr (.inl rfl)) ht

/-- The lines of a section tell its values, and where they end. -/
theorem entries_append_inj {es fs : List (String × String)} {r t : List Char}
    (hr : OpensSection r) (ht : OpensSection t)
    (h : es.flatMap entryChars ++ r = fs.flatMap entryChars ++ t) : es = fs ∧ r = t := by
  induction es generalizing fs with
  | nil =>
    cases fs with
    | nil => exact ⟨rfl, h⟩
    | cons f fs =>
      simp only [List.flatMap_nil, List.nil_append, List.flatMap_cons, List.append_assoc] at h
      exact absurd (h ▸ hr) (not_opensSection_entryChars f _)
  | cons e es ih =>
    cases fs with
    | nil =>
      simp only [List.flatMap_nil, List.nil_append, List.flatMap_cons, List.append_assoc] at h
      exact absurd (h ▸ ht) (not_opensSection_entryChars e _)
    | cons f fs =>
      simp only [List.flatMap_cons, List.append_assoc] at h
      obtain ⟨rfl, hrest⟩ := entryChars_append_inj h
      obtain ⟨rfl, hrt⟩ := ih hrest
      exact ⟨rfl, hrt⟩

private theorem text_append_inj {s u : ConfigSection} {r t : List Char}
    (h : s.text.toList ++ ']' :: r = u.text.toList ++ ']' :: t) : s = u := by
  cases s <;> cases u <;> simp_all [ConfigSection.text]

private theorem sectionChars_cases (s : ConfigSection) (values : Values) :
    values = ∅ ∧ sectionChars s values = [] ∨
      sectionChars s values =
        '[' :: (s.text.toList ++ ']' :: '\n' :: values.entries.flatMap entryChars) := by
  by_cases hvalues : values.isEmpty
  · exact .inl ⟨OrderedMap.ext (List.isEmpty_iff.mp hvalues), if_pos hvalues⟩
  · exact .inr (by simp [sectionChars, hvalues])

private theorem opensSection_sections (c : Configuration) (sections : List ConfigSection) :
    OpensSection (sections.flatMap fun s => sectionChars s (c.get s)) := by
  induction sections with
  | nil => trivial
  | cons s sections ih =>
    rw [List.flatMap_cons]
    rcases sectionChars_cases s (c.get s) with ⟨-, hs⟩ | hs
    · rwa [hs]
    · rw [hs]
      rfl

/-- If the text of some sections begins with a header, it is that of one of them. -/
theorem header_mem_sections {c : Configuration} {sections : List ConfigSection} {s : ConfigSection}
    {r : List Char}
    (h : (sections.flatMap fun u => sectionChars u (c.get u)) =
      '[' :: (s.text.toList ++ ']' :: r)) : s ∈ sections := by
  induction sections with
  | nil => cases h
  | cons u sections ih =>
    rw [List.flatMap_cons] at h
    rcases sectionChars_cases u (c.get u) with ⟨-, hu⟩ | hu
    · rw [hu] at h
      exact List.mem_cons_of_mem _ (ih h)
    · rw [hu, List.cons_append, List.append_assoc, List.cons_append] at h
      rw [text_append_inj (List.cons.inj h).2]
      exact List.mem_cons_self

/-- The text of some sections, each written once, tells the values of every one of them. -/
theorem sections_inj {c d : Configuration} {sections : List ConfigSection}
    (hnodup : sections.Nodup)
    (h : (sections.flatMap fun s => sectionChars s (c.get s)) =
      sections.flatMap fun s => sectionChars s (d.get s)) :
    ∀ s ∈ sections, c.get s = d.get s := by
  induction sections with
  | nil => simp
  | cons s sections ih =>
    obtain ⟨hs, hnodup⟩ := List.nodup_cons.mp hnodup
    rw [List.flatMap_cons, List.flatMap_cons] at h
    rw [List.forall_mem_cons]
    rcases sectionChars_cases s (c.get s) with ⟨hc, hcs⟩ | hcs <;>
      rcases sectionChars_cases s (d.get s) with ⟨hd, hds⟩ | hds <;> rw [hcs, hds] at h
    · exact ⟨hc.trans hd.symm, ih hnodup h⟩
    · -- the header would be that of a later section
      rw [List.nil_append, List.cons_append, List.append_assoc] at h
      exact absurd (header_mem_sections h) hs
    · rw [List.nil_append, List.cons_append, List.append_assoc] at h
      exact absurd (header_mem_sections h.symm) hs
    · simp only [List.cons_append, List.append_assoc] at h
      have hlines := List.append_cancel_left (List.cons.inj h).2
      have hentries := (List.cons.inj (List.cons.inj hlines).2).2
      obtain ⟨hvalues, hrest⟩ := entries_append_inj (opensSection_sections c sections)
        (opensSection_sections d sections) hentries
      exact ⟨OrderedMap.ext hvalues, ih hnodup hrest⟩

/-- Two configurations with one canonical text have the same values in every section, and so have
two for which the same bytes are hashed. -/
theorem canonicalText_injective (c d : Configuration) :
    (c.canonicalText = d.canonicalText ↔ c = d) ∧
      (PackageId.preimage c = PackageId.preimage d ↔ c = d) := by
  have htext : c.canonicalText = d.canonicalText ↔ c = d := by
    constructor
    · intro h
      have hget := sections_inj (by decide) (String.ofList_inj.mp h)
      simp only [ConfigSection.all, List.forall_mem_cons] at hget
      obtain ⟨hsettings, hoptions, hrequires, -⟩ := hget
      cases c
      cases d
      simp_all [get]
    · exact congrArg canonicalText
  refine ⟨htext, ?_⟩
  rw [PackageId.preimage, PackageId.preimage, String.toUTF8_eq_toByteArray,
    String.toUTF8_eq_toByteArray, String.toByteArray_inj, String.append_right_inj, htext]

end Configuration

end Provision
