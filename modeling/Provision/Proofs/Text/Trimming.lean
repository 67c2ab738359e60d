import Provision.Text.Basic
import Mathlib.Data.List.Basic
import Mathlib.Data.List.TakeWhile

/-!
The laws of trimming and of cutting into words. Main statements: a trimmed text begins and ends
with a character that is not blank (`trimmed_trimChars`), trimming leaves such a text as it is
(`Trimmed.trimChars_eq`), and words that are joined by separators are found again
(`words_intercalate`).
-/

namespace Provision.Text

variable {cs l m r : List Char}

/-- Neither end of a list of characters is a blank. -/
structure Trimmed (cs : List Char) : Prop where
  first : ∀ c ∈ cs.head?, isBlank c = false
  last : ∀ c ∈ cs.getLast?, isBlank c = false

theorem dropWhile_eq_self {p : Char → Bool} (h : ∀ c ∈ cs.head?, p c = false) :
    cs.dropWhile p = cs := by
  cases cs with
  | nil => rfl
  | cons c cs => exact List.dropWhile_cons_of_neg (by simp [h c rfl])

theorem eq_false_of_mem_head?_dropWhile {p : Char → Bool} {c : Char}
    (hc : c ∈ (cs.dropWhile p).head?) : p c = false := by
  have hfirst := List.head?_dropWhile_not p cs
  rwa [Option.mem_def.mp hc] at hfirst

/-- A run of characters ends where the next one does not belong to it. -/
theorem takeWhile_append_stop {p : Char → Bool} (hl : ∀ c ∈ l, p c = true)
    (hr : ∀ c ∈ r.head?, p c = false) : (l ++ r).takeWhile p = l := by
  rw [List.takeWhile_append_of_pos hl]
  cases r with
  | nil => simp
  | cons c r => rw [List.takeWhile_cons_of_neg (by simp [hr c rfl]), List.append_nil]

theorem dropWhile_append_stop {p : Char → Bool} (hl : ∀ c ∈ l, p c = true)
    (hr : ∀ c ∈ r.head?, p c = false) : (l ++ r).dropWhile p = r := by
  rw [List.dropWhile_append_of_pos hl, dropWhile_eq_self hr]

/-- Trimming leaves a text without blanks at its ends as it is. -/
theorem Trimmed.trimChars_eq (h : Trimmed cs) : trimChars cs = cs := by
  have hend : cs.reverse.dropWhile isBlank = cs.reverse :=
    dropWhile_eq_self fun c hc => h.last c (by rwa [List.head?_reverse] at hc)
  rw [trimChars, dropBlankEnd, dropWhile_eq_self h.first, hend, List.reverse_reverse]

private theorem isPrefix_dropBlankEnd (cs : List Char) : dropBlankEnd cs <+: cs := by
  simpa [dropBlankEnd] using
    List.reverse_prefix.mpr (List.dropWhile_suffix isBlank (l := cs.reverse))

theorem mem_of_mem_trimChars {c : Char} (h : c ∈ trimChars cs) : c ∈ cs :=
  (List.dropWhile_suffix isBlank).mem ((isPrefix_dropBlankEnd _).mem h)

/-- What trimming leaves has no blanks at its ends. -/
theorem trimmed_trimChars (cs : List Char) : Trimmed (trimChars cs) where
  first c hc := by
    obtain ⟨rest, hrest⟩ := isPrefix_dropBlankEnd (cs.dropWhile isBlank)
    have hhead : c ∈ (cs.dropWhile isBlank).head? := by
      rw [← hrest, List.head?_append, ← trimChars, Option.mem_def.mp hc]
      rfl
    exact eq_false_of_mem_head?_dropWhile hhead
  last c hc := by
    rw [trimChars, dropBlankEnd, List.getLast?_reverse] at hc
    exact eq_false_of_mem_head?_dropWhile hc

/-- Trimming leaves nothing of the texts that hold blanks only. -/
theorem trimChars_eq_nil_iff : trimChars cs = [] ↔ ∀ c ∈ cs, isBlank c = true := by
  simp only [trimChars, dropBlankEnd, List.reverse_eq_nil_iff, List.dropWhile_eq_nil_iff,
    List.mem_reverse]
  constructor
  · intro h c hc
    rw [← List.takeWhile_append_dropWhile (p := isBlank) (l := cs), List.mem_append] at hc
    exact hc.elim List.mem_takeWhile_imp (h c)
  · exact fun h c hc => h c ((List.dropWhile_suffix isBlank).mem hc)

theorem Trimmed.trim_eq {s : String} (h : Trimmed s.toList) : trim s = s := by
  rw [trim, h.trimChars_eq, String.ofList_toList]

theorem Trimmed.isBlankText_eq_false {s : String} (h : Trimmed s.toList) (hne : s.toList ≠ []) :
    isBlankText s = false := by
  by_contra hblank
  rw [isBlankText, Bool.not_eq_false, List.all_eq_true, ← trimChars_eq_nil_iff,
    h.trimChars_eq] at hblank
  exact hne hblank

/-- Texts between two parts that have no blanks at their ends may hold anything. -/
theorem Trimmed.append (hl : Trimmed l) (hr : Trimmed r) (hlne : l ≠ []) (hrne : r ≠ []) :
    Trimmed (l ++ m ++ r) where
  first c hc := hl.first c (by simpa [List.head?_append, hlne] using hc)
  last c hc := hr.last c (by simpa [List.getLast?_append, hrne] using hc)

/-- What stands in joined pieces stands in the glue or in a piece. -/
theorem mem_or_exists_mem_of_mem_intercalate {α : Type} {a : α} {glue : List α}
    {pieces : List (List α)} (h : a ∈ glue.intercalate pieces) :
    a ∈ glue ∨ ∃ piece ∈ pieces, a ∈ piece := by
  induction pieces with
  | nil => exact absurd h List.not_mem_nil
  | cons piece pieces ih =>
    cases pieces with
    | nil => exact .inr ⟨piece, List.mem_cons_self, by simpa using h⟩
    | cons next pieces =>
      rw [List.intercalate_cons_cons, List.mem_append, List.mem_append] at h
      rcases h with (h | h) | h
      · exact .inr ⟨piece, List.mem_cons_self, h⟩
      · exact .inl h
      · exact (ih h).imp_right fun ⟨piece', hmem, ha⟩ => ⟨piece', List.mem_cons_of_mem _ hmem, ha⟩

/-- The pieces between separators hold characters of the text other than the separator. -/
theorem mem_and_ne_of_mem_splitOn {sep c : Char} {piece : List Char}
    (hpiece : piece ∈ cs.splitOn sep) (hc : c ∈ piece) : c ∈ cs ∧ c ≠ sep := by
  induction cs generalizing piece with
  | nil =>
    obtain rfl : piece = [] := by simpa using hpiece
    exact absurd hc List.not_mem_nil
  | cons d cs ih =>
    have hrest : ∀ piece ∈ cs.splitOn sep, c ∈ piece → c ∈ d :: cs ∧ c ≠ sep :=
      fun piece hmem hc => (ih hmem hc).imp_left (List.mem_cons_of_mem d)
    rw [List.splitOn_cons_eq_if_modifyHead] at hpiece
    split_ifs at hpiece with hd
    · rcases List.mem_cons.mp hpiece with rfl | hpiece
      · exact absurd hc List.not_mem_nil
      · exact hrest piece hpiece hc
    · obtain ⟨head, tail, hsplit⟩ := List.exists_cons_of_ne_nil (List.splitOn_ne_nil sep cs)
      rw [hsplit] at hrest hpiece
      rcases List.mem_cons.mp hpiece with rfl | hpiece
      · rcases List.mem_cons.mp hc with rfl | hc
        · exact ⟨List.mem_cons_self, by simpa using hd⟩
        · exact hrest head List.mem_cons_self hc
      · exact hrest piece (List.mem_cons_of_mem head hpiece) hc

/-- The first separator tells a text from what follows. -/
theorem append_inj_of_notMem {sep : Char} {glue s t rest rest' : String}
    (hglue : glue.toList = [sep]) (hs : sep ∉ s.toList) (ht : sep ∉ t.toList) :
    s ++ (glue ++ rest) = t ++ (glue ++ rest') ↔ s = t ∧ rest = rest' := by
  have hcut : ∀ u after : String, sep ∉ u.toList →
      cutFirst sep (u ++ (glue ++ after)) = some (u, after) :=
    fun u after hu => cutFirst_eq_some_iff.mpr ⟨by simp [hglue], hu⟩
  constructor
  · intro h
    have hsame := hcut s rest hs
    rw [h, hcut t rest' ht, Option.some.injEq, Prod.mk.injEq] at hsame
    exact ⟨hsame.1.symm, hsame.2.symm⟩
  · rintro ⟨rfl, rfl⟩
    rfl

/-- A text that begins with another one is cut after it. -/
theorem dropStart_eq_some_iff {start s rest : String} :
    dropStart start s = some rest ↔ s = start ++ rest := by
  rw [dropStart, Option.map_eq_some_iff, ← String.toList_inj, String.toList_append]
  constructor
  · rintro ⟨cs, hcs, rfl⟩
    rw [String.toList_ofList, List.isPrefixOf?_eq_some_iff_append_eq.mp hcs]
  · intro h
    exact ⟨rest.toList, List.isPrefixOf?_eq_some_iff_append_eq.mpr h.symm, String.ofList_toList⟩

section Words

variable {p : Char → Bool} {glue word : List Char} {ws : List (List Char)}

private theorem words_nil : words p [] = [] := rfl

private theorem words_append_cons {c : Char} (hc : p c = true) (l r : List Char) :
    words p (l ++ c :: r) = words p l ++ words p r := by
  rw [words, List.splitOnP_append_cons l r hc, List.filter_append]
  rfl

private theorem words_of_forall (hword : ∀ c ∈ word, p c = false) (hne : word ≠ []) :
    words p word = [word] := by
  rw [words, List.splitOnP_eq_singleton hword]
  simp [hne]

private theorem words_append_append
    (hglue : ∀ c ∈ glue, p c = true) (hne : glue ≠ []) (l r : List Char) :
    words p (l ++ glue ++ r) = words p l ++ words p r := by
  induction glue generalizing l with
  | nil => exact absurd rfl hne
  | cons c glue ih =>
    rw [List.forall_mem_cons] at hglue
    rw [List.append_assoc, List.cons_append, words_append_cons hglue.1]
    by_cases hglue' : glue = []
    · rw [hglue', List.nil_append]
    · rw [← List.nil_append glue, ih hglue.2 hglue' [], words_nil, List.nil_append]

/-- Words joined by separators are found again. -/
theorem words_intercalate (hglue : ∀ c ∈ glue, p c = true) (hne : glue ≠ [])
    (hws : ∀ word ∈ ws, word ≠ [] ∧ ∀ c ∈ word, p c = false) :
    words p (glue.intercalate ws) = ws := by
  induction ws with
  | nil => rfl
  | cons word ws ih =>
    obtain ⟨⟨hword, hclear⟩, hws⟩ := List.forall_mem_cons.mp hws
    cases ws with
    | nil => rw [List.intercalate_singleton, words_of_forall hclear hword]
    | cons next ws =>
      rw [List.intercalate_cons_cons, words_append_append hglue hne, ih hws,
        words_of_forall hclear hword, List.singleton_append]

end Words

end Provision.Text
