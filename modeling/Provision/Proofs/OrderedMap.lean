import Mathlib.Data.List.Sort
import Provision.OrderedMap

/-!
Looking up what has been put into a map: the value under a key is the last one that was set there,
and a map is told by its values.
-/

namespace Provision.OrderedMap

universe u v

variable {κ : Type u} {ν : Type v} {key : κ} {value : ν}

section Lookup

variable [BEq κ] [LawfulBEq κ] {entries : List (κ × ν)}

theorem mem_of_lookup_eq_some (h : entries.lookup key = some value) : (key, value) ∈ entries := by
  obtain ⟨before, after, hsplit, -⟩ := List.lookup_eq_some_iff.mp h
  rw [hsplit]
  exact List.mem_append_right _ List.mem_cons_self

/-- Where all entries of a key have the same value, that value is found. -/
theorem lookup_eq_some_of_forall (h : (key, value) ∈ entries)
    (hunique : ∀ other, (key, other) ∈ entries → other = value) :
    entries.lookup key = some value := by
  cases hlookup : entries.lookup key with
  | none =>
    have hnone := List.lookup_eq_none_iff.mp hlookup (key, value) h
    simp at hnone
  | some other => rw [hunique other (mem_of_lookup_eq_some hlookup)]

end Lookup

variable [Ord κ] [Std.LawfulEqOrd κ]

theorem ne_of_compare_lt {other : κ} (h : compare key other = .lt) : key ≠ other := by
  rintro rfl
  have hself : compare key key = .eq := Std.ReflCmp.compare_self
  rw [hself] at h
  cases h

/-- A key has one value. -/
theorem eq_of_mem_entries {m : OrderedMap κ ν} {other : ν} (h : (key, value) ∈ m.entries)
    (hother : (key, other) ∈ m.entries) : value = other := by
  have hkeys : (m.entries.map (·.1)).Nodup := List.pairwise_map.mpr (m.sorted.imp ne_of_compare_lt)
  exact (Prod.mk.inj (List.inj_on_of_nodup_map hkeys h hother rfl)).2

variable [BEq κ] [LawfulBEq κ]

theorem get?_eq_some_iff {m : OrderedMap κ ν} :
    m.get? key = some value ↔ (key, value) ∈ m.entries := by
  constructor
  · exact mem_of_lookup_eq_some
  · intro h
    exact lookup_eq_some_of_forall h fun other hother => eq_of_mem_entries hother h

theorem get?_filter (p : κ → ν → Bool) (m : OrderedMap κ ν) (key : κ) :
    (m.filter p).get? key = (m.get? key).filter (p key) := by
  refine Option.ext fun value => ?_
  rw [get?_eq_some_iff, Option.filter_eq_some_iff, get?_eq_some_iff, entries_filter,
    List.mem_filter]

variable [Std.TransOrd κ]

/-- Maps with the same value under every key are the same. -/
theorem ext_get? {m n : OrderedMap κ ν} (h : ∀ key, m.get? key = n.get? key) : m = n := by
  have hirrefl : Std.Irrefl fun a b : κ × ν => compare a.1 b.1 = .lt := by
    exact ⟨fun a hlt => ne_of_compare_lt hlt rfl⟩
  have hantisymm : Std.Antisymm fun a b : κ × ν => compare a.1 b.1 = .lt := by
    refine ⟨fun a b hab hba => ?_⟩
    have hswap : compare a.1 b.1 = (compare b.1 a.1).swap := Std.OrientedCmp.eq_swap
    rw [hswap, hba] at hab
    cases hab
  refine OrderedMap.ext (m.sorted.eq_of_mem_iff n.sorted fun entry => ?_)
  rw [← get?_eq_some_iff, ← get?_eq_some_iff, h]

private theorem lookup_insertEntry (other : κ) (entries : List (κ × ν)) :
    (insertEntry key value entries).lookup other =
      if other == key then some value else entries.lookup other := by
  induction entries with
  | nil =>
    rw [insertEntry, List.lookup_cons]
    cases other == key <;> rfl
  | cons first rest ih =>
    obtain ⟨k, v⟩ := first
    simp only [insertEntry]
    split
    · rw [List.lookup_cons]
      cases other == key <;> rfl
    · rename_i heq
      obtain rfl := Std.LawfulEqOrd.eq_of_compare heq
      rw [List.lookup_cons, List.lookup_cons]
      cases other == key <;> rfl
    · rename_i hgt
      have hne : k ≠ key := ne_of_compare_lt (Std.OrientedCmp.lt_of_gt hgt)
      rw [List.lookup_cons, List.lookup_cons, ih]
      by_cases hother : other = k
      · rw [hother, beq_self_eq_true, beq_false_of_ne hne]
        rfl
      · rw [beq_false_of_ne hother]

theorem get?_insert (m : OrderedMap κ ν) (other : κ) :
    (m.insert key value).get? other = if other == key then some value else m.get? other :=
  lookup_insertEntry other m.entries

/-- Of several assignments to a key the last one counts, and without any the value stays. -/
theorem get?_foldl_insert (assignments : List (κ × ν)) (m : OrderedMap κ ν) :
    (assignments.foldl (fun m e => m.insert e.1 e.2) m).get? key =
      (assignments.reverse.lookup key).or (m.get? key) := by
  induction assignments generalizing m with
  | nil => rfl
  | cons first rest ih =>
    rw [List.foldl_cons, ih, get?_insert, List.reverse_cons, List.lookup_append, Option.or_assoc,
      List.lookup_cons]
    cases key == first.1 <;> rfl

theorem get?_ofList (assignments : List (κ × ν)) :
    (ofList assignments).get? key = assignments.reverse.lookup key :=
  (get?_foldl_insert assignments ∅).trans Option.or_none

/-- A key to which nothing else is assigned has its value. -/
theorem get?_ofList_of_forall {assignments : List (κ × ν)} (h : (key, value) ∈ assignments)
    (hunique : ∀ other, (key, other) ∈ assignments → other = value) :
    (ofList assignments).get? key = some value := by
  rw [get?_ofList]
  exact lookup_eq_some_of_forall (List.mem_reverse.mpr h) fun other hother =>
    hunique other (List.mem_reverse.mp hother)

end Provision.OrderedMap
