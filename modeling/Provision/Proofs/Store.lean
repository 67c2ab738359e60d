import Mathlib.Data.List.Forall2
import Provision.Compatibility

/-!
Looking for binaries. What is found is in a store that answers. When stores gain binaries, looking
for one finds it wherever it was found before, or in a store of higher priority, and so does looking
for the first candidate that has one.
-/

namespace Provision

/-- A store answers, and has the binary of a key. -/
def Store.Has (store : Store) (key : BinaryKey) : Prop :=
  store.exists? key = .ok true

instance (store : Store) (key : BinaryKey) : Decidable (store.Has key) :=
  inferInstanceAs (Decidable (store.exists? key = .ok true))

/-- A store has gained binaries: it has what it had. -/
structure Store.Grows (old new : Store) : Prop where
  name_eq : new.name = old.name
  has : ∀ key, old.Has key → new.Has key

/-- All stores have gained binaries. -/
structure Stores.Grows (old new : Stores) : Prop where
  cache : old.cache.Grows new.cache
  remotes : List.Forall₂ Store.Grows old.remotes new.remotes

/-- Some store answers and has the binary of a key. -/
def Stores.Holds (stores : Stores) (key : BinaryKey) : Prop :=
  stores.cache.Has key ∨ ∃ store ∈ stores.remotes, store.Has key

/-- The remote of the highest priority that answers and has the binary of a key. -/
def Stores.firstRemote? (stores : Stores) (key : BinaryKey) : Option Store :=
  stores.remotes.find? fun store => store.Has key

/-- Stores have the binary of a key, and answer, where a status and the name of a remote say. -/
inductive Stores.Serve (stores : Stores) (key : BinaryKey) : BinaryStatus → Option String → Prop
  | cache (hhas : stores.cache.Has key) : Serve stores key .cache none
  | download {store : Store} (hremote : store ∈ stores.remotes) (hhas : store.Has key) :
      Serve stores key .download (some store.name)

theorem Store.Grows.refl (store : Store) : store.Grows store :=
  ⟨rfl, fun _ => id⟩

namespace MemoryStore

variable {old new : MemoryStore} {key : BinaryKey}

/-- A store in memory has what is in it, while it is online. -/
theorem has_toStore_iff : old.toStore.Has key ↔ old.isOffline = false ∧ key ∈ old.binaries := by
  unfold Store.Has toStore
  cases old.isOffline <;> simp [Store.outOfReach]

private theorem name_toStore : old.toStore.name = old.name := by
  unfold toStore
  cases old.isOffline <;> rfl

theorem grows_toStore (hname : new.name = old.name) (hoffline : new.isOffline = old.isOffline)
    (hsubset : old.binaries ⊆ new.binaries) : old.toStore.Grows new.toStore := by
  refine ⟨by rw [name_toStore, name_toStore, hname], fun key hhas => ?_⟩
  rw [has_toStore_iff] at hhas ⊢
  exact ⟨hoffline.trans hhas.1, hsubset hhas.2⟩

end MemoryStore

namespace Stores

variable {old new : Stores} {key : BinaryKey} {r : Reference} {requested : PackageId}
  {candidates : List PreparedCandidate} {n : Node}

theorem location?_search_cons {location : Location} {store : Store}
    {rest : List (Location × Store)} :
    (search key ((location, store) :: rest)).location? =
      if store.Has key then some location else (search key rest).location? := by
  rw [search]
  split
  · rename_i hexists
    exact (if_pos hexists).symm
  · rename_i hexists
    exact (if_neg (by simp [Store.Has, hexists])).symm
  · rename_i hexists
    exact (if_neg (by simp [Store.Has, hexists])).symm

theorem exists_of_search {location : Location} {stores : List (Location × Store)}
    (h : (search key stores).location? = some location) :
    ∃ store, (location, store) ∈ stores ∧ store.Has key := by
  induction stores with
  | nil => cases h
  | cons first rest ih =>
    obtain ⟨here, store⟩ := first
    rw [location?_search_cons] at h
    split at h
    · rename_i hhas
      cases h
      exact ⟨store, List.mem_cons_self, hhas⟩
    · obtain ⟨other, hmem, hhas⟩ := ih h
      exact ⟨other, List.mem_cons_of_mem _ hmem, hhas⟩

private theorem isSome_search {stores stores' : List (Location × Store)}
    (h : List.Forall₂ (fun p p' => p'.1 = p.1 ∧ p.2.Grows p'.2) stores stores')
    (hfound : (search key stores).location?.isSome = true) :
    (search key stores').location?.isSome = true := by
  induction h with
  | nil => exact hfound
  | cons hstore hrest ih =>
    obtain ⟨-, hgrows⟩ := hstore
    rw [location?_search_cons] at hfound ⊢
    split
    · rfl
    · rename_i hmissing
      rw [if_neg fun hhas => hmissing (hgrows.has key hhas)] at hfound
      exact ih hfound

private theorem Grows.ranked (h : old.Grows new) :
    List.Forall₂ (fun p p' => p'.1 = p.1 ∧ p.2.Grows p'.2) old.ranked new.ranked := by
  refine .cons ⟨rfl, h.cache⟩ ?_
  refine List.forall₂_map_left_iff.mpr (List.forall₂_map_right_iff.mpr (h.remotes.imp ?_))
  intro store store' hstore
  exact ⟨congrArg Location.remote hstore.name_eq, hstore⟩

theorem Grows.isSome_locate (h : old.Grows new)
    (hfound : (old.locate key).location?.isSome = true) :
    (new.locate key).location?.isSome = true :=
  isSome_search h.ranked hfound

private theorem location?_search_map_remotes {remotes : List Store} :
    (search key (remotes.map fun store => (.remote store.name, store))).location? =
      (remotes.find? fun store => store.Has key).map fun store => .remote store.name := by
  induction remotes with
  | nil => rfl
  | cons store remotes ih =>
    rw [List.map_cons, location?_search_cons, List.find?_cons, ih]
    by_cases hhas : store.Has key
    · rw [if_pos hhas, decide_eq_true hhas]
      rfl
    · rw [if_neg hhas, decide_eq_false hhas]

/-- Looking for a binary finds it in the local store, or else on the first remote that has it. -/
theorem location?_locate (stores : Stores) (key : BinaryKey) :
    (stores.locate key).location? =
      if stores.cache.Has key then some .cache
      else (stores.firstRemote? key).map fun store => .remote store.name := by
  rw [locate, Stores.ranked, location?_search_cons, location?_search_map_remotes]
  rfl

theorem locate_eq_cache_iff :
    (old.locate key).location? = some .cache ↔ old.cache.Has key := by
  rw [location?_locate]
  by_cases hcache : old.cache.Has key
  · exact iff_of_true (if_pos hcache) hcache
  · rw [if_neg hcache]
    refine iff_of_false (fun hfound => ?_) hcache
    obtain ⟨store, -, hremote⟩ := Option.map_eq_some_iff.mp hfound
    cases hremote

theorem isSome_firstRemote?_iff {stores : Stores} :
    (stores.firstRemote? key).isSome = true ↔ ∃ store ∈ stores.remotes, store.Has key := by
  simp [firstRemote?, List.find?_isSome]

/-- A binary is in the local store, or else on a first remote, or no store has it. -/
theorem holds_cases (stores : Stores) (key : BinaryKey) :
    stores.cache.Has key ∨
      (¬stores.cache.Has key ∧ ∃ store, stores.firstRemote? key = some store) ∨
        ¬stores.Holds key := by
  by_cases hcache : stores.cache.Has key
  · exact .inl hcache
  · refine .inr ?_
    rw [Holds, ← isSome_firstRemote?_iff, or_iff_right hcache, ← Option.isSome_iff_exists,
      and_iff_right hcache]
    exact em _

theorem isSome_locate_iff {stores : Stores} :
    (stores.locate key).location?.isSome = true ↔ stores.Holds key := by
  rw [location?_locate, Holds, ← isSome_firstRemote?_iff]
  by_cases hcache : stores.cache.Has key
  · simp [hcache]
  · simp [hcache]

theorem Grows.locate_eq_cache (h : old.Grows new)
    (hfound : (old.locate key).location? = some .cache) :
    (new.locate key).location? = some .cache := by
  rw [locate_eq_cache_iff] at hfound ⊢
  exact h.cache.has key hfound

theorem selected?_firstAvailable (stores : Stores) :
    (stores.firstAvailable r requested candidates).selected? =
      candidates.findSome? fun candidate =>
        (stores.locate (.of r candidate.id)).location?.map fun location =>
          (⟨requested, candidate.id, candidate.index⟩, location) := by
  induction candidates with
  | nil => rfl
  | cons candidate candidates ih =>
    rw [firstAvailable, List.findSome?_cons]
    split
    · rename_i hfound
      rw [hfound]
      rfl
    · rename_i hmissing
      rw [hmissing]
      exact ih

private theorem exists_of_firstAvailable {fallback : Fallback} {location : Location}
    (h : (old.firstAvailable r requested candidates).selected? = some (fallback, location)) :
    ∃ candidate ∈ candidates, fallback = ⟨requested, candidate.id, candidate.index⟩ ∧
      (old.locate (.of r candidate.id)).location? = some location := by
  rw [selected?_firstAvailable] at h
  obtain ⟨candidate, hmem, hfound⟩ := List.exists_of_findSome?_eq_some h
  obtain ⟨found, hlocation, heq⟩ := Option.map_eq_some_iff.mp hfound
  obtain ⟨rfl, rfl⟩ := Prod.mk.inj heq
  exact ⟨candidate, hmem, rfl, hlocation⟩

/-- What is selected is one of the candidates, under the requested identity. -/
theorem exists_of_explore {fallback : Fallback} {location : Location}
    (h : (old.explore n candidates).selected? = some (fallback, location)) :
    ∃ requested, n.id? = some requested ∧ ∃ candidate ∈ candidates,
      fallback = ⟨requested, candidate.id, candidate.index⟩ ∧
        (old.locate (.of n.reference candidate.id)).location? = some location := by
  unfold explore at h
  split at h
  · cases h
  · rename_i requested hid
    exact ⟨requested, hid, exists_of_firstAvailable h⟩

theorem isSome_firstAvailable_iff :
    (old.firstAvailable r requested candidates).selected?.isSome = true ↔
      ∃ candidate ∈ candidates, (old.locate (.of r candidate.id)).location?.isSome = true := by
  simp only [selected?_firstAvailable, List.findSome?_isSome_iff, Option.isSome_map]

private theorem Grows.isSome_firstAvailable (h : old.Grows new)
    (hfound : (old.firstAvailable r requested candidates).selected?.isSome = true) :
    (new.firstAvailable r requested candidates).selected?.isSome = true := by
  rw [isSome_firstAvailable_iff] at hfound ⊢
  obtain ⟨candidate, hmem, hlocated⟩ := hfound
  exact ⟨candidate, hmem, h.isSome_locate hlocated⟩

/-- Where some candidate had a binary, some candidate still has. -/
theorem Grows.isSome_explore (h : old.Grows new)
    (hfound : (old.explore n candidates).selected?.isSome = true) :
    (new.explore n candidates).selected?.isSome = true := by
  unfold explore at hfound ⊢
  split
  · rename_i hid
    simp [hid] at hfound
  · rename_i requested hid
    rw [hid] at hfound
    exact h.isSome_firstAvailable hfound

end Stores

end Provision
