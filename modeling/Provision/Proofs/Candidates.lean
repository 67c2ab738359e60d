import Provision.Proofs.Compatibility
import Provision.Proofs.Store

/-!
The search among candidates selects the first match. Preparing drops what is rejected, what is the
requested identity again, and what repeats a digest; searching then takes the first candidate with a
binary. Together they select what a plain walk along the offer would select: the least position at
which a candidate is accepted, differs from the requested identity, and has a binary.
-/

namespace Provision

namespace Graph

/-- A candidate is offered at a position, and accepted under another identity than the requested
one. -/
structure Proposes (g : Graph) (mode : IdentityMode) (i : Nat) (n : Node) (index : Nat)
    (id : PackageId) : Prop where
  accepted : ∃ recipe candidate, n.recipe? = some recipe ∧ g.Offers i n recipe index candidate ∧
    recipe.Accepts (g.hookContext i n) (g.contributions mode i)
      (recipe.substituted n.requested candidate) id
  differs : ∃ requested, n.id? = some requested ∧ id.digest ≠ requested.digest

/-- A candidate is proposed at a position, and some store has its binary. -/
structure Matches (g : Graph) (mode : IdentityMode) (stores : Stores) (i : Nat) (n : Node)
    (index : Nat) (id : PackageId) : Prop extends g.Proposes mode i n index id where
  held : stores.Holds (.of n.reference id)

/-- A candidate matches, and none before it does. -/
structure IsFirstMatch (g : Graph) (mode : IdentityMode) (stores : Stores) (i : Nat) (n : Node)
    (index : Nat) (id : PackageId) : Prop extends g.Matches mode stores i n index id where
  least : ∀ earlier < index, ∀ other, ¬g.Matches mode stores i n earlier other

/-- Prepared candidates stand for all that are proposed: they keep the order of the offer, and every
digest is among them, no later than where it is proposed. -/
structure Represents (g : Graph) (mode : IdentityMode) (i : Nat) (n : Node)
    (prepared : List PreparedCandidate) : Prop where
  sorted : prepared.Pairwise (·.index < ·.index)
  sound : ∀ p ∈ prepared, g.Proposes mode i n p.index p.id
  complete : ∀ index id, g.Proposes mode i n index id →
    ∃ p ∈ prepared, p.id.digest = id.digest ∧ p.index ≤ index

variable {g : Graph} {mode : IdentityMode} {stores : Stores} {i index index' : Nat} {n : Node}
  {requested id id' : PackageId} {prepared candidates : List PreparedCandidate}
  {fallback : Fallback} {location : Location}

/-- At one position one identity is proposed. -/
theorem Proposes.unique (h : g.Proposes mode i n index id) (h' : g.Proposes mode i n index id') :
    id = id' := by
  obtain ⟨recipe, candidate, hrecipe, ⟨hook, offered, hhook, hoffered, hplace⟩, haccepts⟩ :=
    h.accepted
  obtain ⟨recipe', candidate', hrecipe', ⟨hook', offered', hhook', hoffered', hplace'⟩,
    haccepts'⟩ := h'.accepted
  obtain rfl := Option.some.inj (hrecipe.symm.trans hrecipe')
  obtain rfl := Option.some.inj (hhook.symm.trans hhook')
  obtain rfl := Except.ok.inj (hoffered.symm.trans hoffered')
  obtain rfl := Option.some.inj (hplace.symm.trans hplace')
  exact haccepts.unique haccepts'

/-- There is one first match at most. -/
theorem IsFirstMatch.unique (h : g.IsFirstMatch mode stores i n index id)
    (h' : g.IsFirstMatch mode stores i n index' id') : index = index' ∧ id = id' := by
  obtain rfl : index = index' := by
    rcases Nat.lt_trichotomy index index' with hlt | heq | hgt
    · exact absurd h.toMatches (h'.least index hlt id)
    · exact heq
    · exact absurd h'.toMatches (h.least index' hgt id')
  exact ⟨rfl, h.toProposes.unique h'.toProposes⟩

/-- Candidates that have been prepared stand for all that are proposed, repeated ones dropped. -/
theorem represents_of_candidates (hid : n.id? = some requested)
    (h : g.candidates mode i n = .ok candidates) : g.Represents mode i n candidates := by
  rcases prepares_of_candidates h with
    ⟨rfl, hnone⟩ | ⟨recipe, hook, offered, hrecipe, hhook, hoffered, hprepares⟩
  · refine ⟨.nil, by simp, fun index id hproposes => ?_⟩
    obtain ⟨recipe, candidate, hrecipe, ⟨hook, -, hhook, -⟩, -⟩ := hproposes.accepted
    rw [hnone recipe hrecipe] at hhook
    cases hhook
  · have hseen : (n.id?.map (·.digest)).toList = [requested.digest] := by rw [hid]; rfl
    rw [hseen] at hprepares
    refine ⟨hprepares.sorted, fun p hp => ?_, fun index id hproposes => ?_⟩
    · obtain ⟨place, candidate, hindex, hplace, haccepts, hfresh⟩ := hprepares.exists_of_mem hp
      rw [Nat.zero_add] at hindex
      exact ⟨⟨recipe, candidate, hrecipe, ⟨hook, offered, hhook, hoffered, hindex ▸ hplace⟩,
        haccepts⟩, requested, hid, by simpa using hfresh⟩
    · obtain ⟨recipe', candidate, hrecipe', ⟨hook', offered', hhook', hoffered', hplace⟩,
        haccepts⟩ := hproposes.accepted
      obtain rfl := Option.some.inj (hrecipe.symm.trans hrecipe')
      obtain rfl := Option.some.inj (hhook.symm.trans hhook')
      obtain rfl := Except.ok.inj (hoffered.symm.trans hoffered')
      obtain ⟨requested', hid', hdiffers⟩ := hproposes.differs
      obtain rfl := Option.some.inj (hid.symm.trans hid')
      rcases hprepares.exists_of_accepts hplace haccepts with hrequested | ⟨p, hp, hdigest, hle⟩
      · exact absurd (List.mem_singleton.mp hrequested) hdiffers
      · exact ⟨p, hp, hdigest, by omega⟩

namespace Represents

variable (h : g.Represents mode i n prepared)
include h

/-- What is selected is the first match. -/
theorem isFirstMatch_of_firstAvailable
    (hselected : (stores.firstAvailable n.reference requested prepared).selected? =
      some (fallback, location)) :
    fallback.requested = requested ∧
      g.IsFirstMatch mode stores i n fallback.candidateIndex fallback.selected ∧
      (stores.locate (.of n.reference fallback.selected)).location? = some location := by
  rw [Stores.selected?_firstAvailable, List.findSome?_eq_some_iff] at hselected
  obtain ⟨before, p, after, hsplit, hfound, hbefore⟩ := hselected
  obtain ⟨location', hlocation, heq⟩ := Option.map_eq_some_iff.mp hfound
  obtain ⟨rfl, rfl⟩ := Prod.mk.inj heq
  have hp : p ∈ prepared := by simp [hsplit]
  have hheld : stores.Holds (.of n.reference p.id) :=
    Stores.isSome_locate_iff.mp (Option.isSome_of_eq_some hlocation)
  refine ⟨rfl, ⟨⟨h.sound p hp, hheld⟩, fun earlier hearlier other hmatches => ?_⟩, hlocation⟩
  -- an earlier match is represented before the one that is selected
  obtain ⟨q, hq, hdigest, hle⟩ := h.complete earlier other hmatches.toProposes
  have hqp : q ∈ before := by
    have hsorted := h.sorted
    rw [hsplit] at hq hsorted
    rcases List.mem_append.mp hq with hq | hq
    · exact hq
    · have hge : p.index ≤ q.index := by
        rcases List.mem_cons.mp hq with rfl | hq
        · exact Nat.le_refl _
        · exact Nat.le_of_lt (List.rel_of_pairwise_cons (List.pairwise_append.mp hsorted).2.1 hq)
      dsimp only at hearlier
      omega
  have hkey : BinaryKey.of n.reference q.id = .of n.reference other := by
    rw [BinaryKey.of, BinaryKey.of, hdigest]
  have hnone := Option.map_eq_none_iff.mp (hbefore q hqp)
  have hsome := Stores.isSome_locate_iff.mpr hmatches.held
  rw [← hkey, hnone] at hsome
  cases hsome

/-- Something is selected if there is a match. -/
theorem isSome_of_matches (hmatches : g.Matches mode stores i n index id) :
    (stores.firstAvailable n.reference requested prepared).selected?.isSome = true := by
  obtain ⟨p, hp, hdigest, -⟩ := h.complete index id hmatches.toProposes
  have hkey : BinaryKey.of n.reference id = .of n.reference p.id := by
    rw [BinaryKey.of, BinaryKey.of, hdigest]
  have hsome := Stores.isSome_locate_iff.mpr hmatches.held
  rw [hkey] at hsome
  exact Stores.isSome_firstAvailable_iff.mpr ⟨p, hp, hsome⟩

private theorem firstAvailable_eq_some_iff :
    (stores.firstAvailable n.reference requested prepared).selected? = some (fallback, location) ↔
      fallback.requested = requested ∧
        g.IsFirstMatch mode stores i n fallback.candidateIndex fallback.selected ∧
        (stores.locate (.of n.reference fallback.selected)).location? = some location := by
  refine ⟨h.isFirstMatch_of_firstAvailable, fun ⟨hrequested, hfirst, hlocation⟩ => ?_⟩
  have hsome : (stores.firstAvailable n.reference requested prepared).selected?.isSome = true :=
    h.isSome_of_matches hfirst.toMatches
  obtain ⟨⟨fallback', location'⟩, hselected⟩ := Option.isSome_iff_exists.mp hsome
  obtain ⟨hrequested', hfirst', hlocation'⟩ := h.isFirstMatch_of_firstAvailable hselected
  obtain ⟨hindex, hid⟩ := hfirst.unique hfirst'
  rw [hid, hlocation', Option.some.injEq] at hlocation
  have hfallback : fallback' = fallback := by
    cases fallback'
    cases fallback
    rw [Fallback.mk.injEq]
    exact ⟨hrequested'.trans hrequested.symm, hid.symm, hindex.symm⟩
  rw [hselected, hfallback, hlocation]

end Represents

/-- The search among the candidates of a node, told by what is offered and where binaries are. -/
structure SelectsFirstMatch (g : Graph) (mode : IdentityMode) (stores : Stores) (i : Nat) (n : Node)
    (candidates : List PreparedCandidate) : Prop where
  isSome_iff : (stores.explore n candidates).selected?.isSome = true ↔
    ∃ index id, g.Matches mode stores i n index id
  eq_some_iff : ∀ fallback location,
    (stores.explore n candidates).selected? = some (fallback, location) ↔
      n.id? = some fallback.requested ∧
        g.IsFirstMatch mode stores i n fallback.candidateIndex fallback.selected ∧
        (stores.locate (.of n.reference fallback.selected)).location? = some location
  /-- All that is proposed, with repeated digests in it, would give the same. -/
  eq_of_all : ∀ all : List PreparedCandidate, all.Pairwise (·.index < ·.index) →
    (∀ p, p ∈ all ↔ g.Proposes mode i n p.index p.id) →
      (stores.explore n all).selected? = (stores.explore n candidates).selected?

/-- Preparing candidates and then searching them selects the first match of the offer. -/
theorem selectsFirstMatch_of_candidates (stores : Stores)
    (h : g.candidates mode i n = .ok candidates) :
    g.SelectsFirstMatch mode stores i n candidates := by
  cases hid : n.id? with
  | none =>
    have hnothing : ∀ l, (stores.explore n l).selected? = none := by
      intro l
      rw [Stores.explore, hid]
    refine ⟨?_, fun fallback location => ?_, fun all _ _ => (hnothing all).trans (hnothing _).symm⟩
    · rw [hnothing]
      refine ⟨fun hsome => absurd hsome Bool.false_ne_true, fun ⟨index, id, hmatches⟩ => ?_⟩
      obtain ⟨requested, hrequested, -⟩ := hmatches.differs
      rw [hid] at hrequested
      cases hrequested
    · simp [hnothing, hid]
  | some requested =>
    have hexplore : ∀ l, stores.explore n l = stores.firstAvailable n.reference requested l := by
      intro l
      rw [Stores.explore, hid]
    have hrepresents := represents_of_candidates hid h
    have hselected : ∀ l, g.Represents mode i n l → ∀ fallback location,
        (stores.explore n l).selected? = some (fallback, location) ↔
          n.id? = some fallback.requested ∧
            g.IsFirstMatch mode stores i n fallback.candidateIndex fallback.selected ∧
            (stores.locate (.of n.reference fallback.selected)).location? = some location := by
      intro l hl fallback location
      rw [hexplore, hl.firstAvailable_eq_some_iff, hid, Option.some.injEq, eq_comm]
    refine ⟨⟨fun hsome => ?_, fun ⟨index, id, hmatches⟩ => ?_⟩, hselected _ hrepresents,
      fun all hsorted hall => ?_⟩
    · obtain ⟨⟨fallback, location⟩, hsome⟩ := Option.isSome_iff_exists.mp hsome
      obtain ⟨-, hfirst, -⟩ := (hselected _ hrepresents fallback location).mp hsome
      exact ⟨_, _, hfirst.toMatches⟩
    · rw [hexplore]
      exact hrepresents.isSome_of_matches hmatches
    · have hrepresents' : g.Represents mode i n all :=
        ⟨hsorted, fun p hp => (hall p).mp hp, fun index id hproposes =>
          ⟨⟨index, id⟩, (hall ⟨index, id⟩).mpr hproposes, rfl, Nat.le_refl _⟩⟩
      refine Option.ext fun ⟨fallback, location⟩ => ?_
      rw [hselected all hrepresents', hselected candidates hrepresents]

/-- A package that offers itself for a compiler, first in a mode that it rejects and then in another
one. The mode does not go into its identity. -/
def ofOfferedModes : Node :=
  let recipe : Recipe :=
    { reference := .ofTexts "zlib" "1.3.0"
      settings := ["compiler", "mode"]
      options := ∅
      requires := []
      hooks :=
        { validate? := some fun context =>
            if context.setting? "mode" = some "debug" then .error (.invalid "debug") else .ok ()
          compatibility? := some fun _ => .ok [⟨[("compiler", "gcc"), ("mode", "debug")], []⟩,
            ⟨[("compiler", "gcc"), ("mode", "release")], []⟩]
          packageId? := some fun info => .ok (info.remove "mode") } }
  { Node.new (.ofTexts "zlib" "1.3.0") (some recipe) with id? := some (.compute ∅) }

/-- A candidate that is rejected does not hide a later one of the same identity. -/
theorem selectsFirstMatch_ofOfferedModes :
    let key := .of (.ofTexts "zlib" "1.3.0") (.compute (Configuration.set ∅ "compiler" "gcc"))
    let stores : Stores := ⟨(MemoryStore.mk "local" [key] false).toStore, []⟩
    ∃ candidates fallback,
      (ofRoot ofOfferedModes).candidates .semver 0 ofOfferedModes = .ok candidates ∧
        (stores.explore ofOfferedModes candidates).selected? = some (fallback, .cache) ∧
        fallback.candidateIndex = 1 ∧
        (ofRoot ofOfferedModes).SelectsFirstMatch .semver stores 0 ofOfferedModes candidates := by
  intro key stores
  have hview : ((ofRoot ofOfferedModes).candidates .semver 0 ofOfferedModes).toOption.map
      (fun candidates => (stores.explore ofOfferedModes candidates).selected?.map
        fun (fallback, location) => (fallback.candidateIndex, location)) =
      some (some (1, .cache)) := by decide +kernel
  obtain ⟨candidates, h, hshown⟩ := exists_ok_of_map_toOption hview
  obtain ⟨⟨fallback, location⟩, hselected, hseen⟩ := Option.map_eq_some_iff.mp hshown
  obtain ⟨hindex, rfl⟩ := Prod.mk.inj hseen
  exact ⟨candidates, fallback, h, hselected, hindex, selectsFirstMatch_of_candidates stores h⟩

end Graph

end Provision
