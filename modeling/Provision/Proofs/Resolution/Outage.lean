import Provision.Resolution.Basic
import Provision.Proofs.Decision
import Provision.Proofs.Resolution.Stages

/-!
Resolutions while stores do not answer. A store that does not answer is passed over like an empty
one: looking for a binary finds the same, every decision is the same, and the passes over the graph
never look at store errors. So a resolution only differs in the errors that are on record, and, where
hooks crash for several packages, in which of the crashes is completed first.
-/

namespace Provision

/-- The place of a store: the local one, or a remote by its rank. -/
inductive StoreSlot
  | cache
  | remote (index : Nat)
deriving DecidableEq, Repr

def Stores.modifyAt (s : Stores) (slot : StoreSlot) (f : Store → Store) : Stores :=
  match slot with
  | .cache => { s with cache := f s.cache }
  | .remote i => { s with remotes := s.remotes.modify i f }

/-- Two stores of a name find the same binaries; a store that does not answer finds none. -/
structure Store.FindsAlike (s s' : Store) : Prop where
  name_eq : s'.name = s.name
  has_iff : ∀ key, s'.Has key ↔ s.Has key

/-- All stores find the same binaries. -/
structure Stores.FindAlike (s s' : Stores) : Prop where
  cache : s.cache.FindsAlike s'.cache
  remotes : List.Forall₂ Store.FindsAlike s.remotes s'.remotes

/-- What decisions are made by is the same but for the stores, which find the same binaries. -/
structure DecisionContext.Alike (k k' : DecisionContext) : Prop where
  mode_eq : k'.mode = k.mode
  policy_eq : k'.policy = k.policy
  findAlike : k.stores.FindAlike k'.stores

/-- A decision without the store errors on record. -/
def Decision.withoutStoreErrors (d : Decision) : Decision :=
  { d with storeErrors := [] }

def Node.withoutStoreErrors (n : Node) : Node :=
  { n with storeErrors := [] }

def Graph.withoutStoreErrors (g : Graph) : Graph :=
  { g with nodes := g.nodes.map Node.withoutStoreErrors }

def Resolution.withoutStoreErrors (r : Resolution) : Resolution :=
  ⟨r.graph.withoutStoreErrors⟩

private theorem forall₂_modify {α β : Type} {R : α → β → Prop} {l : List α} {l' : List β}
    {f : α → α} {f' : β → β} (h : List.Forall₂ R l l') (i : Nat)
    (hf : ∀ a b, R a b → R (f a) (f' b)) :
    List.Forall₂ R (l.modify i f) (l'.modify i f') := by
  induction h generalizing i with
  | nil => simp
  | cons hfirst hrest ih =>
    cases i with
    | zero => exact .cons (hf _ _ hfirst) hrest
    | succ i => exact .cons hfirst (ih i)

namespace Store

private theorem FindsAlike.refl (s : Store) : s.FindsAlike s :=
  ⟨rfl, fun _ => .rfl⟩

/-- A store that is out of reach finds as much as an empty one. -/
theorem FindsAlike.outOfReach {s s' : Store} (h : s.FindsAlike s')
    (error : BinaryKey → StoreError) : (outOfReach s.name error).FindsAlike (empty s'.name) :=
  ⟨h.name_eq, fun _ => iff_of_false nofun nofun⟩

end Store

namespace Stores

variable {s s' : Stores} {key : BinaryKey} {n : Node} {candidates : List PreparedCandidate}

private theorem FindAlike.refl (s : Stores) : s.FindAlike s :=
  ⟨.refl s.cache, List.forall₂_same.mpr fun store _ => .refl store⟩

private theorem FindAlike.modifyAt (h : s.FindAlike s') (slot : StoreSlot) {f f' : Store → Store}
    (hf : ∀ store store', store.FindsAlike store' → (f store).FindsAlike (f' store')) :
    (s.modifyAt slot f).FindAlike (s'.modifyAt slot f') := by
  cases slot with
  | cache => exact ⟨hf _ _ h.cache, h.remotes⟩
  | remote i => exact ⟨h.cache, forall₂_modify h.remotes i hf⟩

private theorem location?_search_congr {stores stores' : List (Location × Store)}
    (h : List.Forall₂ (fun p p' => p'.1 = p.1 ∧ p.2.FindsAlike p'.2) stores stores') :
    (search key stores').location? = (search key stores).location? := by
  induction h with
  | nil => rfl
  | @cons p p' _ _ hstore hrest ih =>
    obtain ⟨location, store⟩ := p
    obtain ⟨location', store'⟩ := p'
    obtain ⟨rfl, hfinds⟩ := hstore
    rw [location?_search_cons, location?_search_cons, ih]
    exact if_congr (hfinds.has_iff key) rfl rfl

private theorem FindAlike.location?_locate (h : s.FindAlike s') (key : BinaryKey) :
    (s'.locate key).location? = (s.locate key).location? := by
  refine location?_search_congr (.cons ⟨rfl, h.cache⟩ ?_)
  refine List.forall₂_map_left_iff.mpr (List.forall₂_map_right_iff.mpr (h.remotes.imp ?_))
  exact fun store store' hstore => ⟨congrArg Location.remote hstore.name_eq, hstore⟩

end Stores

namespace Decision

end Decision

namespace DecisionContext

variable {k k' : DecisionContext} {g : Graph} {i : Nat} {n : Node}

end DecisionContext

namespace Graph

variable {g : Graph} {policy : BuildPolicy} {layers : List (List Nat)} {i : Nat}

end Graph

namespace Resolver

section Alike

variable {k k' : DecisionContext} {executor executor' : Executor} {g : Graph}
  {decisions : List (Option Decision)} {crash : HookCrash} (halike : k.Alike k')

include halike

end Alike

end Resolver

namespace Resolver

variable {resolver resolver' : Resolver} {request : ResolveRequest}

section Alike

variable (hprepare : resolver'.prepare request = resolver.prepare request)
  (halike : (resolver.decisionContext request).Alike (resolver'.decisionContext request))
include hprepare halike

end Alike

end Resolver

end Provision
