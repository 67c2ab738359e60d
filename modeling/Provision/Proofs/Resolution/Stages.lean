import Provision.Proofs.Graph.Pass
import Provision.Resolution.Basic

/-!
Resolutions without their events. Telling events never changes what a resolution ends with, so that
a resolution is a chain of stages: the graph that is built and layered, then configured, then
identified, then decided, and last the two passes that move invalidity and skip nodes.
-/

namespace Provision

section Ending

variable {α β ε : Type} {x : ResolveM α} {result : Except ResolveError α}

/-- What a computation ends with, whatever was told. -/
def ending : EStateM.Result ResolveError (List Event) α → Except ResolveError α
  | .ok a _ => .ok a
  | .error e _ => .error e

/-- A computation ends with a result, whatever was told before it. -/
def Gives (x : ResolveM α) (result : Except ResolveError α) : Prop :=
  ∀ events, ending (x.run events) = result

private theorem gives_pure (a : α) : Gives (pure a) (.ok a) :=
  fun _ => rfl

private theorem gives_tell (event : Event) : Gives (tell event) (.ok ()) :=
  fun _ => rfl

private theorem gives_orFail (wrap : ε → ResolveError) (result : Except ε α) :
    Gives (orFail wrap result) (result.mapError wrap) := by
  intro events
  cases result <;> rfl

private theorem Gives.bind
    {f : α → ResolveM β} {k : α → Except ResolveError β} (hx : Gives x result)
    (hf : ∀ a, Gives (f a) (k a)) : Gives (x >>= f) (result >>= k) := by
  intro events
  have hresult := hx events
  change ending (EStateM.bind x f events) = _
  unfold EStateM.bind
  unfold EStateM.run at hresult
  cases hrun : x events with
  | ok a later =>
    rw [hrun] at hresult
    rw [← hresult]
    exact hf a later
  | error e later =>
    rw [hrun] at hresult
    rw [← hresult]
    rfl

private theorem Gives.andThen {a : α} {f : α → ResolveM β} {result : Except ResolveError β}
    (hx : Gives x (.ok a)) (hf : Gives (f a) result) : Gives (x >>= f) result := by
  intro events
  have hvalue := hx events
  change ending (EStateM.bind x f events) = _
  unfold EStateM.bind
  unfold EStateM.run at hvalue
  cases hrun : x events with
  | ok b later =>
    rw [hrun] at hvalue
    cases hvalue
    exact hf later
  | error e later =>
    rw [hrun] at hvalue
    cases hvalue

private theorem gives_forM {l : List α} {f : α → ResolveM PUnit} (hf : ∀ a, Gives (f a) (.ok ())) :
    Gives (l.forM f) (.ok ()) := by
  induction l with
  | nil => exact gives_pure ()
  | cons a l ih => exact (hf a).andThen ih

private theorem gives_mapM {l : List α} {f : α → ResolveM β} {k : α → β}
    (hf : ∀ a, Gives (f a) (.ok (k a))) : Gives (l.mapM f) (.ok (l.map k)) := by
  induction l with
  | nil =>
    rw [List.mapM_nil]
    exact gives_pure []
  | cons a l ih =>
    rw [List.mapM_cons]
    exact (hf a).bind fun b => ih.bind fun bs => gives_pure (b :: bs)

private theorem gives_foldlM {l : List α} {f : β → α → ResolveM β} {k : β → α → Except ε β}
    {wrap : ε → ResolveError} (hf : ∀ b a, Gives (f b a) ((k b a).mapError wrap)) (b : β) :
    Gives (l.foldlM f b) ((l.foldlM k b).mapError wrap) := by
  induction l generalizing b with
  | nil => exact gives_pure b
  | cons a l ih =>
    rw [List.foldlM_cons, List.foldlM_cons]
    have hstep := (hf b a).bind ih
    cases hk : k b a with
    | ok b' =>
      rw [hk] at hstep
      exact hstep
    | error e =>
      rw [hk] at hstep
      exact hstep

end Ending

namespace Resolver

section Deciding

variable {executor : Executor} {k : DecisionContext} {g : Graph}
  {decisions : List (Option Decision)} {crash : HookCrash}

private theorem map_decideAt_of_decideAll (h : decideAll executor k g = .ok decisions) :
    (List.range g.size).map (decideAt k g) = decisions.map .ok := by
  obtain ⟨completed, hcompleted, hlisted⟩ := bind_eq_ok_iff.mp h
  cases hlisted
  rw [List.map_map]
  refine List.map_congr_left fun i hi => ?_
  obtain ⟨d?, hlookup, hdecide⟩ :=
    exists_lookup_of_mapM_ok hcompleted ((executor.perm k g).mem_iff.mpr hi)
  rw [Function.comp_apply, hlookup, hdecide]
  rfl

theorem length_of_decideAll (h : decideAll executor k g = .ok decisions) :
    decisions.length = g.nodes.length := by
  have hlength := congrArg List.length (map_decideAt_of_decideAll h)
  rw [List.length_map, List.length_map, List.length_range] at hlength
  exact hlength.symm

/-- Whether the decisions succeed does not depend on the order in which they are completed. -/
theorem exists_decideAll_iff :
    (∃ decisions, decideAll executor k g = .ok decisions) ↔
      ∀ i ∈ List.range g.size, ∃ d?, decideAt k g i = .ok d? := by
  constructor
  · rintro ⟨decisions, h⟩ i hi
    have hmem := List.mem_map_of_mem (f := decideAt k g) hi
    rw [map_decideAt_of_decideAll h] at hmem
    obtain ⟨d?, -, hdecide⟩ := List.mem_map.mp hmem
    exact ⟨d?, hdecide.symm⟩
  · intro h
    obtain ⟨completed, hcompleted⟩ : ∃ completed,
        (executor.order k g).mapM (fun i => (i, ·) <$> decideAt k g i) = .ok completed := by
      refine exists_mapM_ok fun i hi => ?_
      obtain ⟨d?, hdecide⟩ := h i ((executor.perm k g).mem_iff.mp hi)
      exact ⟨(i, d?), by rw [hdecide]; rfl⟩
    exact ⟨_, bind_eq_ok_iff.mpr ⟨completed, hcompleted, rfl⟩⟩

/-- What is decided does not depend on the order in which the decisions are completed. -/
theorem decideAll_eq_ok_iff :
    decideAll executor k g = .ok decisions ↔
      (List.range g.size).map (decideAt k g) = decisions.map .ok := by
  refine ⟨map_decideAt_of_decideAll, fun h => ?_⟩
  obtain ⟨decisions', h'⟩ : ∃ decisions', decideAll executor k g = .ok decisions' := by
    refine exists_decideAll_iff.mpr fun i hi => ?_
    have hmem := List.mem_map_of_mem (f := decideAt k g) hi
    rw [h] at hmem
    obtain ⟨d?, -, hdecide⟩ := List.mem_map.mp hmem
    exact ⟨d?, hdecide.symm⟩
  rw [map_decideAt_of_decideAll h'] at h
  rw [h', List.map_injective_iff.mpr (fun _ _ => Except.ok.inj) h]

end Deciding

/-- The visit of a node that gives it its identity, without events. -/
def identifyIn (mode : IdentityMode) (g : Graph) (i : Nat) : Except HookCrash Graph :=
  match g.nodes[i]? with
  | none => .ok g
  | some n =>
    match n.recipe? with
    | none => .ok g
    | some recipe => do
      let (identity, reason?) ← identifyNode mode g i n recipe
      return g.modifyNode i (identifiedNode identity reason?)

/-- A node with what is decided about it, if anything is. -/
def settledNode (n : Node) (d? : Option Decision) : Node :=
  d?.elim n (decidedNode n)

private theorem gives_identifyAt (mode : IdentityMode) (g : Graph) (i : Nat) :
    Gives (identifyAt mode g i) ((identifyIn mode g i).mapError .hook) := by
  unfold identifyAt identifyIn
  cases g.nodes[i]? with
  | none => exact gives_pure g
  | some n =>
    dsimp only
    cases n.recipe? with
    | none => exact gives_pure g
    | some recipe =>
      dsimp only
      cases identifyNode mode g i n recipe with
      | error e => exact fun _ => rfl
      | ok result =>
        obtain ⟨identity, reason?⟩ := result
        cases reason? with
        | none => exact gives_pure _
        | some reason =>
          refine (gives_orFail .hook (.ok (identity, some reason))).andThen ?_
          exact (gives_tell _).andThen (gives_pure _)

private theorem gives_applyDecision (n : Node) (d? : Option Decision) :
    Gives (applyDecision n d?) (.ok (settledNode n d?)) := by
  cases d? with
  | none => exact gives_pure n
  | some d =>
    refine (gives_forM fun e => gives_tell _).andThen ?_
    cases d.fallback? with
    | none => exact gives_pure _
    | some f => exact (gives_tell _).andThen (gives_pure _)

private theorem gives_tellInherited (n : Node) : Gives (tellInherited n) (.ok ()) := by
  unfold tellInherited
  split
  · exact gives_tell _
  · exact gives_pure ()

private theorem gives_tellResolved (g : Graph) (i : Nat) : Gives (tellResolved g i) (.ok ()) := by
  unfold tellResolved
  split
  · exact gives_tell _
  · exact gives_pure ()

def enter (g : Graph) (decisions : List (Option Decision)) : Graph :=
  { g with nodes := (g.nodes.zip decisions).map fun (n, d?) => settledNode n d? }

/-- What the packages of a request are decided by. -/
def decisionContext (resolver : Resolver) (request : ResolveRequest) : DecisionContext :=
  ⟨resolver.stores, request.policy, resolver.config.mode⟩

/-- What is decided for a request: its layers, and the graph of its packages with their
identities. -/
def prepare (resolver : Resolver) (request : ResolveRequest) :
    Except ResolveError (List (List Nat) × Graph) := do
  let built ← (resolver.catalog.build request.root).mapError .graph
  let layers ← built.layers.mapError .graph
  let configured ← (configure request.profile built).mapError .option
  let identified ←
    (layers.flatten.foldlM (identifyIn resolver.config.mode) configured).mapError .hook
  return (layers, identified)

/-- A resolution without events. -/
def answer (resolver : Resolver) (request : ResolveRequest) : Except ResolveError Resolution := do
  let (layers, identified) ← resolver.prepare request
  let decisions ← (decideAll resolver.executor (resolver.decisionContext request)
    identified).mapError .hook
  let decided := enter identified decisions
  return ⟨(decided.propagateInvalid request.policy layers).markSkipped layers⟩

/-- What a resolution decides about each node by itself, before invalidity moves and nodes are
skipped. -/
def decisions (resolver : Resolver) (request : ResolveRequest) :
    Except ResolveError (List (Option Decision)) := do
  let (_, identified) ← resolver.prepare request
  (decideAll resolver.executor (resolver.decisionContext request) identified).mapError .hook

private theorem gives_run (resolver : Resolver) (request : ResolveRequest) :
    Gives (resolver.run request) (resolver.answer request) := by
  unfold run answer prepare
  simp only [bind_assoc, pure_bind]
  refine (gives_tell _).andThen ?_
  refine (gives_orFail _ _).bind fun built => ?_
  refine (gives_orFail _ _).bind fun layers => ?_
  refine (gives_orFail _ _).bind fun configured => ?_
  refine (gives_tell _).andThen ?_
  refine (gives_foldlM (gives_identifyAt _) _).bind fun identified => ?_
  refine (gives_tell _).andThen ?_
  refine (gives_orFail _ _).bind fun decisions => ?_
  have hnodes := gives_mapM (l := identified.nodes.zip decisions)
    (f := fun (n, d?) => applyDecision n d?) (k := fun (n, d?) => settledNode n d?)
    fun (n, d?) => gives_applyDecision n d?
  refine hnodes.andThen ?_
  refine (gives_forM gives_tellInherited).andThen ?_
  refine (gives_forM fun i => gives_tellResolved _ i).andThen ?_
  exact (gives_tell _).andThen (gives_pure _)

theorem resolve_eq_answer (resolver : Resolver) (request : ResolveRequest) :
    (resolver.resolve request).1 = resolver.answer request := by
  rw [← gives_run resolver request [], resolve]
  cases (resolver.run request).run [] <;> rfl

/-- What a resolution that succeeds goes through. -/
structure Stages (resolver : Resolver) (request : ResolveRequest) where
  built : Graph
  layers : List (List Nat)
  configured : Graph
  identified : Graph
  decisions : List (Option Decision)
  build_eq : resolver.catalog.build request.root = .ok built
  layers_eq : built.layers = .ok layers
  configure_eq : configure request.profile built = .ok configured
  identify_eq : layers.flatten.foldlM (identifyIn resolver.config.mode) configured = .ok identified
  decide_eq : decideAll resolver.executor (resolver.decisionContext request) identified =
    .ok decisions

namespace Stages

variable {resolver : Resolver} {request : ResolveRequest}

def decided (s : Stages resolver request) : Graph :=
  enter s.identified s.decisions

def propagated (s : Stages resolver request) : Graph :=
  s.decided.propagateInvalid request.policy s.layers

def final (s : Stages resolver request) : Graph :=
  s.propagated.markSkipped s.layers

theorem decisions_eq (s : Stages resolver request) :
    resolver.decisions request = .ok s.decisions := by
  simp only [Resolver.decisions, prepare, bind_assoc, pure_bind, bind_eq_ok_iff,
    mapError_eq_ok_iff]
  exact ⟨s.built, s.build_eq, s.layers, s.layers_eq, s.configured, s.configure_eq, s.identified,
    s.identify_eq, s.decide_eq⟩

end Stages

/-- Resolutions that succeed are those that go through all stages. -/
theorem resolve_eq_ok_iff {resolver : Resolver} {request : ResolveRequest} {r : Resolution} :
    (resolver.resolve request).1 = .ok r ↔
      ∃ s : Stages resolver request, s.final = r.graph := by
  simp only [resolve_eq_answer, answer, prepare, bind_assoc, pure_bind, bind_eq_ok_iff,
    mapError_eq_ok_iff]
  constructor
  · rintro ⟨built, hbuild, layers, hlayers, configured, hconfigure, identified, hidentify,
      decisions, hdecide, hfinal⟩
    exact ⟨⟨built, layers, configured, identified, decisions, hbuild, hlayers, hconfigure,
      hidentify, hdecide⟩, congrArg Resolution.graph (Except.ok.inj hfinal)⟩
  · rintro ⟨s, hfinal⟩
    refine ⟨s.built, s.build_eq, s.layers, s.layers_eq, s.configured, s.configure_eq,
      s.identified, s.identify_eq, s.decisions, s.decide_eq, ?_⟩
    cases r
    exact congrArg (Except.ok ∘ Resolution.mk) hfinal

end Resolver

end Provision
