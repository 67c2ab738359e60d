import Provision.Proofs.Graph.Arrows
import Provision.Proofs.Resolution.Invalidity

/-!
The events of a resolution that succeeds. What is told is determined by what the stages come to:
which packages reject themselves, leaves first; what stores answered and which candidates stand in,
node by node; which nodes became invalid through others; and at last every node as it ends, leaves
first, and the graph. Later passes rewrite nodes that have been told of, but nothing that was told.
-/

namespace Provision

section Telling

variable {α β ε : Type} {x : ResolveM α} {a : α} {b : β} {told told' : List Event}

/-- A computation succeeds with a value and tells some events, whatever was told before. -/
def Tells (x : ResolveM α) (a : α) (told : List Event) : Prop :=
  ∀ events, x.run events = .ok a (events ++ told)

private theorem tells_pure (a : α) : Tells (pure a) a [] := by
  intro events
  rw [List.append_nil]
  rfl

private theorem tells_tell (event : Event) : Tells (tell event) () [event] :=
  fun _ => rfl

private theorem tells_orFail (wrap : ε → ResolveError) {result : Except ε α} (h : result = .ok a) :
    Tells (orFail wrap result) a [] := by
  rw [h]
  exact tells_pure a

private theorem Tells.bind {f : α → ResolveM β} (hx : Tells x a told) (hf : Tells (f a) b told') :
    Tells (x >>= f) b (told ++ told') := by
  intro events
  have hfirst : x events = .ok a (events ++ told) := hx events
  have hrest : f a (events ++ told) = .ok b (events ++ told ++ told') := hf (events ++ told)
  change EStateM.bind x f events = _
  rw [EStateM.bind, hfirst, ← List.append_assoc]
  exact hrest

private theorem Tells.bind_pure (hx : Tells x a told) (k : α → β) :
    Tells (x >>= fun a => pure (k a)) (k a) told := by
  have hbind := hx.bind (f := fun a => pure (k a)) (tells_pure (k a))
  rwa [List.append_nil] at hbind

private theorem tells_forM {l : List α} {f : α → ResolveM PUnit} {told : α → List Event}
    (hf : ∀ a, Tells (f a) () (told a)) : Tells (l.forM f) () (l.flatMap told) := by
  induction l with
  | nil => exact tells_pure ()
  | cons a l ih =>
    rw [List.flatMap_cons]
    exact (hf a).bind ih

private theorem tells_mapM {l : List α} {f : α → ResolveM β} {k : α → β} {told : α → List Event}
    (hf : ∀ a, Tells (f a) (k a) (told a)) : Tells (l.mapM f) (l.map k) (l.flatMap told) := by
  induction l with
  | nil =>
    rw [List.mapM_nil]
    exact tells_pure []
  | cons a l ih =>
    rw [List.mapM_cons, List.flatMap_cons]
    exact (hf a).bind (ih.bind_pure (k a :: ·))

end Telling

def Node.invalidity? (n : Node) : Option (Reference × InvalidReason) :=
  n.invalid?.map (n.reference, ·)

def InvalidReason.isOwn : InvalidReason → Bool
  | .own _ => true
  | .dependency _ _ => false

def Node.outages (n : Node) : List (Reference × StoreError) :=
  n.storeErrors.map (n.reference, ·)

namespace Event

def ofInvalidity (told : Reference × InvalidReason) : Event :=
  .invalid told.1 told.2

def ofOutage (told : Reference × StoreError) : Event :=
  .storeUnavailable told.1 told.2

def invalidity? : Event → Option (Reference × InvalidReason)
  | .invalid r reason => some (r, reason)
  | _ => none

def outage? : Event → Option (Reference × StoreError)
  | .storeUnavailable r e => some (r, e)
  | _ => none

def resolved? : Event → Option NodeReport
  | .nodeResolved report => some report
  | _ => none

def graph? : Event → Option GraphReport
  | .graph report => some report
  | _ => none

end Event

/-- The events of a resolution that succeeds agree with its final graph. -/
structure Resolution.AgreesWith (r : Resolution) (events : List Event) : Prop where
  /-- One event for each node that is invalid in the end, with its final reason. -/
  invalid : (events.filterMap Event.invalidity?).Perm (r.graph.nodes.filterMap Node.invalidity?)
  /-- One event for each error of a store that a node ends with, node by node. -/
  unavailable : events.filterMap Event.outage? = r.graph.nodes.flatMap Node.outages
  /-- One event for each node, leaves first, with the report that the final graph has of it. -/
  resolved : ∃ layers, r.graph.layers = .ok layers ∧
    layers.flatten.Perm (List.range r.graph.size) ∧
      (events.filterMap Event.resolved?).map some = layers.flatten.map (r.graph.report.nodes[·]?)
  graph : events.filterMap Event.graph? = [r.graph.report]
  last : events.getLast? = some (.graph r.graph.report)

private theorem filterMap_range_bind {α β : Type} (l : List α) (f : α → Option β) :
    (List.range l.length).filterMap (fun i => l[i]?.bind f) = l.filterMap f := by
  have hnodes : (List.range l.length).map (l[·]?) = l.map some := by
    refine List.ext_getElem (by simp) fun i _ _ => ?_
    simp
  have hmap := List.filterMap_map (f := (l[·]?)) (g := (·.bind f)) (l := List.range l.length)
  rw [hnodes, List.filterMap_map] at hmap
  exact hmap.symm

namespace Resolver

variable {mode : IdentityMode} {g g' : Graph} {i : Nat} {n : Node}

def rejectionAt (g : Graph) (i : Nat) : List (Reference × InvalidReason) :=
  (g.nodes[i]?.bind Node.invalidity?).toList

def decisionEvents (n : Node) (d? : Option Decision) : List Event :=
  d?.elim [] fun d => d.storeErrors.map (.storeUnavailable n.reference) ++
    (d.fallback?.map (.fallback n.reference)).toList

def inheritance (n : Node) : List (Reference × InvalidReason) :=
  (n.invalidity?.filter (!·.2.isOwn)).toList

def reportAt (g : Graph) (i : Nat) : List NodeReport :=
  g.report.nodes[i]?.toList

private theorem tells_identifyAt (hfresh : ∀ n, g.nodes[i]? = some n → n.invalid? = none)
    (h : identifyIn mode g i = .ok g') :
    Tells (identifyAt mode g i) g' ((rejectionAt g' i).map .ofInvalidity) := by
  unfold identifyIn at h
  unfold identifyAt rejectionAt
  cases hn : g.nodes[i]? with
  | none =>
    rw [hn] at h
    cases h
    rw [hn]
    exact tells_pure g
  | some n =>
    have hnew := hfresh n hn
    rw [hn] at h
    dsimp only at h ⊢
    cases hrecipe : n.recipe? with
    | none =>
      rw [hrecipe] at h
      cases h
      simp only [hn, Option.bind_some, Node.invalidity?, hnew]
      exact tells_pure g
    | some recipe =>
      simp only [hrecipe, bind_eq_ok_iff] at h
      obtain ⟨⟨identity, reason?⟩, hidentify, h⟩ := h
      cases h
      rw [Graph.getElem?_modifyNode_self hn]
      simp only [Option.bind_some, Node.invalidity?, identifiedNode, hnew]
      refine (tells_orFail .hook hidentify).bind ?_
      cases reason? with
      | none => exact tells_pure _
      | some reason => exact (tells_tell _).bind (tells_pure _)

/-- Each visit of a node with nothing known about it tells what the node ends with. -/
theorem tells_identifyAll {order : List Nat} (hnodup : order.Nodup)
    (hfresh : ∀ i ∈ order, ∀ n, g.nodes[i]? = some n → n.invalid? = none)
    (h : order.foldlM (identifyIn mode) g = .ok g') :
    Tells (order.foldlM (identifyAt mode) g) g'
      ((order.flatMap (rejectionAt g')).map .ofInvalidity) := by
  induction order generalizing g with
  | nil =>
    cases h
    exact tells_pure _
  | cons i order ih =>
    rw [List.foldlM_cons, bind_eq_ok_iff] at h
    obtain ⟨g₁, hvisit, hrest⟩ := h
    obtain ⟨hi, hnodup⟩ := List.nodup_cons.mp hnodup
    have hdiffers := differsAt_identifyIn i g g₁ hvisit
    obtain ⟨-, -, hkept⟩ := (Graph.pass_foldlM hrest).frame differsAt_identifyIn
    have htold : rejectionAt g₁ i = rejectionAt g' i := by
      rw [rejectionAt, rejectionAt, hkept i hi]
    have hlater : ∀ j ∈ order, ∀ n, g₁.nodes[j]? = some n → n.invalid? = none := by
      intro j hj n hn
      rw [hdiffers.node_eq j fun heq => hi (heq ▸ hj)] at hn
      exact hfresh j (List.mem_cons_of_mem i hj) n hn
    rw [List.foldlM_cons, List.flatMap_cons, List.map_append, ← htold]
    exact (tells_identifyAt (hfresh i List.mem_cons_self) hvisit).bind (ih hnodup hlater hrest)

private theorem tells_applyDecision (n : Node) (d? : Option Decision) :
    Tells (applyDecision n d?) (settledNode n d?) (decisionEvents n d?) := by
  cases d? with
  | none => exact tells_pure n
  | some d =>
    have herrors := tells_forM (l := d.storeErrors)
      (f := fun e => tell (.storeUnavailable n.reference e)) fun e => tells_tell _
    rw [← List.map_eq_flatMap] at herrors
    refine herrors.bind ?_
    cases d.fallback? with
    | none => exact tells_pure _
    | some f => exact (tells_tell _).bind (tells_pure _)

private theorem filterMap_decisionEvents {γ : Type} {seen : Event → Option γ} {d? : Option Decision}
    (hfallback : ∀ r f, seen (.fallback r f) = none) :
    (decisionEvents n d?).filterMap seen =
      ((d?.elim [] (·.storeErrors)).map (n.reference, ·)).filterMap (seen ∘ .ofOutage) := by
  cases d? with
  | none => rfl
  | some d =>
    rw [decisionEvents, Option.elim_some, List.filterMap_append, List.filterMap_map,
      Option.elim_some, List.filterMap_map]
    cases d.fallback? with
    | none => exact List.append_nil _
    | some f =>
      simp only [Option.map_some, Option.toList_some, List.filterMap_cons, hfallback,
        List.filterMap_nil, List.append_nil]
      rfl

private theorem tells_tellInherited (n : Node) :
    Tells (tellInherited n) () ((inheritance n).map .ofInvalidity) := by
  unfold tellInherited inheritance Node.invalidity?
  cases n.invalid? with
  | none => exact tells_pure ()
  | some reason =>
    cases reason with
    | own message => exact tells_pure ()
    | dependency origin message => exact tells_tell _

private theorem tells_tellResolved (g : Graph) (i : Nat) :
    Tells (tellResolved g i) () ((reportAt g i).map .nodeResolved) := by
  unfold tellResolved reportAt
  rw [Graph.report, List.getElem?_mapIdx]
  cases g.nodes[i]? with
  | none => exact tells_pure ()
  | some n => exact tells_tell _

namespace Stages

variable {resolver : Resolver} {request : ResolveRequest} (s : Stages resolver request)

private theorem invalid?_configured {i : Nat} {n : Node} (hn : s.configured.nodes[i]? = some n) :
    n.invalid? = none := by
  have hi : i < s.built.size := s.configured_frame.2 ▸ Graph.lt_size_of_getElem? hn
  obtain ⟨h⟩ := s.exists_history hi
  obtain ⟨m, hconfigures, hm⟩ := exists_configured s.configure_eq h.built_eq
  obtain rfl : m = h.configured := Except.ok.inj (hconfigures.symm.trans h.configuresNode)
  obtain rfl := Option.some.inj (hm.symm.trans hn)
  exact h.configured_eq.2.2.1

def told : List Event :=
  let resolved := (s.layers.flatten.flatMap (reportAt s.final)).map .nodeResolved ++
    [.graph s.final.report]
  let inherited := (s.propagated.nodes.flatMap inheritance).map .ofInvalidity ++ resolved
  let decided := (s.identified.nodes.zip s.decisions).flatMap
    (fun (n, d?) => decisionEvents n d?) ++ inherited
  let identified := (s.layers.flatten.flatMap (rejectionAt s.identified)).map .ofInvalidity ++
    .phase "Computing necessary packages" :: decided
  .phase "Computing dependency graph" :: .phase "Computing package IDs" :: identified

private theorem tells_run : Tells (resolver.run request) ⟨s.final⟩ s.told := by
  have hfresh : ∀ i ∈ s.layers.flatten, ∀ n, s.configured.nodes[i]? = some n →
      n.invalid? = none := by
    intro i hi n hn
    exact s.invalid?_configured hn
  have hidentify := tells_identifyAll s.isLayering.nodup hfresh s.identify_eq
  have hdecide : Tells ((s.identified.nodes.zip s.decisions).mapM fun (n, d?) => applyDecision n d?)
      ((s.identified.nodes.zip s.decisions).map fun (n, d?) => settledNode n d?)
      ((s.identified.nodes.zip s.decisions).flatMap fun (n, d?) => decisionEvents n d?) :=
    tells_mapM fun (n, d?) => tells_applyDecision n d?
  have hinherit := tells_forM (l := s.propagated.nodes) tells_tellInherited
  have hresolve := tells_forM (l := s.layers.flatten) (tells_tellResolved s.final)
  rw [← List.map_flatMap] at hinherit hresolve
  unfold run
  refine (tells_tell _).bind ?_
  refine (tells_orFail .graph s.build_eq).bind ?_
  refine (tells_orFail .graph s.layers_eq).bind ?_
  refine (tells_orFail .option s.configure_eq).bind ?_
  refine (tells_tell _).bind ?_
  refine hidentify.bind ?_
  refine (tells_tell _).bind ?_
  refine (tells_orFail .hook s.decide_eq).bind ?_
  refine hdecide.bind ?_
  refine hinherit.bind ?_
  refine hresolve.bind ?_
  exact (tells_tell _).bind (tells_pure _)

namespace History

variable {s} (h : s.History i)

/-- A node that has been judged has a reason of its own or none. -/
theorem invalid?_identified :
    h.identified.invalid? = none ∨ ∃ message, h.identified.invalid? = some (.own message) := by
  cases hrecipe : h.final.recipe? with
  | none =>
    rw [(h.of_virtual hrecipe).1]
    exact .inl h.configured_eq.2.2.1
  | some recipe =>
    obtain ⟨verdict, -, -, hinvalid, -⟩ := h.of_package hrecipe
    rw [hinvalid]
    cases verdict with
    | valid => exact .inl rfl
    | invalid message => exact .inr ⟨message, rfl⟩

/-- What is told of a node when it is judged is its final reason, if that is its own. -/
theorem invalidity?_identified :
    h.identified.invalidity? = h.final.invalidity?.filter (·.2.isOwn) := by
  rw [Node.invalidity?, Node.invalidity?, h.sameIdentity.reference_eq]
  have hnever (hrejects : ∀ message, ¬s.final.Rejects i message) :
      h.identified.invalid? = none := by
    rcases h.invalid?_identified with hnone | ⟨message, hown⟩
    · exact hnone
    · exact absurd (h.rejects_iff.mpr hown) (hrejects message)
  cases h.endsAs with
  | virtual hrecipe hinvalid =>
    rw [hinvalid, (h.of_virtual hrecipe).1, h.configured_eq.2.2.1]
    rfl
  | rejected hrejects hinvalid =>
    rw [hinvalid, h.rejects_iff.mp hrejects]
    rfl
  | inherited hpackage hrejects hreason hinvalid =>
    obtain ⟨j, d, cause, -, -, -, -, hinherited⟩ := Graph.exists_of_inheritedReason? hreason
    rw [hinvalid, hnever hrejects, hinherited]
    cases cause <;> rfl
  | valid hrejects hreason hinvalid =>
    rw [hinvalid, hnever hrejects]
    rfl

/-- Nodes keep their reasons while others are skipped. -/
theorem invalidity?_propagated : h.propagated.invalidity? = h.final.invalidity? := by
  rw [h.skips, Node.invalidity?, Node.invalidity?, Node.invalid?_skippedIf,
    (Node.sameIdentity_skippedIf ..).reference_eq]

/-- A node ends with the errors of the stores that were asked when it was decided. -/
theorem storeErrors_final : h.final.storeErrors = h.decision?.elim [] (·.storeErrors) := by
  rw [h.skips, h.inherits, Node.storeErrors_skippedIf, Node.storeErrors_inheriting]
  cases hd : h.decision? with
  | some d => rfl
  | none =>
    cases hrecipe : h.final.recipe? with
    | none =>
      obtain ⟨requested, hrequested⟩ := exists_requested h.configuresNode
      have hnew := (s.isSound.entered i h.built h.built_eq).eq_new
      change h.identified.storeErrors = []
      rw [(h.of_virtual hrecipe).1, hrequested, hnew]
      rfl
    | some recipe =>
      obtain ⟨-, d, -, -, -, hsome, -⟩ := h.of_package hrecipe
      rw [hd] at hsome
      cases hsome

end History

/-- What lists of the size of the graph hold of every node, they hold of the final nodes. -/
theorem eq_map_final {β : Type} {l : List β} {part : Node → β} (hlength : l.length = s.built.size)
    (hat : ∀ i (h : s.History i), l[i]? = some (part h.final)) : l = s.final.nodes.map part := by
  refine List.ext_getElem? fun i => ?_
  rw [List.getElem?_map]
  by_cases hi : i < s.built.size
  · obtain ⟨h⟩ := s.exists_history hi
    rw [hat i h, h.final_eq]
    rfl
  · have hsize := s.final_frame.2
    unfold Graph.size at hlength hsize hi
    have hlist : l.length ≤ i := by omega
    have hnodes : s.final.nodes.length ≤ i := by omega
    rw [List.getElem?_eq_none hlist, List.getElem?_eq_none hnodes]
    rfl

private theorem invalidity_identified : s.identified.nodes.map Node.invalidity? =
    s.final.nodes.map fun n => n.invalidity?.filter (·.2.isOwn) := by
  refine s.eq_map_final ?_ fun i h => ?_
  · rw [List.length_map]
    exact s.identified_frame.2
  · rw [List.getElem?_map, h.identified_eq, Option.map_some, h.invalidity?_identified]

private theorem invalidity_propagated :
    s.propagated.nodes.map Node.invalidity? = s.final.nodes.map Node.invalidity? := by
  refine s.eq_map_final ?_ fun i h => ?_
  · rw [List.length_map]
    exact s.propagated_frame.2
  · rw [List.getElem?_map, h.propagated_eq, Option.map_some, h.invalidity?_propagated]

private theorem outages_decided : (s.identified.nodes.zip s.decisions).map (fun (n, d?) =>
    (d?.elim [] (·.storeErrors)).map (n.reference, ·)) = s.final.nodes.map Node.outages := by
  refine s.eq_map_final ?_ fun i h => ?_
  · have hlength := length_of_decideAll s.decide_eq
    have hsize : s.identified.nodes.length = s.built.size := s.identified_frame.2
    rw [List.length_map, List.length_zip, hlength, Nat.min_self, hsize]
  · have hzip : (s.identified.nodes.zip s.decisions)[i]? = some (h.identified, h.decision?) :=
      List.getElem?_zip_eq_some.mpr ⟨h.identified_eq, h.getElem?_decisions⟩
    rw [List.getElem?_map, hzip, Node.outages, h.storeErrors_final, h.sameIdentity.reference_eq]
    rfl

/-- The layers are those of the final graph as well. -/
theorem layers_final : s.final.layers = .ok s.layers := by
  have houtline : s.final.SameOutline s.built := by
    refine ⟨Eq.symm (s.eq_map_final (List.length_map _) fun i h => ?_), ?_⟩
    · rw [List.getElem?_map, h.built_eq, Option.map_some, h.reference_eq_built]
    · rw [Graph.arrows, Graph.arrows, s.final_frame.1]
  rw [houtline.layers_eq, s.layers_eq]

private theorem perm_layers : s.layers.flatten.Perm (List.range s.final.size) := by
  have hlayering := s.isLayering_of_frame s.final_frame
  refine (List.perm_ext_iff_of_nodup hlayering.nodup List.nodup_range).mpr fun i => ?_
  rw [hlayering.mem_iff, List.mem_range]

/-- What is seen of the events by who looks at phases and candidates that stand in at no time. -/
theorem filterMap_told {γ : Type} {seen : Event → Option γ}
    (hphase : ∀ title, seen (.phase title) = none)
    (hfallback : ∀ r f, seen (.fallback r f) = none) :
    s.told.filterMap seen =
      (s.layers.flatten.flatMap (rejectionAt s.identified)).filterMap (seen ∘ .ofInvalidity) ++
        ((s.final.nodes.flatMap Node.outages).filterMap (seen ∘ .ofOutage) ++
          ((s.propagated.nodes.flatMap inheritance).filterMap (seen ∘ .ofInvalidity) ++
            ((s.layers.flatten.flatMap (reportAt s.final)).filterMap (seen ∘ .nodeResolved) ++
              (seen (.graph s.final.report)).toList))) := by
  have houtages : (s.identified.nodes.zip s.decisions).flatMap (fun (n, d?) =>
      (d?.elim [] (·.storeErrors)).map (n.reference, ·)) = s.final.nodes.flatMap Node.outages := by
    rw [List.flatMap_def, s.outages_decided, ← List.flatMap_def]
  have hdecided : ((s.identified.nodes.zip s.decisions).flatMap
      fun (n, d?) => decisionEvents n d?).filterMap seen =
        (s.final.nodes.flatMap Node.outages).filterMap (seen ∘ .ofOutage) := by
    rw [← houtages, List.filterMap_flatMap, List.filterMap_flatMap]
    simp only [filterMap_decisionEvents hfallback]
  simp only [told, List.filterMap_cons, hphase, List.filterMap_append, List.filterMap_map, hdecided,
    List.filterMap_nil]
  cases seen (.graph s.final.report) <;> rfl

/-- Together, what is told of nodes that are judged and of nodes that take over a reason is the
final reason of each node that has one. -/
theorem perm_invalidity : (s.layers.flatten.flatMap (rejectionAt s.identified) ++
    s.propagated.nodes.flatMap inheritance).Perm (s.final.nodes.filterMap Node.invalidity?) := by
  have hidentified : s.identified.nodes.filterMap Node.invalidity? =
      (s.final.nodes.filterMap Node.invalidity?).filter (·.2.isOwn) := by
    have hmap := congrArg (List.filterMap id) s.invalidity_identified
    rwa [List.filterMap_map, List.filterMap_map, Function.id_comp, Function.id_comp,
      ← List.filter_filterMap] at hmap
  have hpropagated : s.propagated.nodes.filterMap Node.invalidity? =
      s.final.nodes.filterMap Node.invalidity? := by
    have hmap := congrArg (List.filterMap id) s.invalidity_propagated
    rwa [List.filterMap_map, List.filterMap_map, Function.id_comp] at hmap
  have hrejected : (s.layers.flatten.flatMap (rejectionAt s.identified)).Perm
      ((s.final.nodes.filterMap Node.invalidity?).filter (·.2.isOwn)) := by
    have hsize : s.final.size = s.identified.nodes.length :=
      s.final_frame.2.trans s.identified_frame.2.symm
    have hall := s.perm_layers.filterMap fun i => s.identified.nodes[i]?.bind Node.invalidity?
    rw [hsize, filterMap_range_bind, hidentified, List.filterMap_eq_flatMap_toList] at hall
    exact hall
  have hinherited : s.propagated.nodes.flatMap inheritance =
      (s.final.nodes.filterMap Node.invalidity?).filter (!·.2.isOwn) := by
    rw [← hpropagated, List.filter_filterMap, List.filterMap_eq_flatMap_toList]
    rfl
  rw [hinherited]
  exact (hrejected.append_right _).trans (List.filter_append_perm _ _)

/-- Every node that is told of in the end is reported as in the final graph. -/
theorem map_reportAt : (s.layers.flatten.flatMap (reportAt s.final)).map some =
    s.layers.flatten.map (s.final.report.nodes[·]?) := by
  have hreported : ∀ i ∈ s.layers.flatten, (reportAt s.final i).map some =
      [s.final.report.nodes[i]?] := by
    intro i hi
    have hlt : i < s.final.size := List.mem_range.mp (s.perm_layers.mem_iff.mp hi)
    obtain ⟨n, hn⟩ := Graph.exists_getElem?_of_lt_size hlt
    rw [reportAt, Graph.report, List.getElem?_mapIdx, hn]
    rfl
  rw [List.map_flatMap, List.map_eq_flatMap]
  exact List.flatMap_congr hreported

private theorem agreesWith_told : Resolution.AgreesWith ⟨s.final⟩ s.told where
  invalid := by
    have hseen : s.told.filterMap Event.invalidity? = s.layers.flatten.flatMap
        (rejectionAt s.identified) ++ s.propagated.nodes.flatMap inheritance := by
      rw [s.filterMap_told (fun _ => rfl) fun _ _ => rfl]
      simp [Function.comp_def, Event.invalidity?, Event.ofInvalidity, Event.ofOutage]
    rw [hseen]
    exact s.perm_invalidity
  unavailable := by
    rw [s.filterMap_told (fun _ => rfl) fun _ _ => rfl]
    simp [Function.comp_def, Event.outage?, Event.ofInvalidity, Event.ofOutage]
  resolved := by
    refine ⟨s.layers, s.layers_final, s.perm_layers, ?_⟩
    have hseen : s.told.filterMap Event.resolved? =
        s.layers.flatten.flatMap (reportAt s.final) := by
      rw [s.filterMap_told (fun _ => rfl) fun _ _ => rfl]
      simp [Function.comp_def, Event.resolved?, Event.ofInvalidity, Event.ofOutage]
    rw [hseen]
    exact s.map_reportAt
  graph := by
    rw [s.filterMap_told (fun _ => rfl) fun _ _ => rfl]
    simp [Function.comp_def, Event.graph?, Event.ofInvalidity, Event.ofOutage]
  last := by
    simp [told, List.getLast?_cons, List.getLast?_append]

end Stages

private theorem Stages.resolve_eq {resolver : Resolver} {request : ResolveRequest}
    (s : Stages resolver request) : resolver.resolve request = (.ok ⟨s.final⟩, s.told) := by
  rw [resolve, s.tells_run []]
  rfl

/-- Whenever a resolution succeeds, its events agree with its final graph: none is lost, repeated or
out of date. -/
theorem agreesWith_of_resolve {resolver : Resolver} {request : ResolveRequest} {r : Resolution}
    {events : List Event} (h : resolver.resolve request = (.ok r, events)) :
    r.AgreesWith events := by
  obtain ⟨s, -⟩ := resolve_eq_ok_iff.mp (congrArg Prod.fst h)
  obtain ⟨hr, hevents⟩ := Prod.mk.inj (s.resolve_eq.symm.trans h)
  cases hr
  cases hevents
  exact s.agreesWith_told

/-- A resolver for a package whose library rejects every configuration, with a remote that does not
answer. -/
def ofSilentMirror : Resolver :=
  let mirror := (MemoryStore.named "mirror").setOffline true
  { ofBrokenLibrary with stores := ⟨.empty "local", [mirror.toStore]⟩ }

theorem agreesWith_ofSilentMirror :
    let app : Requirement := ⟨.ofText "app", .exact (.ofText "1.0"), false, true⟩
    ∃ r events, ofSilentMirror.resolve ⟨.consumer [app], ∅, .never⟩ = (.ok r, events) ∧
      (events.filterMap Event.invalidity?).map (·.2.isOwn) = [true, false] ∧
      (events.filterMap Event.outage?).map (·.1.text) = ["app/1.0"] ∧
      (events.filterMap Event.resolved?).map (·.reference) =
        ["zlib/1.3.0", "app/1.0", "consumer/virtual"] ∧
      r.AgreesWith events := by
  intro app
  have hview : (ofSilentMirror.resolve ⟨.consumer [app], ∅, .never⟩).1.toOption.isSome = true ∧
      ((ofSilentMirror.resolve ⟨.consumer [app], ∅, .never⟩).2.filterMap Event.invalidity?).map
        (·.2.isOwn) = [true, false] ∧
      ((ofSilentMirror.resolve ⟨.consumer [app], ∅, .never⟩).2.filterMap Event.outage?).map
        (·.1.text) = ["app/1.0"] ∧
      ((ofSilentMirror.resolve ⟨.consumer [app], ∅, .never⟩).2.filterMap Event.resolved?).map
        (·.reference) = ["zlib/1.3.0", "app/1.0", "consumer/virtual"] := by decide +kernel
  obtain ⟨hok, hinvalid, houtage, hresolved⟩ := hview
  obtain ⟨r, hr⟩ := Option.isSome_iff_exists.mp hok
  cases h : ofSilentMirror.resolve ⟨.consumer [app], ∅, .never⟩ with
  | mk result events =>
    rw [h] at hr hinvalid houtage hresolved
    cases result with
    | error e => cases hr
    | ok r => exact ⟨r, events, rfl, hinvalid, houtage, hresolved, agreesWith_of_resolve h⟩

end Resolver

end Provision
