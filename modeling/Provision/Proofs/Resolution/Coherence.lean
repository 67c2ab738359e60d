import Provision.Proofs.Resolution.Plan

/-!
What the nodes of a resolution record about their binaries. A decision is coherent: it names a
remote just if the binary is to come from there, and a candidate only together with a binary.
Invalidity that moves up takes both back, and so keeps a node coherent. Skipping writes the status
alone, so that a node that is skipped still names the candidate and the remote of its decision.
-/

namespace Provision

/-- A candidate and a remote go with a status: the remote is there just if the binary is to be
downloaded, and the candidate only if there is a binary. -/
structure BinaryStatus.Fits (status : BinaryStatus) (fallback? : Option Fallback)
    (remote? : Option String) : Prop where
  remote_iff : remote?.isSome = true ↔ status = .download
  hasBinary_of_fallback : fallback?.isSome = true → status.hasBinary = true

private theorem BinaryStatus.fits_none {status : BinaryStatus} (h : status ≠ .download) :
    status.Fits none none where
  remote_iff := by simp [h]
  hasBinary_of_fallback := by simp

namespace Decision

variable {d : Decision}

def IsCoherent (d : Decision) : Prop :=
  d.status.Fits d.fallback? d.remote?

private theorem isCoherent_located (hremote : d.remote? = none) (location : Location) :
    (d.located location).IsCoherent := by
  cases location with
  | cache => exact ⟨by simp [located, hremote], fun _ => rfl⟩
  | remote name => exact ⟨by simp [located], fun _ => rfl⟩

private theorem IsCoherent.explored (h : d.IsCoherent) (exploration : Exploration) :
    (d.explored exploration).IsCoherent := by
  unfold Decision.explored
  dsimp only
  split
  · exact h
  · exact isCoherent_located rfl _

end Decision

namespace DecisionContext

variable {k : DecisionContext} {g : Graph} {i : Nat} {n : Node} {d d' : Decision}

private theorem isCoherent_of_rescue (h : k.rescue g i n d = .ok d') (hd : d.IsCoherent) :
    d'.IsCoherent := by
  obtain ⟨candidates, -, rfl⟩ := rescue_eq_ok_iff.mp h
  exact hd.explored _

theorem isCoherent_of_decide (h : k.decide g i n = .ok d) : d.IsCoherent := by
  have hplain {status : BinaryStatus} (hstatus : status ≠ .download) :
      (Decision.ofStatus status).IsCoherent := BinaryStatus.fits_none hstatus
  -- a decision starts with neither a candidate nor a remote, and only what is found adds them
  rcases decide_cases h with ⟨-, rfl⟩ | ⟨-, rfl | hrescue⟩ | ⟨id, -, -, hvalid⟩
  · exact hplain (by simp)
  · exact hplain (by simp)
  · exact isCoherent_of_rescue hrescue (hplain (by simp))
  · rcases decideValid_cases hvalid with ⟨location, before, -, -, hremote, rfl⟩ |
      ⟨-, hfallback, hremote, hstatus⟩ | ⟨before, hfallback, hremote, hstatus, hrescue⟩
    · exact Decision.isCoherent_located hremote location
    · rw [Decision.IsCoherent, hfallback, hremote, hstatus]
      exact BinaryStatus.fits_none (by simp)
    · refine isCoherent_of_rescue hrescue ?_
      rw [Decision.IsCoherent, hfallback, hremote, hstatus]
      exact BinaryStatus.fits_none (by simp)

end DecisionContext

def Node.IsCoherent (n : Node) : Prop :=
  n.status.Fits n.fallback? n.remote?

/-- What the nodes of a resolution record about their binaries, given what was decided about each
of them: all that are not skipped are coherent, and the others name what was decided for them. -/
structure Resolution.RecordsBinaries (r : Resolution) (decisions : List (Option Decision)) :
    Prop where
  coherent : ∀ (i : Nat) (n : Node), r.graph.nodes[i]? = some n → n.status ≠ .skip → n.IsCoherent
  skipped : ∀ (i : Nat) (n : Node), r.graph.nodes[i]? = some n → n.status = .skip →
    ∃ d?, decisions[i]? = some d? ∧ n.fallback? = d?.bind (·.fallback?) ∧
      n.remote? = d?.bind (·.remote?)
  decided : ∀ d, some d ∈ decisions → d.IsCoherent

namespace Resolver.Stages.History

variable {resolver : Resolver} {request : ResolveRequest} {s : Stages resolver request} {i : Nat}

/-- What is skipped has not become invalid before. -/
theorem propagated_eq_of_isSkipped (h : s.History i)
    (hskipped : s.final.isSkipped i h.propagated = true) :
    h.propagated = settledNode h.identified h.decision? := by
  have hinherits := h.inherits
  unfold Graph.isSkipped at hskipped
  split at hskipped
  · -- the root is skipped if it is virtual, and then takes over nothing
    rw [hinherits]
    apply Node.inheriting_of_virtual
    rwa [hinherits, Node.isVirtual, (Node.sameIdentity_inheriting ..).recipe_eq] at hskipped
  · -- any other node is skipped only if it is still valid
    rw [Bool.and_eq_true, Option.isNone_iff_eq_none] at hskipped
    rw [hinherits] at hskipped ⊢
    exact Node.inheriting_eq_of_valid hskipped.1

/-- A node ends with what was decided about its binary, unless invalidity has taken that back. What
is skipped loses the status only. -/
theorem binary_cases (h : s.History i) :
    (h.final.status? = h.decision?.map (·.status) ∧
      h.final.fallback? = h.decision?.bind (·.fallback?) ∧
      h.final.remote? = h.decision?.bind (·.remote?)) ∨
    (h.final.status? = some .invalid ∧ h.final.fallback? = none ∧ h.final.remote? = none) ∨
    (h.final.status? = some .skip ∧ h.final.fallback? = h.decision?.bind (·.fallback?) ∧
      h.final.remote? = h.decision?.bind (·.remote?)) := by
  obtain ⟨hstatus, hfallback, hremote⟩ := h.settledNode_binary
  rw [← hstatus, ← hfallback, ← hremote]
  rcases h.final_cases with hsame | hinvalid | ⟨hskip, hskipped⟩
  · exact .inl ⟨hsame.status_eq, hsame.fallback_eq, hsame.remote_eq⟩
  · exact .inr (.inl hinvalid)
  · refine .inr (.inr ⟨hskip, ?_, ?_⟩)
    · rw [← h.propagated_eq_of_isSkipped hskipped, h.skips, Node.fallback?_skippedIf]
    · rw [← h.propagated_eq_of_isSkipped hskipped, h.skips, Node.remote?_skippedIf]

private theorem isCoherent_final (h : s.History i) (hbusy : h.final.status ≠ .skip) :
    h.final.IsCoherent := by
  rw [Node.status] at hbusy
  rw [Node.IsCoherent, Node.status]
  rcases h.binary_cases with hdecided | hinvalid | ⟨hskip, -⟩
  · obtain ⟨hstatus, hfallback, hremote⟩ := hdecided
    rw [hstatus, hfallback, hremote]
    cases hd : h.decision? with
    | none => exact BinaryStatus.fits_none (by simp)
    | some d => exact DecisionContext.isCoherent_of_decide (h.decide_eq_of_decision hd)
  · obtain ⟨hstatus, hfallback, hremote⟩ := hinvalid
    rw [hstatus, hfallback, hremote]
    exact BinaryStatus.fits_none (by simp)
  · rw [hskip] at hbusy
    exact absurd rfl hbusy

private theorem binary_of_skip (h : s.History i) (hskip : h.final.status = .skip) :
    h.final.fallback? = h.decision?.bind (·.fallback?) ∧
      h.final.remote? = h.decision?.bind (·.remote?) := by
  rcases h.binary_cases with ⟨-, hbinary⟩ | ⟨hinvalid, -⟩ | ⟨-, hbinary⟩
  · exact hbinary
  · rw [Node.status, hinvalid] at hskip
    cases hskip
  · exact hbinary

end Resolver.Stages.History

/-- In every resolution that succeeds, the nodes that are not skipped are coherent; those that are
skipped keep what was decided about their binaries. -/
theorem Resolver.recordsBinaries_of_resolve {resolver : Resolver} {request : ResolveRequest}
    {r : Resolution} (h : (resolver.resolve request).1 = .ok r) :
    ∃ decisions, resolver.decisions request = .ok decisions ∧ r.RecordsBinaries decisions := by
  obtain ⟨s, hfinal⟩ := resolve_eq_ok_iff.mp h
  refine ⟨s.decisions, s.decisions_eq, ?_, ?_, ?_⟩
  · intro i n hn hbusy
    obtain ⟨hi, rfl⟩ := s.history_of_final (hfinal ▸ hn)
    exact hi.isCoherent_final hbusy
  · intro i n hn hskip
    obtain ⟨hi, rfl⟩ := s.history_of_final (hfinal ▸ hn)
    exact ⟨hi.decision?, hi.getElem?_decisions, hi.binary_of_skip hskip⟩
  · intro d hd
    obtain ⟨i, hi⟩ := List.mem_iff_getElem?.mp hd
    obtain ⟨hhistory, hdecision⟩ := s.history_of_decisions hi
    exact DecisionContext.isCoherent_of_decide (hhistory.decide_eq_of_decision hdecision)

/-- A resolver for a library with a tool that only its build needs. The library has a binary, and a
remote has the tool as a candidate of it is identified. -/
def Resolver.ofBuildTool : Resolver where
  catalog := .ofIndex <|
    (RecipeIndex.empty.upsert ⟨.ofTexts "cmake" "3.28", [], ∅, [], { Hooks.none with
      compatibility? := some fun _ => .ok [⟨[], [("shared", "True")]⟩] }⟩).upsert
      ⟨.ofTexts "lib" "1.0", [], ∅, [⟨.ofText "cmake", .exact (.ofText "3.28"), false, false⟩],
        .none⟩
  stores := ⟨.holding "local" [⟨.ofTexts "lib" "1.0",
      "82ea97d4693aa3f0408eb5def6485cb6982c97b83c902288bce1aa2e96a65e7d"⟩],
    [.holding "mirror" [⟨.ofTexts "cmake" "3.28",
      "aa26152c3ef3b5d877abf17761bf3d7141329f399d1a511cbc9daea2a183dae8"⟩]]⟩
  config := .default

theorem Resolver.recordsBinaries_ofBuildTool :
    ∃ r decisions, (ofBuildTool.resolve
        ⟨.package (.ofTexts "lib" "1.0"), ∅, .never⟩).1 = .ok r ∧
      r.graph.nodes.map (·.status?) = [some .cache, some .skip] ∧
      ofBuildTool.decisions ⟨.package (.ofTexts "lib" "1.0"), ∅, .never⟩ = .ok decisions ∧
      r.RecordsBinaries decisions := by
  have hview : (ofBuildTool.resolve
      ⟨.package (.ofTexts "lib" "1.0"), ∅, .never⟩).1.toOption.map (fun r =>
        r.graph.nodes.map (·.status?)) = some [some .cache, some .skip] := by decide +kernel
  obtain ⟨r, h, hstatuses⟩ := exists_ok_of_map_toOption hview
  obtain ⟨decisions, hdecisions, hrecords⟩ := recordsBinaries_of_resolve h
  exact ⟨r, decisions, h, hstatuses, hdecisions, hrecords⟩

/-- Skipped nodes are not coherent: the tool, which nobody needs, still names the remote and the
candidate that it would have been downloaded from and as. -/
theorem Resolver.not_isCoherent_ofBuildTool :
    ∃ r n, (ofBuildTool.resolve ⟨.package (.ofTexts "lib" "1.0"), ∅, .never⟩).1 = .ok r ∧
      r.graph.nodes[1]? = some n ∧ n.status? = some .skip ∧ n.remote? = some "mirror" ∧
      n.fallback?.map (·.candidateIndex) = some 0 ∧ ¬n.IsCoherent := by
  have hview : (ofBuildTool.resolve
      ⟨.package (.ofTexts "lib" "1.0"), ∅, .never⟩).1.toOption.map (fun r =>
        r.graph.nodes[1]?.map fun n =>
          (n.status?, n.remote?, n.fallback?.map (·.candidateIndex))) =
      some (some (some .skip, some "mirror", some 0)) := by decide +kernel
  obtain ⟨r, h, hshown⟩ := exists_ok_of_map_toOption hview
  obtain ⟨n, hn, hnode⟩ := Option.map_eq_some_iff.mp hshown
  simp only [Prod.mk.injEq] at hnode
  obtain ⟨hskip, hremote, hindex⟩ := hnode
  refine ⟨r, n, h, hn, hskip, hremote, hindex, fun hcoherent => ?_⟩
  have hdownload : n.status = .download := hcoherent.remote_iff.mp (by rw [hremote]; rfl)
  rw [Node.status, hskip] at hdownload
  cases hdownload

end Provision
