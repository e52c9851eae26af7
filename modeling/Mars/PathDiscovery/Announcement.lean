import Mars.PathDiscovery.Consistency

/-!
Node convergence is never announced early.

`convergedUpstreamNode` holds the valid faces whose node convergence is still awaited.
It is made once, as the set of all valid faces, and from then on it loses a face together
with `validUpstreams`, or because the face has reported.  So a valid face that is not
awaited has reported (`Awaiting`), and when no face is awaited all have.

* `Awaiting.interest`, `Awaiting.nack`, `Awaiting.data`: the handlers keep `Awaiting`, the
  report of a face included;
* `awaiting_prefixRun`: it holds after every run, with the reports since initialization;
* `nodeConverged_not_early`: a Data packet sent on with `NodeConverged` set is backed by a
  report of every valid face.
-/

namespace Mars

open Outcome

/-- Every valid face is awaited or has reported; before initialization no face is valid. -/
structure Awaiting (reported : Face → Prop) (info : PathDiscoveryInfo) : Prop where
  awaited : ∀ g ∈ info.validUpstreams, g ∈ info.convergedUpstreamNode ∨ reported g
  fresh : info.isInitialized = false → info.validUpstreams = ∅

variable {reported : Face → Prop} {info : PathDiscoveryInfo} {inFace : Face} {tierConverged : Bool}
  {inRecords : List Face}

lemma awaiting_new {key : Str} : Awaiting reported (.new key) where
  awaited g hg := by simp [PathDiscoveryInfo.new] at hg
  fresh _ := rfl

section

variable (h : Awaiting reported info)
include h

/-- Faces may leave both sets together. -/
lemma Awaiting.sdiff {info' : PathDiscoveryInfo}
    {faces : Finset Face} (hval : info'.validUpstreams = info.validUpstreams \ faces)
    (hnode : info'.convergedUpstreamNode = info.convergedUpstreamNode \ faces)
    (hinit : info'.isInitialized = info.isInitialized) : Awaiting reported info' where
  awaited g hg := by
    rw [hval] at hg
    obtain ⟨hg, hkept⟩ := Finset.mem_sdiff.mp hg
    rw [hnode]
    exact (h.awaited g hg).imp_left fun hmem => Finset.mem_sdiff.mpr ⟨hmem, hkept⟩
  fresh hnot := by
    rw [hval, h.fresh (hinit ▸ hnot), Finset.empty_sdiff]

lemma Awaiting.mono {reported' : Face → Prop}
    (hsub : ∀ g, reported g → reported' g) : Awaiting reported' info where
  awaited g hg := (h.awaited g hg).imp_right (hsub g)
  fresh := h.fresh

/-! ### The handlers -/

lemma Awaiting.excludeFace {face : Face} : Awaiting reported (excludeFace info face) :=
  h.sdiff (Finset.erase_eq _ _) (Finset.erase_eq _ _) rfl

lemma Awaiting.localNodeConverged :
    (localNodeConverged info).Ensures (Awaiting reported) (Awaiting reported) fun _ => True :=
  ensures_localNodeConverged (fun _ => h) (fun _ => { h with }) fun _ => trivial

lemma Awaiting.checkCurrentTier :
    (checkCurrentTier info).Ensures (Awaiting reported) (Awaiting reported) fun _ => True := by
  have hclear : Awaiting reported (clearUpperTiers info) := h.sdiff rfl rfl rfl
  exact ensures_checkCurrentTier (fun _ => h) (fun _ => trivial) fun _ => hclear.localNodeConverged

lemma Awaiting.probeTier (node : Str) (tierIndex : ℕ) :
    (probeTier node info tierIndex).Ensures (Awaiting reported) (Awaiting reported)
      fun _ => True := by
  have hprobed : Awaiting reported (probeFaces info tierIndex) := by
    rw [probeFaces_eq]
    exact { h with }
  exact ensures_probeTier (fun _ => h) (fun _ _ => hprobed) fun _ _ => hprobed.localNodeConverged

lemma Awaiting.foldl_removeTier {is : List ℕ} : Awaiting reported (is.foldl removeTier info) := by
  induction is generalizing info with
  | nil => exact h
  | cons i is ih => exact ih (h.sdiff rfl rfl rfl)

omit h in
/-- At the start every valid face is awaited. -/
lemma awaiting_firstTiers (reported : Face → Prop) (info : PathDiscoveryInfo) (probeIdx : ℤ)
    (nexthops : List (Option FibNextHopEntry)) :
    Awaiting reported (firstTiers info probeIdx nexthops) := by
  refine Awaiting.foldl_removeTier ?_
  exact { awaited := fun g hg => Or.inl hg, fresh := fun hnot => by cases hnot }

lemma Awaiting.advanceProbe (node : Str) (probeIdx : ℤ)
    (nexthops : List (Option FibNextHopEntry)) :
    (advanceProbe node info probeIdx nexthops).Ensures (Awaiting reported) (Awaiting reported)
      fun _ => True := by
  have hrefresh : Awaiting reported (refreshPathDiscoverySnapshot info nexthops) := by
    by_cases hne : snapshotNexthops nexthops = []
    · rwa [refresh_of_nil hne]
    · rw [refresh_eq hne]
      exact h.sdiff rfl rfl rfl
  have hnext : Awaiting reported (nextTier info probeIdx nexthops) := { hrefresh with }
  exact ensures_advanceProbe (fun _ _ => hrefresh) (fun _ _ => hnext.probeTier node _)
    (fun _ => h) fun _ => h

omit h in
lemma keeps_awaiting : PdKeeps (Awaiting reported) where
  marks h _ _ _ _ _ := { h with }
  exclude h _ := h.excludeFace
  countTier h _ := { h with }
  converge h := h.localNodeConverged
  checkTier h := h.checkCurrentTier

lemma Awaiting.interest {node srcNode : Str} {probeIdx : ℤ}
    {nexthops : List (Option FibNextHopEntry)} :
    (pathDiscoveryInterest node info srcNode probeIdx inFace nexthops).Ensures
      (Awaiting reported) (Awaiting reported) fun _ => True := by
  refine keeps_awaiting.interest h (P := Awaiting reported) (fun _ _ => ?_) (fun _ hs => hs)
    fun _ hs _ => hs.advanceProbe node probeIdx nexthops
  refine ensures_initializeDiscovery (fun _ => h) fun _ => ?_
  have hfirst := (awaiting_firstTiers reported info probeIdx nexthops).probeTier node
    (firstTiers info probeIdx nexthops).currentTier
  exact hfirst.mono (fun s hs => { hs with }) (fun _ hs => hs) fun _ _ => trivial

/-- A face that reports need not be awaited any more; before initialization the report
has no effect. -/
lemma Awaiting.reportNode :
    Awaiting (fun g => reported g ∨ (g = inFace ∧ info.isInitialized = true))
      (Mars.reportNode info inFace) where
  awaited g hg := by
    cases hinit : info.isInitialized with
    | false =>
      rw [show (Mars.reportNode info inFace).validUpstreams = ∅ from h.fresh hinit] at hg
      cases hg
    | true =>
      by_cases hface : g = inFace
      · exact Or.inr (Or.inr ⟨hface, rfl⟩)
      · exact (h.awaited g hg).imp (fun hmem => Finset.mem_erase.mpr ⟨hface, hmem⟩) Or.inl
  fresh := h.fresh

end

/-! ### The Data handler -/

/-- The tier part goes on to the node part, leaves the initialization alone and sends
nothing. -/
lemma processTier_spec (info : PathDiscoveryInfo) (inFace : Face) (tierConverged : Bool) :
    (processTier info inFace tierConverged).Ensures
      (fun s => s.isInitialized = info.isInitialized) (fun _ => False) fun a => ¬a.IsSend := by
  have hcount : (countOffTier info inFace).isInitialized = info.isInitialized := by
    unfold countOffTier
    split <;> rfl
  refine ensures_processTier (fun _ => rfl) (fun _ => hcount) fun _ _ _ => ?_
  exact ensures_localNodeConverged (fun _ => hcount) (fun _ => hcount) fun _ hsend => hsend

lemma pathDiscoveryData_state (node : Str) (info : PathDiscoveryInfo) (inFace : Face)
    (tierConverged nodeConverged : Bool) (inRecords : List Face) :
    (pathDiscoveryData node info inFace tierConverged nodeConverged inRecords).state
      = processNode (processTier info inFace tierConverged).state inFace nodeConverged := by
  rw [pathDiscoveryData,
    bind_of_not_returned (processTier_spec info inFace tierConverged).not_returned]
  rfl

/-- **What a set `NodeConverged` flag says of the state the handler leaves.** -/
lemma pathDiscoveryData_announces {node : Str} {nodeConverged : Bool} {nexthop face : Face}
    {outTier : Bool} (h : .sendData nexthop face outTier true
      ∈ (pathDiscoveryData node info inFace tierConverged nodeConverged inRecords).out) :
    let info' := (pathDiscoveryData node info inFace tierConverged nodeConverged inRecords).state
    info'.isNodeConverged = true ∧ info'.convergedUpstreamNode = ∅ := by
  dsimp only
  rw [pathDiscoveryData_state]
  have htier := processTier_spec info inFace tierConverged
  rw [pathDiscoveryData, bind_of_not_returned htier.not_returned, List.mem_append] at h
  rcases h with h | h
  · exact (htier.mem_out h trivial).elim
  · obtain ⟨faceID, -, hsend⟩ := List.mem_map.mp h
    obtain ⟨-, -, -, hflag⟩ := PdAction.sendData.inj hsend
    simp only [outNodeConverged, Bool.and_eq_true, decide_eq_true_eq] at hflag
    exact ⟨hflag.1.2, hflag.2⟩

lemma Awaiting.data (h : Awaiting reported info) {node : Str} {nodeConverged : Bool} :
    Awaiting (fun g => reported g
        ∨ (g = inFace ∧ nodeConverged = true ∧ info.isInitialized = true))
      (pathDiscoveryData node info inFace tierConverged nodeConverged inRecords).state := by
  have htier := keeps_awaiting.processTier h inFace tierConverged
  have hspec := processTier_spec info inFace tierConverged
  have hinit := hspec.onGo hspec.not_returned
  rw [pathDiscoveryData_state, processNode]
  cases nodeConverged with
  | false => exact htier.state.mono fun g hg => Or.inl hg
  | true =>
    refine (htier.state.reportNode).mono fun g hg => ?_
    rw [hinit] at hg
    exact hg.imp_right fun hface => ⟨hface.1, rfl, hface.2⟩

/-! ### Runs -/

/-- A face that has reported its node as converged after the prefix was initialized. -/
def ReportedSinceInit (node key : Str) (is : List PdInput) (g : Face) : Prop :=
  ∃ pre tierConverged inRecords post, is = pre ++ .data g tierConverged true inRecords :: post
    ∧ (prefixRun node key pre).isInitialized = true

lemma ReportedSinceInit.append {node key : Str} {is : List PdInput} {g : Face}
    (h : ReportedSinceInit node key is g) {i : PdInput} :
    ReportedSinceInit node key (is ++ [i]) g := by
  obtain ⟨pre, tierConverged, inRecords, post, rfl, hinit⟩ := h
  exact ⟨pre, tierConverged, inRecords, post ++ [i], by simp, hinit⟩

/-- **In every run a valid face is awaited or has reported since initialization.** -/
theorem awaiting_prefixRun (node key : Str) (is : List PdInput) :
    Awaiting (ReportedSinceInit node key is) (prefixRun node key is) := by
  induction is using List.reverseRecOn with
  | nil => exact awaiting_new
  | append_singleton is i ih =>
    have hold : Awaiting (ReportedSinceInit node key (is ++ [i])) (prefixRun node key is) :=
      ih.mono fun g hg => hg.append
    rw [prefixRun, Steps.run_concat]
    cases i with
    | interest srcNode probeIdx inFace nexthops =>
      exact (hold.interest).state
    | nack inFace nackReason inRecords =>
      exact (keeps_awaiting.nack hold).state
    | data inFace tierConverged nodeConverged inRecords =>
      refine (hold.data).mono ?_
      rintro g (hg | ⟨rfl, rfl, hinit⟩)
      · exact hg
      · exact ⟨is, tierConverged, inRecords, [], rfl, hinit⟩

/-- The event is a Data packet of the prefix from face `g` with `NodeConverged` set. -/
def PdEvent.ReportsNode (key : Str) (g : Face) (e : PdEvent) : Prop :=
  ∃ name tierConverged inRecords, prefixKeyOf name = key
    ∧ e = .data name g (.discovery tierConverged true) inRecords

lemma reportsNode_of_input {e : PdEvent} {key : Str} {g : Face}
    (h : e.input = some (key, .data g tierConverged true inRecords)) : e.ReportsNode key g := by
  cases e with
  | interest name inFace nexthops =>
    simp only [PdEvent.input] at h
    split at h
    · cases h
    · obtain ⟨probeIdx, -, heq⟩ := Option.map_eq_some_iff.mp h
      cases heq
  | nack name inFace nackReason inRecords => cases h
  | data name inFace payload inRecords =>
    cases payload <;> cases h
    exact ⟨name, tierConverged, inRecords, rfl, rfl⟩

/-- **Node convergence is never announced early**: when a Data packet is sent on with
`NodeConverged` set, the node has converged and each of its valid faces has delivered such
a packet since the prefix was initialized, this event included. -/
theorem nodeConverged_not_early (node : Str) (es : List PdEvent) (name : Name) (inFace : Face)
    (payload : PdPayload) (inRecords : List Face) {nexthop face : Face} {outTier : Bool}
    (h : .sendData nexthop face outTier true
      ∈ (pdHandle node (pdRun node es) (.data name inFace payload inRecords)).out) :
    let es' := es ++ [.data name inFace payload inRecords]
    let info := pdRun node es' (prefixKeyOf name)
    info.isNodeConverged = true ∧ ∀ g ∈ info.validUpstreams, ∃ pre e post,
      es' = pre ++ e :: post ∧ e.ReportsNode (prefixKeyOf name) g
        ∧ (pdRun node pre (prefixKeyOf name)).isInitialized = true := by
  intro es' info
  have hrun : info = (pdHandle node (pdRun node es)
      (.data name inFace payload inRecords)).state (prefixKeyOf name) := by
    simp only [info, es', pdRun, Steps.run_concat]
    rfl
  have hawait := awaiting_prefixRun node (prefixKeyOf name) (inputsOf (prefixKeyOf name) es')
  rw [← pdRun_apply] at hawait
  cases payload with
  | undecodable | malformed =>
    obtain ⟨nexthop, inFace, heq⟩ := (pdHandle_of_no_input rfl).2 _ h
    cases heq
  | discovery tierConverged nodeConverged =>
    have hsend : .sendData nexthop face outTier true ∈ (pathDiscoveryData node
        (pdRun node es (prefixKeyOf name)) inFace tierConverged nodeConverged inRecords).out := h
    have hann := pathDiscoveryData_announces hsend
    have hinfo : info = (pathDiscoveryData node (pdRun node es (prefixKeyOf name)) inFace
        tierConverged nodeConverged inRecords).state :=
      hrun.trans (Function.update_self ..)
    rw [← hinfo] at hann
    refine ⟨hann.1, fun g hg => ?_⟩
    -- no face is awaited, so the valid face has reported
    have hrep : ReportedSinceInit node (prefixKeyOf name)
        (inputsOf (prefixKeyOf name) es') g := by
      refine (hawait.awaited g hg).resolve_left fun hmem => ?_
      rw [hann.2] at hmem
      cases hmem
    obtain ⟨pre, t, recs, post, hsplit, hinit⟩ := hrep
    obtain ⟨es₁, e, es₂, hes, hinput, hpre⟩ := exists_event_of_inputsOf hsplit
    refine ⟨es₁, e, es₂, hes, reportsNode_of_input hinput, ?_⟩
    rw [pdRun_apply, hpre]
    exact hinit

/-- Two faces report, and the second report is sent on with `NodeConverged` set. -/
theorem nodeConverged_not_early_two_faces :
    let es := [probe '0' 9 [(1, 10), (2, 10)], report 1 true true, report 2 true true]
    (pdRun conNode es ['p']).isNodeConverged = true
      ∧ ∀ g ∈ (pdRun conNode es ['p']).validUpstreams, ∃ pre e post,
        es = pre ++ e :: post ∧ e.ReportsNode ['p'] g
          ∧ (pdRun conNode pre ['p']).isInitialized = true :=
  have hsent : .sendData 9 2 true true ∈ (pdHandle conNode (pdRun conNode
      [probe '0' 9 [(1, 10), (2, 10)], report 1 true true]) (report 2 true true)).out := by
    decide
  nodeConverged_not_early conNode [probe '0' 9 [(1, 10), (2, 10)], report 1 true true]
    (probeName '0') 2 (.discovery true true) [9] hsent

end Mars
