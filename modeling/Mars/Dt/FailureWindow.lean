import Mars.Dt.Window
import Mars.PathDiscovery.Hops

/-!
The failure window of a node is one-shot and respected, whatever its threads do in between.

* `NodeItems.windowStep`: what a step of an interleaved run does to the queued items;
* `Stocked`, `stocked_step`: what the queues of the threads look like;
* `Observed`, `observed_step`: a thread that has seen the activation;
* `failure_window_respected`: the properties of the window together.
-/

namespace Mars

open Function List Steps

variable {cfg : NodeConfig} {s : BusyNode}

/-! ### Steps and the queues -/

/-- **A step** keeps what holds of all items, if it goes along with those that its thread moves
and holds of the item that a DT Interest may become. -/
lemma NodeItems.windowStep {P : ℕ → Str → InterestQueueItem → Prop} (h : NodeItems P s.node)
    (e : WindowEvent)
    (hmove : ∀ t wish, e = .reassign t wish → (s.held t).active = true →
      MovesAlong (P t) (s.held t).failedFace fun key => (s.node.pd key).dtValidFaces)
    (hitem : ∀ t packet pitEntry inFace nexthops now,
      e = .interest t packet pitEntry inFace nexthops now →
      ∀ candidates, (∀ f ∈ candidates,
        f ∈ dtFacesOf (s.node.pd (prefixKeyOf packet.name)) nexthops (s.held t)) →
      ∀ assigned ∈ dtFacesOf (s.node.pd (prefixKeyOf packet.name)) nexthops (s.held t),
        P t (prefixKeyOf packet.name) ⟨packet, pitEntry, inFace, t, candidates, assigned⟩) :
    NodeItems P (windowStep cfg s e).node := by
  cases e with
  | pd e now => exact h.pd e now
  | dtNack name inFace nackReason inRecords | rateRound face newRate starved | snapshot now
  | sync threadID now => exact h
  | reassign threadID wish => exact h.applySnapshot (hmove threadID wish rfl)
  | interest threadID packet pitEntry inFace nexthops now =>
    exact (h.routeInterest rfl (hitem threadID packet pitEntry inFace nexthops now rfl)).items
  | epoch now =>
    simp only [Mars.windowStep, windowHandle, runDtFastSchedulerEpochIfDue]
    split_ifs <;> exact h
  | drain threadID now =>
    simp only [Mars.windowStep, windowHandle]
    split_ifs
    · exact h
    · have hown : AllItems (P threadID) (s.node.dt.view threadID).own := h threadID
      exact h.write (hown.drainFaces).1

/-- The nexthops of a step are faces. -/
def WindowEvent.RealHops : WindowEvent → Prop
  | .pd e _ => e.HopsMeet (· ≠ 0)
  | .interest _ _ _ _ nexthops _ => ∀ nh ∈ nexthops, nh.nexthop ≠ 0
  | _ => True

/-- What the queues of the threads look like, and what path discovery knows. -/
structure Stocked (s : BusyNode) : Prop where
  items : NodeItems Sturdy s.node
  listed : ∀ threadID, Listed (s.node.dt.threads threadID)
  hops : ∀ key, Hops (· ≠ 0) (s.node.pd key)

lemma stocked_new : Stocked .new := ⟨nodeItems_new, fun _ => listed_new, fun _ => hops_new⟩

lemma Stocked.zero_notMem (h : Stocked s) (key : Str) : 0 ∉ (s.node.pd key).dtValidFaces :=
  fun hmem => (h.hops key).valid 0 hmem rfl

lemma mem_dtFacesOf {info : PathDiscoveryInfo} {nexthops : List FibNextHopEntry}
    {snapshot : DtFailureSnapshot} {f : Face} (h : f ∈ dtFacesOf info nexthops snapshot) :
    f ∈ info.dtValidFaces ∨ ∃ nh ∈ nexthops, nh.nexthop = f := by
  have hfrom : ∀ {faces : List Face}, f ∈ (if snapshot.active then
      dtFilterFacesWithoutFailure faces snapshot.failedFace else faces) → f ∈ faces := by
    intro faces hmem
    unfold dtFilterFacesWithoutFailure at hmem
    split_ifs at hmem
    exacts [hmem, (mem_filter.mp hmem).1, hmem]
  have hmem := hfrom h
  split_ifs at hmem
  · exact .inl hmem
  · exact .inr (mem_map.mp ((mergeSort_perm _ _).mem_iff.mp hmem))

section Route

variable {node : Node} {threadID pitEntry : ℕ} {packet : FwInterest} {inFace : Face} {key : Str}

lemma listed_write (h : ∀ t, Listed (node.dt.threads t)) (threadID : ℕ) {view : DtView}
    (hview : Listed view.own) (t : ℕ) : Listed ((node.dt.write threadID view).threads t) := by
  rcases eq_or_ne t threadID with rfl | hne
  · simpa [DtNode.write] using hview
  · simpa [DtNode.write, hne] using h t

lemma listed_enqueueShaped (node : Node) (h : ∀ t, Listed (node.dt.threads t))
    (ready : List Face) (t : ℕ) :
    Listed ((enqueueShaped cfg threadID node key packet pitEntry inFace ready).1.dt.threads t) := by
  have hown : Listed ((node.dt.view threadID).selectFace key ready).1.own := h threadID
  simp only [enqueueShaped]
  split_ifs
  · exact listed_write h threadID hown t
  · exact listed_write h threadID (hown.enqueue) t

lemma listed_routeInterest (h : ∀ t, Listed (node.dt.threads t))
    (nexthops : List FibNextHopEntry) (snapshot : DtFailureSnapshot) (now : Time) (t : ℕ) :
    Listed ((routeInterest cfg threadID node packet pitEntry inFace nexthops snapshot
      now).1.dt.threads t) := by
  simp only [routeInterest, shapeInterest, sendBootstrap]
  split_ifs
  · exact h t
  · exact h t
  · exact h t
  · exact h t
  · exact h t
  · exact listed_enqueueShaped { node with
      dt := { node.dt with shared := activateFaces node.dt.shared _ now }
      pd := update node.pd _ _ } h _ t
  · exact listed_enqueueShaped { node with
      dt := { node.dt with shared := activateFaces node.dt.shared _ now } } h _ t

lemma hops_update {Q : Face → Prop} {st : PdStore} {info : PathDiscoveryInfo}
    (h : ∀ k, Hops Q (st k)) (hinfo : Hops Q info) (key k : Str) :
    Hops Q (update st key info k) :=
  (forall_update_iff st fun _ info => Hops Q info).mpr ⟨hinfo, fun k _ => h k⟩ k

lemma hops_routeInterest {Q : Face → Prop} (h : ∀ k, Hops Q (node.pd k))
    (nexthops : List FibNextHopEntry) (snapshot : DtFailureSnapshot) (now : Time) (k : Str) :
    Hops Q ((routeInterest cfg threadID node packet pitEntry inFace nexthops snapshot
      now).1.pd k) := by
  have hpick : ∀ {info : PathDiscoveryInfo} (faces : List Face), Hops Q info →
      Hops Q (selectDtBootstrapFaceRR info faces).1 := by
    intro info faces hinfo
    unfold selectDtBootstrapFaceRR
    split <;> exact ⟨hinfo.wait, hinfo.valid⟩
  have hcount : Hops Q { node.pd (prefixKeyOf packet.name) with dtBootstrapProbeCounter :=
      (node.pd (prefixKeyOf packet.name)).dtBootstrapProbeCounter + 1 } := ⟨(h _).wait, (h _).valid⟩
  simp only [routeInterest, shapeInterest, sendBootstrap, enqueueShaped]
  split_ifs
  · exact h k
  · exact h k
  · exact h k
  · exact hops_update h (hpick _ (h _)) _ k
  · exact hops_update h (hpick _ hcount) _ k
  · exact hops_update h hcount _ k
  · exact hops_update h hcount _ k
  · exact h k
  · exact h k

end Route

/-- **A step keeps the stock**, if its nexthops are faces. -/
lemma stocked_step (h : Stocked s) (e : WindowEvent) (he : e.RealHops) :
    Stocked (windowStep cfg s e) where
  items := by
    refine h.items.windowStep e ?_ ?_
    · rintro t wish rfl -
      exact movesAlong_sturdy h.zero_notMem
    · rintro t packet pitEntry inFace nexthops now rfl candidates hsub assigned -
      refine ⟨rfl, fun hzero => ?_⟩
      rcases mem_dtFacesOf (hsub 0 hzero) with hvalid | ⟨nh, hnh, hzero'⟩
      · exact h.zero_notMem _ hvalid
      · exact he nh hnh hzero'
  listed t := by
    cases e with
    | pd e now =>
      have hthreads := (nodeStep_pd cfg s.node e now).2
      exact hthreads ▸ h.listed t
    | reassign threadID wish =>
      simp only [windowStep, windowHandle, applySnapshot]
      split_ifs
      · have hown : Listed (s.node.dt.view threadID).own := h.listed threadID
        refine listed_write h.listed threadID ?_ t
        exact hown.reassign _ _ _ _ _
      · exact h.listed t
    | interest threadID packet pitEntry inFace nexthops now =>
      exact listed_routeInterest h.listed _ _ _ t
    | epoch now =>
      simp only [windowStep, windowHandle, runDtFastSchedulerEpochIfDue]
      split_ifs <;> exact h.listed t
    | drain threadID now =>
      simp only [windowStep, windowHandle]
      split_ifs
      · exact h.listed t
      · have hown : Listed (s.node.dt.view threadID).own := h.listed threadID
        exact listed_write h.listed threadID (hown.drainFaces _ _ _ _) t
    | _ => exact h.listed t
  hops key := by
    cases e with
    | pd e now =>
      have hpd := (nodeStep_pd cfg s.node e now).1
      exact hpd ▸ hops_pdHandle h.hops cfg.nodeName he key
    | dtNack name inFace nackReason inRecords =>
      refine hops_update h.hops ?_ _ key
      simp only [dropActiveFace]
      split_ifs <;> exact ⟨(h.hops _).wait, (h.hops _).valid⟩
    | reassign threadID wish =>
      simp only [windowStep, windowHandle, applySnapshot_pd]
      exact h.hops key
    | interest threadID packet pitEntry inFace nexthops now =>
      exact hops_routeInterest h.hops _ _ _ key
    | epoch now =>
      simp only [windowStep, windowHandle, runDtFastSchedulerEpochIfDue]
      split_ifs <;> exact h.hops key
    | drain threadID now =>
      simp only [windowStep, windowHandle]
      split_ifs <;> exact h.hops key
    | _ => exact h.hops key

lemma stocked_windowRun {es : List WindowEvent} (hes : ∀ e ∈ es, e.RealHops) :
    Stocked (windowRun cfg es) := by
  have hguarded : Guarded (windowStep cfg) (fun _ e => e.RealHops) .new es :=
    guarded_of_forall_mem (fun e he _ => hes e he) _
  exact guarded_invariant (I := Stocked) (fun _ e h he => stocked_step h e he) stocked_new
    hguarded

/-! ### After the activation has been seen -/

/-- The thread sees the activation: its snapshot is active, with an epoch it has not applied. -/
def BusyNode.Observes (s : BusyNode) (threadID : ℕ) : Prop :=
  (s.held threadID).active = true
    ∧ (s.held threadID).activationEpoch ≠ (s.node.dt.threads threadID).dtFailureAppliedEpoch

/-- The items of the thread, as of the activation. -/
def StrandedOf (threadID : ℕ) (f : Face) (valid : Str → List Face) (t : ℕ) (key : Str)
    (item : InterestQueueItem) : Prop :=
  t = threadID → Stranded f valid key item

/-- A thread that has seen the activation: as long as the window is open, its snapshot is active,
and what waits for the failed face is stranded. -/
structure Observed (cfg : NodeConfig) (threadID : ℕ) (f : Face) (valid : Str → List Face)
    (s : BusyNode) : Prop where
  timed : Timed cfg s
  armed : s.node.failure.armed = true
  face : s.node.failure.failedFace = f
  epoch : s.node.failure.activationEpoch = 1
  live : s.node.failure.active = true → (s.held threadID).active = true
    ∧ NodeItems (StrandedOf threadID f valid) s.node

section Observed

variable {threadID : ℕ} {f : Face} {valid : Str → List Face}

section

variable (h : Observed cfg threadID f valid s)
include h

lemma Observed.held_face {t : ℕ}
    (hactive : (s.held t).active = true) : (s.held t).failedFace = f ∧ f ≠ 0 := by
  obtain ⟨harm, hface, -⟩ := h.timed.held t hactive
  exact ⟨hface.trans h.face, h.face ▸ harm.2.2⟩

lemma Observed.items_step
    (hactive : s.node.failure.active = true) {e : WindowEvent} :
    NodeItems (StrandedOf threadID f valid) (windowStep cfg s e).node := by
  obtain ⟨hheld, hitems⟩ := h.live hactive
  refine hitems.windowStep e ?_ ?_
  · rintro t wish rfl hactive key item - newFace hnew - heq
    obtain ⟨hface, hne⟩ := h.held_face hactive
    rw [hface, show newFace = f from heq] at hnew
    exact absurd hnew (notMem_survivorsOf hne)
  · rintro t packet pitEntry inFace nexthops now rfl candidates - assigned hmem rfl heq
    obtain ⟨hface, hne⟩ := h.held_face hheld
    have hout := notMem_dtFacesOf hheld (hface ▸ hne) (s.node.pd (prefixKeyOf packet.name)) nexthops
    rw [hface] at hout
    exact absurd (show f ∈ _ from heq ▸ hmem) hout

/-- **A step keeps what holds after the activation has been seen.** -/
lemma observed_step {e : WindowEvent} : Observed cfg threadID f valid (windowStep cfg s e) := by
  have hmoves := window_step h.timed.window e
  obtain ⟨harmed, hface⟩ := hmoves.onward.armed h.armed
  refine ⟨timed_step h.timed e, harmed, hface.trans h.face, ?_, fun hon => ?_⟩
  · exact le_antisymm hmoves.window.epoch_le (h.epoch ▸ hmoves.onward.epoch)
  -- the window cannot have been reopened
  have hbefore : s.node.failure.active = true := by
    rcases (h.timed.window.spent (by simp [h.epoch])).2 with hactive | hrec
    · exact hactive
    · have hover := hmoves.onward.recovered hrec
      exact absurd ((hmoves.window.active hon).2.1.symm.trans hover) Bool.false_ne_true
  refine ⟨?_, h.items_step hbefore⟩
  rcases held_step h.timed.window with heq | ⟨-, hreports⟩
  · rw [heq]
    exact (h.live hbefore).1
  · exact hreports.active.trans hon

end

/-- The step in which a thread sees the activation. -/
lemma observed_reassign (h : Timed cfg s) (hstock : Stocked s) (hobs : s.Observes threadID)
    {wish : List Str} :
    let after := windowStep cfg s (.reassign threadID wish)
    let valid := fun key => (s.node.pd key).dtValidFaces
    AllItems (Stranded s.node.failure.failedFace valid) (after.node.dt.threads threadID)
      ∧ Observed cfg threadID s.node.failure.failedFace valid after := by
  obtain ⟨harm, hface, hone, hepoch⟩ := h.held threadID hobs.1
  have hnew : (s.held threadID).active = true ∧ (s.held threadID).activationEpoch ≠ 0
      ∧ (s.held threadID).activationEpoch ≠ (s.node.dt.threads threadID).dtFailureAppliedEpoch :=
    ⟨hobs.1, by simp [hone], hobs.2⟩
  intro after valid
  have hafter : AllItems (Stranded s.node.failure.failedFace valid)
      (after.node.dt.threads threadID) := by
    have hown : Listed (s.node.dt.view threadID).own := hstock.listed threadID
    have hmoved := stranded_reassign harm.2.2 cfg.numThreads hstock.zero_notMem hown
      (hstock.items threadID) wish
    simp only [after, windowStep, windowHandle, applySnapshot, if_pos hnew, DtNode.write,
      update_self, hface]
    exact hmoved
  have hsame : after.node.failure = s.node.failure := applySnapshot_failure
  refine ⟨hafter, timed_step h _, ?_, by rw [hsame], ?_, fun _ => ⟨hobs.1, ?_⟩⟩
  · rw [hsame]
    exact harm.2.1
  · rw [hsame]
    exact hepoch
  · rintro t key item hitem rfl
    exact hafter key item hitem

/-- The routing of a converged prefix stays as it is. -/
lemma settled_windowStep {info : PathDiscoveryInfo} {key : Str}
    (h : Settled info (s.node.pd key)) {e : WindowEvent} :
    Settled info ((windowStep cfg s e).node.pd key) := by
  have hroute : SameRoute (s.node.pd key) ((windowStep cfg s e).node.pd key) := by
    cases e with
    | pd e now =>
      have hpd := (nodeStep_pd cfg s.node e now).1
      exact hpd ▸ (settled_pdHandle h.converged).toSameRoute
    | dtNack name inFace nackReason inRecords =>
      refine SameRoute.update ?_
      simp only [dropActiveFace]
      split_ifs <;> exact ⟨rfl, rfl, rfl⟩
    | reassign threadID wish =>
      simp only [windowStep, windowHandle, applySnapshot_pd]
      exact .refl
    | interest threadID packet pitEntry inFace nexthops now =>
      have hfree : NodeItems (fun _ _ _ => True) s.node := fun _ _ _ _ => trivial
      exact (hfree.routeInterest rfl fun _ _ _ _ => trivial).route key
    | epoch now =>
      simp only [windowStep, windowHandle, runDtFastSchedulerEpochIfDue]
      split_ifs <;> exact .refl
    | drain threadID now =>
      simp only [windowStep, windowHandle]
      split_ifs <;> exact .refl
    | _ => exact .refl
  exact ⟨h.toSameRoute.trans hroute, hroute.isNodeConverged.trans h.converged⟩

end Observed

/-- **The failure window is one-shot and respected.**  In every interleaved run the window opens
at most once, at a reading within it, and never again after it has closed; a handler whose own
snapshot is active leaves the failed face alone; and once a thread has seen the activation, what
its queues still hold for the failed face has no other candidate, and its prefix no other valid
face, for as long as the window is open. -/
theorem failure_window_respected (cfg : NodeConfig) (es : List WindowEvent) :
    let s := windowRun cfg es
    let f := s.node.failure.failedFace
    s.node.failure.activationEpoch ≤ 1
    ∧ (∀ e, s.node.failure.active = false → (windowStep cfg s e).node.failure.active = true →
        ∃ now ∈ e.reading, s.node.failure.startTime ≤ now ∧ now < s.node.failure.endTime)
    ∧ (s.node.failure.recovered = true → ∀ fs,
        (run (windowStep cfg) s fs).node.failure.active = false)
    ∧ (∀ e, ∀ snapshot ∈ s.own cfg e, snapshot.active = true →
        snapshot.failedFace = (windowStep cfg s e).node.failure.failedFace
          ∧ ∀ a ∈ (windowHandle cfg s e).2, ¬a.Uses snapshot.failedFace)
    ∧ ((∀ e ∈ es, e.RealHops) → ∀ threadID wish, s.Observes threadID →
        let after := windowStep cfg s (.reassign threadID wish)
        (∀ key, ∀ item ∈ (after.node.dt.threads threadID).dtQueuesByPrefix key,
          item.assignedFace = f →
            OnlyFace f item.candidateFaces ∧ OnlyFace f (after.node.pd key).dtValidFaces)
        ∧ ∀ fs, let later := run (windowStep cfg) after fs
          later.node.failure.active = true →
            ∀ key, ∀ item ∈ (later.node.dt.threads threadID).dtQueuesByPrefix key,
              item.assignedFace = f → OnlyFace f item.candidateFaces
                ∧ ((after.node.pd key).isNodeConverged = true →
                  OnlyFace f (later.node.pd key).dtValidFaces)) := by
  intro s f
  have htimed := timed_windowRun cfg es
  refine ⟨htimed.window.epoch_le, fun e => (window_step htimed.window e).opens,
    closed_run htimed, fun e snapshot => own_snapshot_respected htimed, ?_⟩
  intro hes threadID wish hobs after
  obtain ⟨hafter, hobserved⟩ := observed_reassign htimed (stocked_windowRun hes) hobs
  have hpd : after.node.pd = s.node.pd := applySnapshot_pd _ _ _
  refine ⟨fun key item hitem hface => ?_, ?_⟩
  · rw [hpd]
    exact hafter key item hitem hface
  · intro fs later hon key item hitem hface
    have hlater : Observed cfg threadID f (fun key => (s.node.pd key).dtValidFaces) later :=
      run_invariant (I := Observed cfg threadID f fun key => (s.node.pd key).dtValidFaces)
        (fun _ e h => observed_step h) hobserved fs
    obtain ⟨honly, hvalid⟩ := (hlater.live hon).2 threadID key item hitem rfl hface
    refine ⟨honly, fun hconv => ?_⟩
    have hsettled : Settled (after.node.pd key) (later.node.pd key) :=
      run_invariant (I := fun s : BusyNode => Settled (after.node.pd key) (s.node.pd key))
        (fun _ e h => settled_windowStep h) ⟨.refl, hconv⟩ fs
    rw [hsettled.dtValidFaces, hpd]
    exact hvalid

/-- A consumer node with one thread, whose failure window is open from `3` to `9` milliseconds after
the convergence of one prefix. -/
def failingNode : NodeConfig := ⟨conNode, 1, true, 3000000, 9000000, 1⟩

/-- The prefix converges with the valid faces `2` and `3`. -/
def twoFaces : List WindowEvent :=
  [.pd (probe '0' 9 [(2, 1), (3, 1)]) 0, .pd (report 2 true true) 0, .pd (report 3 true true) 0]

/-- A DT Interest is enqueued for face `2`, and then the thread takes a snapshot in the window. -/
def failureSeen : List WindowEvent :=
  [.sync 0 2000000, .reassign 0 [], .interest 0 (dtPacket '1') 0 9 [⟨2, 1⟩, ⟨3, 1⟩] 2000000,
    .sync 0 4000000]

/-- Face `2` is the one to fail. -/
def twoFacesArmed : DtFailureNodeState :=
  ⟨{['p']}, {2, 3}, true, false, false, 3000000, 9000000, 2, 0⟩

-- sorting a set of faces does not reduce, so the step that arms the experiment is taken by hand
lemma failure_twoFaces : (windowRun failingNode twoFaces).node.failure = twoFacesArmed := by
  have henabled : failureEnabled failingNode = true := by decide +kernel
  have hsort : (insert 2 {3} : Finset ℕ).sort (· ≤ ·) = [2, 3] := by
    rw [Finset.sort_insert] <;> simp
  have harm : ∀ {info : PathDiscoveryInfo}, info.prefixKey = ['p'] → info.dtValidFaces = [2, 3] →
      armDtFailureAfterPdConvergence failingNode .new info 0 = twoFacesArmed := by
    intro info hkey hvalid
    simp only [armDtFailureAfterPdConvergence, henabled, DtFailureNodeState.new, hvalid, hkey]
    simp [hsort, twoFacesArmed, failingNode]
  set info := converge (countOffTier
    ((windowRun failingNode (twoFaces.take 2)).node.pd ['p']) 3) with hinfo
  have hlast : (windowRun failingNode twoFaces).node.failure
      = armDtFailureAfterPdConvergence failingNode .new info 0 := rfl
  exact hlast.trans (harm (by decide +kernel) (by decide +kernel))

/-- The Interest is moved to face `3`. -/
theorem failure_window_respected_moved :
    let s := windowRun failingNode (twoFaces ++ failureSeen)
    let after := windowStep failingNode s (.reassign 0 [])
    s.Observes 0
      ∧ ((s.node.dt.threads 0).dtQueuesByPrefix ['p']).map (·.assignedFace) = [2]
      ∧ ((after.node.dt.threads 0).dtQueuesByPrefix ['p']).map (·.assignedFace) = [3]
      ∧ ∀ key, ∀ item ∈ (after.node.dt.threads 0).dtQueuesByPrefix key, item.assignedFace = 2 →
        OnlyFace 2 item.candidateFaces ∧ OnlyFace 2 (after.node.pd key).dtValidFaces := by
  intro s after
  have hs : s = run (windowStep failingNode)
      ⟨{ (windowRun failingNode twoFaces).node with failure := twoFacesArmed },
        fun _ => ⟨false, 0, 0⟩⟩ failureSeen := by
    rw [← failure_twoFaces]
    rfl
  have hobs : s.Observes 0 := by
    rw [hs]
    unfold BusyNode.Observes
    decide +kernel
  have hface : s.node.failure.failedFace = 2 := by
    rw [hs]
    decide +kernel
  have hreal : ∀ e ∈ twoFaces ++ failureSeen, e.RealHops := by
    simp only [twoFaces, failureSeen, cons_append, nil_append, forall_mem_cons]
    refine ⟨?_, ?_, ?_, trivial, trivial, by simp [WindowEvent.RealHops], trivial, by simp⟩
    · rintro ki ⟨⟩
      change ∀ f ∈ latestFaces [some ⟨2, 1⟩, some ⟨3, 1⟩], f ≠ 0
      decide +kernel
    · rintro ki ⟨⟩
      trivial
    · rintro ki ⟨⟩
      trivial
  have hkept := ((failure_window_respected failingNode (twoFaces ++ failureSeen)).2.2.2.2 hreal 0
    [] hobs).1
  refine ⟨hobs, ?_, ?_, ?_⟩
  · rw [hs]
    decide +kernel
  · simp only [after, hs]
    decide +kernel
  · intro key item hitem hassigned
    have hstuck := hkept key item hitem (hassigned.trans hface.symm)
    rw [show (windowRun failingNode (twoFaces ++ failureSeen)).node.failure.failedFace = 2
      from hface] at hstuck
    exact hstuck

/-- A DT Interest of the prefix `q` waits for face `2`, its only nexthop, when the thread sees the
activation; then `q` converges with the valid faces `2` and `3`. -/
def lateConvergence : List WindowEvent :=
  let name : Name := [['q'], ['c', 'o', 'n'], ['p', 'd'], ['0'], ['0']]
  [.sync 0 2000000, .reassign 0 [],
    .interest 0 (plainInterest [['q'], ['c', 'o', 'n'], ['d', 't'], ['1']] 1) 0 9 [⟨2, 1⟩] 2000000,
    .sync 0 4000000, .reassign 0 [], .pd (.interest name 9 [some ⟨2, 1⟩, some ⟨3, 1⟩]) 5000000,
    .pd (.data name 2 (.discovery true true) [9]) 5000000,
    .pd (.data name 3 (.discovery true true) [9]) 5000000]

/-- The Interest has no other candidate, but its prefix has another valid face by now. -/
theorem stranded_prefix_gains_face :
    let seen := windowRun failingNode (twoFaces ++ lateConvergence.take 4)
    let later := windowRun failingNode (twoFaces ++ lateConvergence)
    seen.Observes 0 ∧ later.node.failure.active = true ∧ later.node.failure.failedFace = 2
      ∧ ((later.node.dt.threads 0).dtQueuesByPrefix ['q']).map
          (fun item => (item.assignedFace, item.candidateFaces)) = [(2, [2])]
      ∧ (later.node.pd ['q']).dtValidFaces = [2, 3] := by
  have hrun : ∀ es, windowRun failingNode (twoFaces ++ es) = run (windowStep failingNode)
      ⟨{ (windowRun failingNode twoFaces).node with failure := twoFacesArmed },
        fun _ => ⟨false, 0, 0⟩⟩ es := by
    intro es
    rw [← failure_twoFaces]
    exact run_append
  simp only [hrun, BusyNode.Observes]
  decide +kernel

end Mars
