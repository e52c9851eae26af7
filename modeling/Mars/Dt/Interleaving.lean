import Mars.Dt.Items

/-!
A node whose threads interleave.

`nodeRun` takes a handler as one step.  Here a handler is cut where another thread can come in
between: `syncDtFailureState` takes a snapshot and then reassigns, `handleDataTransmissionInterest`
goes on with the snapshot it got, and `drainLocalDtQueues` takes another one for each face.  Every
snapshot has a clock reading of its own.

* `BusyNode`, `windowHandle`, `windowRun`: the interleaved runs;
* `snapshot_of_opens`, `snapshot_of_closes`, `snapshot_of_stays`: what a snapshot does;
* `windowRun_of_nodeRun`: the runs of whole handlers are among the interleaved ones.
-/

namespace Mars

open Function Steps List DtNode

/-! ### Interleaved handlers -/

/-- A node whose threads are in the middle of their handlers: `held` has the `failureSnapshot` of
each thread. -/
structure BusyNode where
  node : Node
  held : ℕ → DtFailureSnapshot

def BusyNode.new : BusyNode := ⟨.new, fun _ => ⟨false, 0, 0⟩⟩

variable (cfg : NodeConfig) (s : BusyNode)

/-- One round of the loop of `drainLocalDtQueues`, with the snapshot that `dtBlockedFace` takes. -/
def drainNext (threadID : ℕ) (node : Node) (snapshot : DtFailureSnapshot) :
    Node × List NodeAction :=
  let drained := drainFaces cfg.numThreads threadID snapshot 1 (node.dt.view threadID)
  ({ node with dt := node.dt.write threadID drained.1 },
    drained.2.map fun sent => .sendInterest sent.2.packet sent.2.pitEntry sent.1 sent.2.inFace)

/-- A step of a thread, or of path discovery or the rate controller. -/
inductive WindowEvent where
  | pd (e : PdEvent) (now : Time)
  | dtNack (name : Name) (inFace : Face) (nackReason : ℕ) (inRecords : List Face)
  | rateRound (face : Face) (newRate : Option ℚ) (starved : Bool)
  | snapshot (now : Time)
  | sync (threadID : ℕ) (now : Time)
  | reassign (threadID : ℕ) (wish : List Str)
  | interest (threadID : ℕ) (packet : FwInterest) (pitEntry : ℕ) (inFace : Face)
      (nexthops : List FibNextHopEntry) (now : Time)
  | epoch (now : Time)
  | drain (threadID : ℕ) (now : Time)

/-- `dtFailureSnapshot`, in the state of a node. -/
def BusyNode.snap (now : Time) : BusyNode × DtFailureSnapshot :=
  let taken := dtFailureSnapshot cfg s.node.failure now
  ({ s with node := { s.node with failure := taken.1 } }, taken.2)

/-- What a node does on a step. -/
def windowHandle : WindowEvent → BusyNode × List NodeAction
  | .pd e now =>
    let r := nodeHandle cfg s.node (.pd e now)
    ({ s with node := r.1 }, r.2)
  | .dtNack name inFace nackReason inRecords =>
    let r := nodeHandle cfg s.node (.dtNack name inFace nackReason inRecords)
    ({ s with node := r.1 }, r.2)
  | .rateRound face newRate starved =>
    let r := nodeHandle cfg s.node (.rateRound face newRate starved)
    ({ s with node := r.1 }, r.2)
  | .snapshot now => ((s.snap cfg now).1, [])
  | .sync threadID now =>
    let taken := s.snap cfg now
    ({ taken.1 with held := update s.held threadID taken.2 }, [])
  | .reassign threadID wish =>
    ({ s with node := applySnapshot cfg threadID s.node (s.held threadID) wish }, [])
  | .interest threadID packet pitEntry inFace nexthops now =>
    let r := routeInterest cfg threadID s.node packet pitEntry inFace nexthops
      (s.held threadID) now
    ({ s with node := r.1 }, r.2)
  | .epoch now =>
    let taken := s.snap cfg now
    ({ taken.1 with node := runDtFastSchedulerEpochIfDue cfg taken.1.node taken.2 now }, [])
  | .drain threadID now =>
    -- without a face to visit the loop is not entered
    if (s.node.dt.threads threadID).dtLocalFaceOrder = [] then (s, [])
    else
      let taken := s.snap cfg now
      let r := drainNext cfg threadID taken.1.node taken.2
      ({ taken.1 with node := r.1 }, r.2)

def windowStep (e : WindowEvent) : BusyNode :=
  (windowHandle cfg s e).1

/-- The node after a sequence of steps. -/
def windowRun (es : List WindowEvent) : BusyNode :=
  run (windowStep cfg) .new es

/-! ### Whole handlers -/

section Whole

variable {cfg : NodeConfig} {node : Node} {threadID : ℕ}

/-- The experiment is on and has a face to fail. -/
def Armed (cfg : NodeConfig) (state : DtFailureNodeState) : Prop :=
  failureEnabled cfg = true ∧ state.armed = true ∧ state.failedFace ≠ 0

/-- The reading opens the window. -/
def Opens (state : DtFailureNodeState) (now : Time) : Prop :=
  state.active = false ∧ state.recovered = false ∧ state.startTime ≤ now ∧ now < state.endTime

/-- The reading closes the window. -/
def Closes (state : DtFailureNodeState) (now : Time) : Prop :=
  state.active = true ∧ state.endTime ≤ now

section Snapshot

variable {state : DtFailureNodeState} {now : Time}

lemma snapshot_of_not_armed (h : ¬Armed cfg state) :
    ∃ failedFace, dtFailureSnapshot cfg state now = (state, ⟨false, failedFace, 0⟩) := by
  unfold dtFailureSnapshot
  by_cases henabled : failureEnabled cfg = true
  · have harmed : (!state.armed) = true ∨ state.failedFace = 0 := by
      simpa [Armed, henabled, or_iff_not_imp_left] using h
    simp only [henabled, Bool.not_true, Bool.false_eq_true, if_false, if_pos harmed]
    exact ⟨_, rfl⟩
  · simp only [henabled, Bool.not_false, if_true]
    exact ⟨_, rfl⟩

lemma snapshot_of_armed (h : Armed cfg state) :
    dtFailureSnapshot cfg state now
      = (let state := if state.active ∧ state.endTime ≤ now then
            { state with active := false, recovered := true } else state
        let state := if !state.active ∧ !state.recovered ∧ state.startTime ≤ now
              ∧ now < state.endTime then
            { state with active := true, activationEpoch := state.activationEpoch + 1 } else state
        (state, ⟨state.active, state.failedFace, state.activationEpoch⟩)) := by
  have harmed : ¬((!state.armed) = true ∨ state.failedFace = 0) := by simp [h.2.1, h.2.2]
  unfold dtFailureSnapshot
  simp only [h.1, Bool.not_true, Bool.false_eq_true, if_false, if_neg harmed]

lemma snapshot_of_opens (harm : Armed cfg state) (h : Opens state now) :
    dtFailureSnapshot cfg state now
      = ({ state with active := true, activationEpoch := state.activationEpoch + 1 },
        ⟨true, state.failedFace, state.activationEpoch + 1⟩) := by
  rw [snapshot_of_armed harm]
  simp [h.1, h.2.1, h.2.2]

lemma snapshot_of_closes (harm : Armed cfg state) (h : Closes state now) :
    dtFailureSnapshot cfg state now
      = ({ state with active := false, recovered := true },
        ⟨false, state.failedFace, state.activationEpoch⟩) := by
  rw [snapshot_of_armed harm]
  simp [h.1, h.2]

lemma snapshot_of_stays (harm : Armed cfg state) (hopen : ¬Opens state now)
    (hclose : ¬Closes state now) :
    dtFailureSnapshot cfg state now
      = (state, ⟨state.active, state.failedFace, state.activationEpoch⟩) := by
  have hkeep : ¬(state.active = true ∧ state.endTime ≤ now) := hclose
  have hshut : ¬((!state.active) = true ∧ (!state.recovered) = true
      ∧ state.startTime ≤ now ∧ now < state.endTime) := by simpa [Opens] using hopen
  rw [snapshot_of_armed harm]
  simp only [if_neg hkeep, if_neg hshut]

/-- A second snapshot at the same reading finds what the first one left. -/
lemma dtFailureSnapshot_idem :
    dtFailureSnapshot cfg (dtFailureSnapshot cfg state now).1 now
      = dtFailureSnapshot cfg state now := by
  by_cases harm : Armed cfg state
  swap
  · obtain ⟨failedFace, heq⟩ : ∃ f, dtFailureSnapshot cfg state now = (state, ⟨false, f, 0⟩) :=
      snapshot_of_not_armed harm
    rw [heq]
    exact heq
  by_cases hopen : Opens state now
  · rw [snapshot_of_opens harm hopen]
    exact snapshot_of_stays harm (fun h => by cases h.1)
      fun h => absurd h.2 (not_le.mpr hopen.2.2.2)
  by_cases hclose : Closes state now
  · rw [snapshot_of_closes harm hclose]
    exact snapshot_of_stays harm (fun h => by cases h.2.1) fun h => by cases h.1
  · rw [snapshot_of_stays harm hopen hclose]
    exact snapshot_of_stays harm hopen hclose

end Snapshot

/-- The loop of `drainLocalDtQueues`, visit by visit. -/
lemma drainFaces_succ {n : ℕ} {snapshot : DtFailureSnapshot} {visits : ℕ} {view : DtView} :
    drainFaces n threadID snapshot (visits + 1) view
      = ((drainFaces n threadID snapshot visits (drainFaces n threadID snapshot 1 view).1).1,
        (drainFaces n threadID snapshot 1 view).2
          ++ (drainFaces n threadID snapshot visits
            (drainFaces n threadID snapshot 1 view).1).2) := by
  simp only [drainFaces, append_nil]

lemma order_drainFaces_one (n threadID : ℕ) (snapshot : DtFailureSnapshot) (view : DtView) :
    (drainFaces n threadID snapshot 1 view).1.own.dtLocalFaceOrder
      = view.own.dtLocalFaceOrder := by
  refine (drain_rule (I := fun view' => view'.own.dtLocalFaceOrder = view.own.dtLocalFaceOrder)
    (O := fun _ => True) (fun view' h => ⟨Eq.trans ?_ h, fun _ _ => trivial⟩)
    { view with own := { view.own with dtLocalFaceRR := view.own.dtLocalFaceRR + 1 } } rfl rfl _).1
  unfold dequeueDtInterestForFaceRR
  split <;> rfl

/-- The node after a thread has written. -/
def Node.write (node : Node) (threadID : ℕ) (view : DtView) : Node :=
  { node with dt := node.dt.write threadID view }

lemma write_write {view view' : DtView} :
    (node.write threadID view).write threadID view' = node.write threadID view' := by
  simp [Node.write, write]

lemma view_write {view : DtView} : (node.write threadID view).dt.view threadID = view := by
  simp [Node.write, DtNode.write, DtNode.view]

/-- The visits of `drainLocalDtQueues` at one reading. -/
lemma run_drain (s : BusyNode) (threadID : ℕ) (now : Time) {snapshot : DtFailureSnapshot}
    (hsnap : dtFailureSnapshot cfg s.node.failure now = (s.node.failure, snapshot))
    (visits : ℕ) (horder : 0 < visits → (s.node.dt.threads threadID).dtLocalFaceOrder ≠ []) :
    let drained := drainFaces cfg.numThreads threadID snapshot visits (s.node.dt.view threadID)
    run (windowStep cfg) s (replicate visits (.drain threadID now))
        = { s with node := s.node.write threadID drained.1 }
      ∧ trace (windowHandle cfg) s (replicate visits (.drain threadID now))
        = drained.2.map fun sent =>
            .sendInterest sent.2.packet sent.2.pitEntry sent.1 sent.2.inFace := by
  induction visits generalizing s with
  | zero =>
    refine ⟨?_, rfl⟩
    simp [drainFaces, Node.write, write, view]
  | succ visits ih =>
    set first := drainFaces cfg.numThreads threadID snapshot 1 (s.node.dt.view threadID)
      with hfirst
    have hone : windowHandle cfg s (.drain threadID now)
        = ({ s with node := s.node.write threadID first.1 }, first.2.map fun sent =>
          .sendInterest sent.2.packet sent.2.pitEntry sent.1 sent.2.inFace) := by
      simp only [windowHandle, if_neg (horder visits.succ_pos), BusyNode.snap, hsnap]
      rfl
    have hview : (s.node.write threadID first.1).dt.view threadID = first.1 := view_write
    have hkept : ((s.node.write threadID first.1).dt.view threadID).own.dtLocalFaceOrder
        = (s.node.dt.threads threadID).dtLocalFaceOrder := by
      rw [hview]
      exact order_drainFaces_one _ _ _ _
    obtain ⟨hrun, htrace⟩ := ih { s with node := s.node.write threadID first.1 } hsnap
      fun _ => hkept ▸ horder visits.succ_pos
    rw [hview] at hrun htrace
    rw [replicate_succ, run_cons, trace_cons, windowStep, hone, hrun, htrace,
      drainFaces_succ, ← hfirst, write_write]
    exact ⟨rfl, map_append.symm⟩

/-- The state in which `OnTick` begins to drain the queues, at a reading that has been taken. -/
lemma run_tickBegin {s : BusyNode} {now : Time} {wish : List Str} :
    let synced := syncDtFailureState cfg threadID s.node now wish
    let node := runDtFastSchedulerEpochIfDue cfg synced.1 synced.2 now
    let begun : List WindowEvent := [.sync threadID now, .reassign threadID wish, .epoch now]
    run (windowStep cfg) s begun = ⟨node, update s.held threadID synced.2⟩
      ∧ trace (windowHandle cfg) s begun = []
      ∧ dtFailureSnapshot cfg node.failure now = (node.failure, synced.2) := by
  set taken := dtFailureSnapshot cfg s.node.failure now with htaken
  set applied := applySnapshot cfg threadID { s.node with failure := taken.1 } taken.2 wish
    with happlied
  have hfailure : applied.failure = taken.1 := applySnapshot_failure
  have hagain : dtFailureSnapshot cfg applied.failure now = taken := by
    rw [hfailure, htaken, dtFailureSnapshot_idem]
  have hsame : { applied with failure := taken.1 } = applied := by rw [← hfailure]
  have hepoch : (runDtFastSchedulerEpochIfDue cfg applied taken.2 now).failure = taken.1 := by
    unfold runDtFastSchedulerEpochIfDue
    split_ifs <;> exact hfailure
  simp only [run_cons, run_nil, windowStep, windowHandle, BusyNode.snap, update_self,
    syncDtFailureState, ← htaken, ← happlied, hagain, hsame, hepoch]
  refine ⟨trivial, rfl, ?_⟩
  rw [← hfailure, hagain, hfailure]

/-- **A whole handler is a sequence of steps** of its thread. -/
lemma exists_steps_of_nodeHandle {s : BusyNode} {e : NodeEvent} :
    ∃ fs, (run (windowStep cfg) s fs).node = (nodeHandle cfg s.node e).1
      ∧ trace (windowHandle cfg) s fs = (nodeHandle cfg s.node e).2 := by
  cases e with
  | pd e now => exact ⟨[.pd e now], rfl, by simp [windowHandle]⟩
  | dtInterest threadID packet pitEntry inFace nexthops now wish =>
    refine ⟨[.sync threadID now, .reassign threadID wish,
      .interest threadID packet pitEntry inFace nexthops now], ?_⟩
    simp only [run_cons, run_nil, trace_cons, trace_nil, windowStep,
      windowHandle, BusyNode.snap, update_self, nil_append, append_nil, nodeHandle,
      handleDataTransmissionInterest, syncDtFailureState, and_self]
  | dtNack name inFace nackReason inRecords =>
    exact ⟨[.dtNack name inFace nackReason inRecords], rfl, by simp [windowHandle]⟩
  | tick threadID now wish =>
    obtain ⟨hbegin, hquiet, hfixed⟩ := run_tickBegin
    set synced := syncDtFailureState cfg threadID s.node now wish with hsynced
    set node := runDtFastSchedulerEpochIfDue cfg synced.1 synced.2 now with hnode
    set begun : List WindowEvent := [.sync threadID now, .reassign threadID wish, .epoch now]
    set visits := min (node.dt.view threadID).own.dtLocalFaceOrder.length
      dtSchedulerMaxFacesPerTick with hvisits
    have horder : 0 < visits → (node.dt.threads threadID).dtLocalFaceOrder ≠ [] :=
      fun hpos => length_pos_iff.mp (lt_of_lt_of_le hpos (min_le_left _ _))
    obtain ⟨hrun, htrace⟩ :=
      run_drain ⟨node, update s.held threadID synced.2⟩ threadID now hfixed visits horder
    refine ⟨begun ++ replicate visits (.drain threadID now), ?_, ?_⟩
    · rw [run_append, hbegin, hrun]
      rfl
    · rw [trace_append, hquiet, nil_append]
      refine (congrArg (fun s => trace _ s _) hbegin).trans (htrace.trans ?_)
      rfl
  | rateRound face newRate starved =>
    exact ⟨[.rateRound face newRate starved], rfl, by simp [windowHandle]⟩

/-- **The runs of whole handlers** are among the interleaved runs, with the same actions. -/
theorem windowRun_of_nodeRun {cfg : NodeConfig} {es : List NodeEvent} :
    ∃ fs, (windowRun cfg fs).node = nodeRun cfg es
      ∧ trace (windowHandle cfg) .new fs = trace (nodeHandle cfg) .new es := by
  induction es using reverseRecOn with
  | nil => exact ⟨[], rfl, rfl⟩
  | append_singleton es e ih =>
    obtain ⟨fs, hfs, hout⟩ := ih
    obtain ⟨gs, hgs, hacts⟩ := exists_steps_of_nodeHandle (s := windowRun cfg fs) (e := e)
    rw [hfs] at hgs hacts
    refine ⟨fs ++ gs, ?_, ?_⟩
    · rw [windowRun, run_append, nodeRun, run_concat]
      exact hgs
    · rw [trace_append, trace_append, hout, trace_cons, trace_nil, append_nil]
      exact congrArg _ hacts

end Whole

end Mars
