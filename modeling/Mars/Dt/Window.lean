import Mars.Dt.Interleaving
import Mars.Dt.Reassignment

/-!
The failure window of a node and the snapshots of its handlers.

* `Window`, `window_step`: the window opens once, at a reading within it, and closes for good;
* `Held`, `Timed`, `timed_step`: a snapshot that was active names the face to fail;
* `own_snapshot_respected`: a handler whose own snapshot is active leaves the failed face alone.
-/

namespace Mars

open Function Bool

variable {cfg : NodeConfig} {s : BusyNode} {state : DtFailureNodeState}

/-! ### The window -/

/-- The state of the experiment in a run. -/
structure Window (cfg : NodeConfig) (state : DtFailureNodeState) : Prop where
  epoch_le : state.activationEpoch ≤ 1
  active : state.active = true →
    Armed cfg state ∧ state.recovered = false ∧ state.activationEpoch = 1
  spent : state.activationEpoch ≠ 0 →
    state.armed = true ∧ (state.active = true ∨ state.recovered = true)

/-- What never changes back: the face to fail once armed, and that the window is over. -/
structure Onward (state state' : DtFailureNodeState) : Prop where
  armed : state.armed = true → state'.armed = true ∧ state'.failedFace = state.failedFace
  recovered : state.recovered = true → state'.recovered = true
  epoch : state.activationEpoch ≤ state'.activationEpoch

lemma Onward.refl {state : DtFailureNodeState} : Onward state state :=
  ⟨fun h => ⟨h, rfl⟩, id, le_rfl⟩

lemma Onward.trans {state' state'' : DtFailureNodeState} (h : Onward state state')
    (h' : Onward state' state'') : Onward state state'' where
  armed harmed := by
    obtain ⟨harmed', hface⟩ := h.armed harmed
    obtain ⟨harmed'', hface'⟩ := h'.armed harmed'
    exact ⟨harmed'', hface'.trans hface⟩
  recovered hrec := h'.recovered (h.recovered hrec)
  epoch := h.epoch.trans h'.epoch

lemma window_new : Window cfg .new := ⟨Nat.zero_le _, nofun, fun h => absurd rfl h⟩

/-- A step of the experiment: a snapshot at a reading, or the end of discovery for a prefix. -/
structure Moves (cfg : NodeConfig) (reading : Option Time) (state state' : DtFailureNodeState) :
    Prop where
  window : Window cfg state'
  onward : Onward state state'
  opens : state.active = false → state'.active = true →
    ∃ now ∈ reading, state.startTime ≤ now ∧ now < state.endTime

lemma Window.stay (h : Window cfg state) {reading : Option Time} : Moves cfg reading state state :=
  ⟨h, .refl, fun hoff hon => absurd (hoff.symm.trans hon) false_ne_true⟩

lemma Window.arm (h : Window cfg state) {info : PathDiscoveryInfo} {now : Time} :
    Moves cfg none state (armDtFailureAfterPdConvergence cfg state info now) := by
  by_cases hskip : (!failureEnabled cfg) = true ∨ state.armed = true ∨ state.recovered = true
  · rw [armDtFailureAfterPdConvergence, if_pos hskip]
    exact h.stay
  have harmed : state.armed = false := by simp_all
  have hrecovered : state.recovered = false := by simp_all
  -- an experiment that is not armed has not begun
  have hoff : state.active = false := by
    by_contra hon
    exact absurd (harmed.symm.trans (h.active (by simpa using hon)).1.2.1) false_ne_true
  have hzero : state.activationEpoch = 0 := by
    by_contra hne
    exact absurd (harmed.symm.trans (h.spent hne).1) false_ne_true
  have hmoves : ∀ state' : DtFailureNodeState, state'.active = state.active →
      state'.activationEpoch = state.activationEpoch → Moves cfg none state state' := by
    intro state' hactive hepoch
    refine ⟨⟨?_, fun hon => ?_, fun hne => ?_⟩, ⟨fun h => ?_, fun h => ?_, hepoch.ge⟩, ?_⟩
    · exact hepoch.trans_le h.epoch_le
    · exact absurd ((hactive.trans hoff).symm.trans hon) false_ne_true
    · exact absurd (hepoch.trans hzero) hne
    · exact absurd (harmed.symm.trans h) false_ne_true
    · exact absurd (hrecovered.symm.trans h) false_ne_true
    · exact fun _ hon => absurd ((hactive.trans hoff).symm.trans hon) false_ne_true
  simp only [armDtFailureAfterPdConvergence, if_neg hskip]
  split_ifs
  · exact hmoves _ rfl rfl
  · split <;> exact hmoves _ rfl rfl

/-- A snapshot reports the state it leaves. -/
structure Reports (snapshot : DtFailureSnapshot) (state : DtFailureNodeState) : Prop where
  active : snapshot.active = state.active
  failedFace : snapshot.active = true → snapshot.failedFace = state.failedFace
  epoch : snapshot.active = true → snapshot.activationEpoch = state.activationEpoch

lemma Window.snapshot (h : Window cfg state) {now : Time} :
    Moves cfg (some now) state (dtFailureSnapshot cfg state now).1
      ∧ Reports (dtFailureSnapshot cfg state now).2 (dtFailureSnapshot cfg state now).1 := by
  by_cases harm : Armed cfg state
  swap
  · obtain ⟨failedFace, heq⟩ : ∃ f, dtFailureSnapshot cfg state now = (state, ⟨false, f, 0⟩) :=
      snapshot_of_not_armed harm
    rw [heq]
    have hoff : state.active = false := by
      by_contra hon
      exact harm (h.active (by simpa using hon)).1
    exact ⟨h.stay, hoff.symm, nofun, nofun⟩
  by_cases hopen : Opens state now
  · rw [snapshot_of_opens harm hopen]
    obtain ⟨hoff, hrec, hstart, hend⟩ := hopen
    have hzero : state.activationEpoch = 0 := by
      by_contra hne
      rcases (h.spent hne).2 with hon | hon
      · exact absurd (hoff.symm.trans hon) false_ne_true
      · exact absurd (hrec.symm.trans hon) false_ne_true
    refine ⟨⟨⟨?_, fun _ => ⟨harm, hrec, ?_⟩, fun _ => ⟨harm.2.1, .inl rfl⟩⟩,
      ⟨fun h => ⟨h, rfl⟩, id, Nat.le_succ _⟩, fun _ _ => ⟨now, rfl, hstart, hend⟩⟩, rfl,
      fun _ => rfl, fun _ => rfl⟩
    · simp [hzero]
    · simp [hzero]
  by_cases hclose : Closes state now
  · rw [snapshot_of_closes harm hclose]
    exact ⟨⟨⟨h.epoch_le, nofun, fun hne => ⟨(h.spent hne).1, .inr rfl⟩⟩,
      ⟨fun h => ⟨h, rfl⟩, fun _ => rfl, le_rfl⟩, fun _ h => by cases h⟩, rfl, nofun, nofun⟩
  · rw [snapshot_of_stays harm hopen hclose]
    exact ⟨h.stay, rfl, fun _ => rfl, fun _ => rfl⟩

/-- The clock reading of the snapshot that a step takes. -/
def WindowEvent.reading : WindowEvent → Option Time
  | .snapshot now => some now
  | .sync _ now => some now
  | .epoch now => some now
  | .drain _ now => some now
  | _ => none

lemma Moves.trans {state' state'' : DtFailureNodeState} (h : Moves cfg none state state')
    (h' : Moves cfg none state' state'') : Moves cfg none state state'' where
  window := h'.window
  onward := h.onward.trans h'.onward
  opens hoff hon := by
    cases hmid : state'.active with
    | true => exact h.opens hoff hmid
    | false =>
      obtain ⟨now, hnow, -⟩ := h'.opens hmid hon
      cases hnow

lemma moves_afterConvergence {now : Time} {out : List PdAction} {node : Node}
    (h : Window cfg node.failure) :
    Moves cfg none node.failure (out.foldl (afterConvergence cfg now) node).failure := by
  induction out generalizing node with
  | nil => exact h.stay
  | cons a out ih =>
    have hone : Moves cfg none node.failure (afterConvergence cfg now node a).failure := by
      cases a with
      | localNodeConverged info =>
        simp only [afterConvergence]
        split_ifs <;> exact h.arm
      | _ => exact h.stay
    exact hone.trans (ih hone.window)

lemma routeInterest_failure {node : Node} {threadID pitEntry : ℕ} {packet : FwInterest}
    {inFace : Face} {nexthops : List FibNextHopEntry} {snapshot : DtFailureSnapshot} {now : Time} :
    (routeInterest cfg threadID node packet pitEntry inFace nexthops snapshot now).1.failure
      = node.failure := by
  simp only [routeInterest, shapeInterest, enqueueShaped, sendBootstrap]
  split_ifs <;> rfl

/-- **A step moves the window on.** -/
lemma window_step (h : Window cfg s.node.failure) (e : WindowEvent) :
    Moves cfg e.reading s.node.failure (windowStep cfg s e).node.failure := by
  cases e with
  | pd e now =>
    have hpd : Window cfg
        { s.node with pd := (pdHandle cfg.nodeName s.node.pd e).state }.failure := h
    exact moves_afterConvergence hpd
  | dtNack name inFace nackReason inRecords => exact h.stay
  | rateRound face newRate starved => exact h.stay
  | snapshot now | sync threadID now => exact (h.snapshot).1
  | reassign threadID wish =>
    simp only [windowStep, windowHandle, applySnapshot_failure]
    exact h.stay
  | interest threadID packet pitEntry inFace nexthops now =>
    simp only [windowStep, windowHandle, routeInterest_failure]
    exact h.stay
  | epoch now =>
    simp only [windowStep, windowHandle, runDtFastSchedulerEpochIfDue]
    split_ifs <;> exact (h.snapshot).1
  | drain threadID now =>
    simp only [windowStep, windowHandle]
    split_ifs
    · exact h.stay
    · exact (h.snapshot).1

/-! ### The snapshots of the handlers -/

/-- A snapshot that was active when it was taken: the face it names stays the one to fail. -/
def Held (cfg : NodeConfig) (state : DtFailureNodeState) (snapshot : DtFailureSnapshot) : Prop :=
  snapshot.active = true → Armed cfg state ∧ snapshot.failedFace = state.failedFace
    ∧ snapshot.activationEpoch = 1 ∧ state.activationEpoch = 1

lemma Held.onward {state' : DtFailureNodeState} {snapshot : DtFailureSnapshot}
    (h : Held cfg state snapshot) (hon : Onward state state') (hwindow : Window cfg state') :
    Held cfg state' snapshot := by
  intro hactive
  obtain ⟨⟨henabled, harmed, hne⟩, hface, hepoch, hone⟩ := h hactive
  obtain ⟨harmed', hface'⟩ := hon.armed harmed
  refine ⟨⟨henabled, harmed', hface' ▸ hne⟩, hface.trans hface'.symm, hepoch, ?_⟩
  exact le_antisymm hwindow.epoch_le (hone ▸ hon.epoch)

lemma Reports.held {snapshot : DtFailureSnapshot} (h : Reports snapshot state)
    (hwindow : Window cfg state) : Held cfg state snapshot := by
  intro hactive
  obtain ⟨harm, -, hone⟩ := hwindow.active (h.active ▸ hactive)
  exact ⟨harm, h.failedFace hactive, (h.epoch hactive).trans hone, hone⟩

/-- The window, and the snapshots that the threads hold. -/
structure Timed (cfg : NodeConfig) (s : BusyNode) : Prop where
  window : Window cfg s.node.failure
  held : ∀ threadID, Held cfg s.node.failure (s.held threadID)

lemma timed_new : Timed cfg .new := ⟨window_new, fun _ => nofun⟩

/-- Only `syncDtFailureState` replaces the snapshot of a thread, by one that reports the state. -/
lemma held_step (h : Window cfg s.node.failure) {e : WindowEvent} {threadID : ℕ} :
    (windowStep cfg s e).held threadID = s.held threadID
      ∨ (∃ now, e = .sync threadID now)
        ∧ Reports ((windowStep cfg s e).held threadID) (windowStep cfg s e).node.failure := by
  cases e with
  | sync t now =>
    rcases eq_or_ne threadID t with rfl | hne
    · refine .inr ⟨⟨now, rfl⟩, ?_⟩
      simp only [windowStep, windowHandle, BusyNode.snap, update_self]
      exact (h.snapshot).2
    · exact .inl (update_of_ne hne _ _)
  | drain t now =>
    simp only [windowStep, windowHandle]
    split_ifs <;> exact .inl rfl
  | _ => exact .inl rfl

lemma timed_step (h : Timed cfg s) (e : WindowEvent) : Timed cfg (windowStep cfg s e) := by
  have hmoves := window_step h.window e
  refine ⟨hmoves.window, fun threadID => ?_⟩
  rcases held_step h.window with heq | ⟨-, hreports⟩
  · rw [heq]
    exact (h.held threadID).onward hmoves.onward hmoves.window
  · exact hreports.held hmoves.window

lemma timed_windowRun (cfg : NodeConfig) (es : List WindowEvent) : Timed cfg (windowRun cfg es) :=
  Steps.run_invariant (I := Timed cfg) (fun _ e h => timed_step h e) timed_new es

/-- **A window that has closed stays closed.** -/
lemma closed_run (h : Timed cfg s) (hrec : s.node.failure.recovered = true)
    (fs : List WindowEvent) :
    (Steps.run (windowStep cfg) s fs).node.failure.active = false := by
  have hstep : ∀ s e, Timed cfg s ∧ s.node.failure.recovered = true →
      Timed cfg (windowStep cfg s e) ∧ (windowStep cfg s e).node.failure.recovered = true :=
    fun s e h => ⟨timed_step h.1 e, (window_step h.1.window e).onward.recovered h.2⟩
  have hrun := Steps.run_invariant hstep ⟨h, hrec⟩ fs
  by_contra hon
  have hopen := (hrun.1.window.active (by simpa using hon)).2.1
  exact absurd (hopen.symm.trans hrun.2) false_ne_true

/-! ### A handler and its own snapshot -/

/-- The snapshot that a step goes by. -/
def BusyNode.own (cfg : NodeConfig) (s : BusyNode) : WindowEvent → Option DtFailureSnapshot
  | .interest threadID _ _ _ _ _ => some (s.held threadID)
  | .drain threadID now =>
    if (s.node.dt.threads threadID).dtLocalFaceOrder = [] then none else some (s.snap cfg now).2
  | _ => none

/-- The action sends or enqueues a DT Interest on face `f`. -/
def NodeAction.Uses (f : Face) : NodeAction → Prop
  | .sendInterest _ _ nexthop _ => nexthop = f
  | .enqueue _ _ assignedFace _ => assignedFace = f
  | _ => False

lemma notMem_dtFacesOf {snapshot : DtFailureSnapshot} (hactive : snapshot.active = true)
    (hne : snapshot.failedFace ≠ 0) (info : PathDiscoveryInfo) (nexthops : List FibNextHopEntry) :
    snapshot.failedFace ∉ dtFacesOf info nexthops snapshot := by
  simp only [dtFacesOf, hactive, if_true]
  exact notMem_dtFilterFacesWithoutFailure hne

/-- A blocked face is not drained. -/
lemma drainFaces_avoids {snapshot : DtFailureSnapshot} {f : Face}
    (hblocked : snapshot.blocks f = true) (n threadID visits : ℕ) (view : DtView) :
    ∀ sent ∈ (drainFaces n threadID snapshot visits view).2, sent.1 ≠ f := by
  induction visits generalizing view with
  | zero => simp [drainFaces]
  | succ visits ih =>
    simp only [drainFaces]
    intro sent hsent
    rcases List.mem_append.mp hsent with hsent | hsent
    · obtain ⟨item, hitem, rfl⟩ := List.mem_map.mp hsent
      rintro rfl
      rw [drainDtInterestForFace, if_pos hblocked] at hitem
      cases hitem
    · exact ih _ sent hsent

/-- **A handler respects its own snapshot**: while that is active, it neither sends nor enqueues
a DT Interest on the failed face. -/
lemma own_snapshot_respected (h : Timed cfg s) {e : WindowEvent} {snapshot : DtFailureSnapshot}
    (hown : snapshot ∈ s.own cfg e) (hactive : snapshot.active = true) :
    snapshot.failedFace = (windowStep cfg s e).node.failure.failedFace
      ∧ ∀ a ∈ (windowHandle cfg s e).2, ¬a.Uses snapshot.failedFace := by
  cases e with
  | interest threadID packet pitEntry inFace nexthops now =>
    obtain rfl := Option.some.inj hown
    obtain ⟨harm, hface, -⟩ := h.held threadID hactive
    have hne : (s.held threadID).failedFace ≠ 0 := hface ▸ harm.2.2
    refine ⟨?_, fun a ha => ?_⟩
    · simp only [windowStep, windowHandle, routeInterest_failure]
      exact hface
    · have hfree : NodeItems (fun _ _ _ => True) s.node := fun _ _ _ _ => trivial
      obtain ⟨face, hmem, rfl | rfl⟩ := (hfree.routeInterest rfl fun _ _ _ _ => trivial).out a ha
      all_goals
        rintro rfl
        exact notMem_dtFacesOf hactive hne _ _ hmem
  | drain threadID now =>
    simp only [BusyNode.own] at hown
    split_ifs at hown with hnone
    · cases hown
    obtain rfl := Option.some.inj hown
    obtain ⟨-, hreports⟩ := h.window.snapshot
    simp only [windowStep, windowHandle, if_neg hnone]
    refine ⟨hreports.failedFace hactive, fun a ha => ?_⟩
    obtain ⟨sent, hsent, rfl⟩ := List.mem_map.mp ha
    refine drainFaces_avoids ?_ _ _ _ _ sent hsent
    simp [DtFailureSnapshot.blocks, hactive]
  | _ => cases hown

end Mars
