import Mars.Sync.AloDelivery

/-!
The fetch window: what is known, what is pending and what is the latest.

* `Windowed`: the window of every publisher and boot time is in order, and the updates that wait
  lead from the latest number to the one of the state vector;
* `WindowKept`: a delivery meets a gap at the latest after what is pending, a snapshot is not newer
  than the latest number, and nothing is published while an update for the own name waits;
* `windowed_step`, `fetch_window_in_order`: runs that meet the condition keep the windows in order;
* `delivered_past_pending`: a run after which more is known than pending.
-/

namespace Mars.Sync.SvsALO

variable {N κ W C S E : Type*} [DecidableEq N] [DecidableEq κ] {o : SvsAloOpts N κ}
  {s : SvsALO N κ W C S E}

/-- The window of an entry is in order. -/
def Window {P : Type*} (e : SvsDataState P) : Prop := e.known ≤ e.pending ∧ e.pending ≤ e.latest

/-- The windows are in order, and the updates that wait go on from the latest numbers. -/
structure Windowed (o : SvsAloOpts N κ) (s : SvsALO N κ W C S E) : Prop where
  window : ∀ hash boot, Window (SvMap.get s.state hash boot)
  covers : ∀ node boot, Covers (s.entry o node boot).latest
    (SvMap.get s.svs.state (o.svs.tlvStr node) boot) (SvSync.ranges node boot s.updates)

lemma Windowed.of_eq {s' : SvsALO N κ W C S E} (h : Windowed o s) (hstate : s'.state = s.state)
    (hsvs : s'.svs.state = s.svs.state) (hupdates : s'.updates = s.updates) : Windowed o s' where
  window := hstate ▸ h.window
  covers node boot := by
    rw [entry, hstate, hsvs, hupdates]
    exact h.covers node boot

omit [DecidableEq N] [DecidableEq κ] in
lemma Rechecked.window_of {P : Type*} {e e' : SvsDataState P} (h : Rechecked o e e')
    (he : Window e) : Window e' := by
  obtain ⟨hknown, hpending⟩ := he
  have hlatest := h.latest
  rcases h.window with ⟨hsame, hle, hmax⟩ | ⟨-, hknown', hpending'⟩
  · exact ⟨by omega, by omega⟩
  · exact ⟨by omega, by omega⟩

lemma Windowed.of_rechecks {s' : SvsALO N κ W C S E} (h : Windowed o s) (hr : Rechecks o s s') :
    Windowed o s' where
  window hash boot := (hr.entries hash boot).window_of (h.window hash boot)
  covers node boot := by
    rw [entry, (hr.entries _ _).latest, hr.svs, hr.updates]
    exact h.covers node boot

/-- An entry is replaced by one with the same latest number. -/
lemma Windowed.setEntry (h : Windowed o s) {node : N} {boot : ℕ}
    {value : SvsDataState (SvsPub N C S)} (hvalue : Window value)
    (hlatest : value.latest = (s.entry o node boot).latest) :
    Windowed o (s.setEntry o node boot value) where
  window hash boot' := by
    rw [get_setEntry]
    split_ifs
    · exact hvalue
    · exact h.window hash boot'
  covers node' boot' := by
    rw [entry, get_setEntry]
    split_ifs with hkey
    · obtain rfl := o.tlvStr_injective hkey.1
      rw [hlatest, hkey.2]
      exact hkey.2 ▸ h.covers node' boot'
    · exact h.covers node' boot'

/-! ### The condition -/

/-- A fetch that is over is not delivered, or a number up to the one after what is pending is
neither in the buffer nor the fetched one. -/
def DeliveryEnds (o : SvsAloOpts N κ) (s : SvsALO N κ W C S E) (f : AloFetch N) : Prop :=
  let e := s.entry o f.node f.boot
  f.seq ≤ e.known ∨ e.snapBlock ≠ 0 ∨ (s.subs o f.node).isEmpty ∨
    ∃ t, e.known < t ∧ t ≤ e.pending + 1 ∧ t ≠ f.seq ∧ t ∉ e.pendingPubs

/-- What an event has to meet for the windows to stay in order. -/
def WindowKept (o : SvsAloOpts N κ) (s : SvsALO N κ W C S E) : AloEvent N κ W C S E → Prop
  | .fetched k (.ok _) _ => ∀ f, s.fetching[k]? = some f → DeliveryEnds o s f
  | .snapFetched k (.ok snap) _ _ => ∀ node boot, s.snapFetching[k]? = some (node, boot) →
      (s.entry o node boot).snapBlock ≠ 1 ∨ snap.version ≤ (s.entry o node boot).latest
  | .publish produced => produced = true →
      o.svs.passive = false ∧ SvSync.ranges o.name o.svs.bootTime s.updates = []
  | _ => True

/-! ### Steps -/

section

variable (h : Windowed o s)
include h

/-- The updates of a state vector go on from the ones that wait. -/
lemma Windowed.receive {args : RecvSv N W} {now : Time} :
    Windowed o (s.step o (.receive args now)) where
  window := h.window
  covers node boot := by
    have hjoins : SvSync.Joins o.svs node boot _ _ _ _ :=
      SvSync.joins_onReceiveStateVector o.tlvStr_injective s.svs args now
    rw [step, SvSync.ranges_append]
    exact (h.covers node boot).append hjoins.covers

/-- The first update that waits raises the latest number. -/
lemma Windowed.update {congested : N → ℕ → ℕ → Bool} :
    Windowed o (s.step o (.update congested)) := by
  rw [step]
  split
  · exact h
  · next u us hupdates =>
      have hcovers := h.covers u.name u.boot
      rw [hupdates, SvSync.ranges_cons, if_pos ⟨rfl, rfl⟩] at hcovers
      obtain ⟨hlow, hhigh, hrest⟩ := hcovers
      rw [onSvsUpdate]
      refine Windowed.of_rechecks ⟨fun hash boot => ?_, fun node boot => ?_⟩
        (rechecks_consumeCheck congested _ _)
      · rw [get_setEntry]
        split_ifs
        · obtain ⟨hknown, hpending⟩ : Window (s.entry o u.name u.boot) := h.window _ u.boot
          rw [hlow] at hhigh
          exact ⟨hknown, hpending.trans (Nat.le_of_lt hhigh)⟩
        · exact h.window hash boot
      · rw [entry, get_setEntry]
        split_ifs with hkey
        · obtain rfl := o.tlvStr_injective hkey.1
          obtain rfl := hkey.2
          exact hrest
        · have hother := h.covers node boot
          have hne : ¬ (u.name = node ∧ u.boot = boot) :=
            fun hk => hkey ⟨congrArg o.svs.tlvStr hk.1.symm, hk.2.symm⟩
          rwa [hupdates, SvSync.ranges_cons, if_neg hne] at hother

/-- A delivery that meets a gap does not pass what is pending. -/
lemma Windowed.deliver {node : N} {boot : ℕ} {e : SvsDataState (SvsPub N C S)}
    {r : SvsDataState (SvsPub N C S) × List (SvsPub N C S)} (hr : Delivered e r)
    (hpending : e.pending = (s.entry o node boot).pending)
    (hlatest : e.latest = (s.entry o node boot).latest) {t : ℕ} (hlt : e.known < t)
    (hle : t ≤ e.pending + 1) (hgap : t ∉ e.pendingPubs) :
    Windowed o (s.setEntry o node boot r.1) := by
  have hwindow : Window (s.entry o node boot) := h.window _ boot
  have hreached : r.1.known < t := not_le.mp fun ht => hgap (hr.mem hlt ht)
  refine h.setEntry ⟨?_, ?_⟩ (hr.latest.trans hlatest)
  · rw [hr.pending]
    exact Nat.le_of_lt_succ (Nat.lt_of_lt_of_le hreached hle)
  · rw [hr.pending, hr.latest, hpending, hlatest]
    exact hwindow.2

/-- The callback of a fetch keeps the windows in order. -/
lemma Windowed.onConsumed {f : AloFetch N} {status : Except E (Fetched N C)}
    (hends : ∀ data, status = .ok data → DeliveryEnds o s f) :
    Windowed o (s.onConsumed o f status) := by
  obtain ⟨hknown, hpending⟩ := h.window (o.svs.tlvStr f.node) f.boot
  rw [SvsALO.onConsumed]
  dsimp only
  split_ifs with hdone hblocked
  · exact h
  · -- what is pending goes back to the number before, which is not below the known one
    exact h.setEntry ⟨le_min hknown (Nat.le_sub_one_of_lt (not_le.mp hdone)),
      (min_le_left _ _).trans hpending⟩ rfl
  · cases status with
    | error err => exact h.of_eq rfl rfl rfl
    | ok data =>
      obtain ⟨t, hlt, hle, hseq, hbuffer⟩ :=
        (((hends data rfl).resolve_left hdone).resolve_left fun hb => hblocked (.inl hb))
          |>.resolve_left fun hsubs => hblocked (.inr hsubs)
      refine Windowed.of_eq (h.deliver
        (e := { s.entry o f.node f.boot with
          pendingPubs := (s.entry o f.node f.boot).pendingPubs.insert f.seq _ })
        (delivered_deliver _ _) rfl rfl hlt hle ?_) rfl rfl rfl
      rw [AList.mem_insert, not_or]
      exact ⟨hseq, hbuffer⟩

lemma Windowed.handleSnap {node : N} {boot : ℕ} {status : Except E (Fetched N C)}
    (hversion : ∀ snap, status = .ok snap →
      (s.entry o node boot).snapBlock ≠ 1 ∨ snap.version ≤ (s.entry o node boot).latest) :
    Windowed o (s.handleSnap o node boot status) := by
  have hwindow : Window (s.entry o node boot) := h.window _ boot
  unfold SvsALO.handleSnap
  dsimp only
  split_ifs with hblock
  · exact h.of_eq rfl rfl rfl
  · cases status with
    | error err =>
      have hset : Windowed o (s.setEntry o node boot
        { s.entry o node boot with snapBlock := 0 }) := h.setEntry hwindow rfl
      exact hset.of_eq rfl rfl rfl
    | ok snap =>
      dsimp only
      by_cases hold : snap.version ≤ (s.entry o node boot).known
      · rw [if_pos hold]
        have hset : Windowed o (s.setEntry o node boot
          { s.entry o node boot with snapBlock := 0 }) := h.setEntry hwindow rfl
        exact hset.of_eq rfl rfl rfl
      · rw [if_neg hold]
        have hset : Windowed o (s.setEntry o node boot
          { s.entry o node boot with
            snapBlock := 0
            known := snap.version
            pending := max (s.entry o node boot).pending snap.version }) :=
          h.setEntry ⟨le_max_right _ _, max_le hwindow.2
            ((hversion snap rfl).resolve_left fun hb => hblock hb)⟩ rfl
        exact hset.of_eq rfl rfl rfl

/-- An own publication is known at once, and no update for it waits. -/
lemma Windowed.produceObject {produced : Bool} (hown : produced = true →
      o.svs.passive = false ∧ SvSync.ranges o.name o.svs.bootTime s.updates = []) :
    Windowed o (s.produceObject o produced) := by
  rw [SvsALO.produceObject]
  dsimp only
  split_ifs with hproduced
  · obtain ⟨hpassive, hnone⟩ := hown hproduced
    rw [SvSync.incrSeqNo, if_neg (by simp [hpassive])]
    refine ⟨fun hash boot => ?_, fun node boot => ?_⟩
    · rw [get_setEntry]
      split_ifs
      · exact ⟨le_rfl, le_rfl⟩
      · exact h.window hash boot
    · rw [entry, get_setEntry]
      change Covers _ (SvMap.get (SvMap.set _ _ _ _) _ _) _
      rw [SvMap.get_set]
      split_ifs with hkey
      · obtain rfl := o.tlvStr_injective hkey.1
        obtain rfl := hkey.2
        exact hnone.symm ▸ rfl
      · exact h.covers node boot
  · exact h

/-- Every event that meets the condition keeps the windows in order. -/
lemma windowed_step {e : AloEvent N κ W C S E} (he : WindowKept o s e) :
    Windowed o (s.step o e) := by
  cases e with
  | receive args now => exact h.receive
  | timerExpired =>
    refine h.of_eq rfl ?_ rfl
    rw [step, SvSync.timerExpired]
    split_ifs <;> rfl
  | sendSyncInterest =>
    refine h.of_eq rfl ?_ rfl
    rw [step, SvSync.sendSyncInterest]
    split_ifs <;> rfl
  | update congested => exact h.update
  | fetched k status congested =>
    rw [step]
    split
    · exact h
    · next f hf =>
        refine Windowed.of_rechecks ?_ (rechecks_consumeCheck congested _ _)
        refine Windowed.onConsumed ?_ ?_
        · exact h.of_eq rfl rfl rfl
        · rintro data rfl
          exact he f hf
  | retry k =>
    rw [step]
    split
    · exact h
    · exact h.of_eq rfl rfl rfl
  | snapFetched k status order congested =>
    rw [step.eq_def]
    dsimp only
    split
    · exact h
    · next node boot snap hsnap =>
        refine Windowed.of_rechecks ?_ (rechecks_consumeEach congested _)
        refine Windowed.handleSnap ?_ ?_
        · exact h.of_eq rfl rfl rfl
        · intro snap' hok
          obtain rfl := Except.ok.inj hok
          exact he node boot hsnap
    · exact h.of_eq rfl rfl rfl
  | snapRetry k order congested =>
    rw [step]
    split
    · exact h
    · refine Windowed.of_rechecks ?_ (rechecks_consumeEach congested _)
      refine Windowed.handleSnap ?_ fun snap hok => by cases hok
      exact h.of_eq rfl rfl rfl
  | subscribe pfx callback order congested =>
    refine Windowed.of_rechecks ?_ (rechecks_consumeEach congested _)
    exact h.of_eq rfl rfl rfl
  | unsubscribe pfx => exact h.of_eq rfl rfl rfl
  | publish produced => exact h.produceObject he

end

lemma windowed_new {initial : List (StateVectorEntry N)} :
    Windowed o (new o initial : SvsALO N κ W C S E) where
  window hash boot := by
    rw [get_new]
    exact ⟨le_rfl, le_rfl⟩
  covers node boot := by
    rw [entry, get_new]
    rfl

/-- **The fetch window does not underflow** in any run whose events meet the condition. -/
theorem fetch_window_in_order (initial : List (StateVectorEntry N))
    {es : List (AloEvent N κ W C S E)}
    (hes : Steps.Guarded (step o) (WindowKept o) (new o initial) es) (node : N) (boot : ℕ) :
    let e := (Steps.run (step o) (new o initial) es).entry o node boot
    e.known ≤ e.pending ∧ e.pending ≤ e.latest :=
  (Steps.guarded_invariant (I := Windowed o) (fun _ _ hs he => windowed_step hs he)
    windowed_new hes).window _ boot

theorem two_fetches_in_window :
    Steps.Guarded (step plainOpts) (WindowKept plainOpts) (new plainOpts []) outOfOrder ∧
      let e := (Steps.run (step plainOpts) (new plainOpts []) outOfOrder).entry plainOpts 7 1
      e.known ≤ e.pending ∧ e.pending ≤ e.latest := by
  have hes : Steps.Guarded (step plainOpts) (WindowKept plainOpts) (new plainOpts [])
      outOfOrder := by
    refine ⟨trivial, trivial, trivial, fun f hf => ?_, fun f hf => ?_, trivial⟩
    · obtain rfl : ⟨7, 1, 2⟩ = f := Option.some.inj hf
      exact .inr (.inr (.inr ⟨1, by decide +kernel⟩))
    · obtain rfl : ⟨7, 1, 1⟩ = f := Option.some.inj hf
      exact .inr (.inr (.inr ⟨3, by decide +kernel⟩))
  exact ⟨hes, fetch_window_in_order [] hes 7 1⟩

/-- Of three publications the second and the third arrive, and after the subscription ends the
first: what is pending goes back.  With the next subscription only two are fetched again, since the
client is congested. -/
def rewound : List (AloEvent ℕ ℕ Unit ℕ Unit Unit) :=
  [.subscribe 7 () [] fun _ _ _ => false, .receive ⟨[⟨7, [⟨1, 3⟩]⟩], ()⟩ 0,
    .update fun _ _ _ => false, .fetched 1 (.ok ⟨7, some 200, 0⟩) fun _ _ _ => false,
    .fetched 1 (.ok ⟨7, some 300, 0⟩) fun _ _ _ => false, .unsubscribe 7,
    .fetched 0 (.ok ⟨7, some 100, 0⟩) fun _ _ _ => false,
    .subscribe 7 () [] fun _ _ _ => true, .fetched 0 (.ok ⟨7, some 100, 0⟩) fun _ _ _ => true]

/-- The buffered publications are delivered past what is pending, and the difference wraps. -/
theorem delivered_past_pending :
    let e := (Steps.run (step plainOpts) (new plainOpts []) rewound).entry plainOpts 7 1
    e.known = 3 ∧ e.pending = 2 ∧ usub e.pending e.known = 2 ^ 64 - 1 ∧
      ¬ (e.known ≤ e.pending ∧ e.pending ≤ e.latest) := by
  decide +kernel

end Mars.Sync.SvsALO
