import Mars.Consumer.Ownership

/-!
No request of a transfer is lost.

A name that is pending is always someone's business: the timer of its current attempt is set, or its
sequence is marked for retransmission, or the sender has it in hand.  The three hand it on: an
expired timer marks the sequence, the sender takes the mark away, and `Add` sets a new timer.

* `Core.Clocked`, `SenderPc.Carries`, `SeenTo`: the three;
* `mem_retxQueued_step`, `clocked_step`, `carried_step`: what becomes of each of them in a step;
* `Recovering`: the invariant; `requests_never_lost`.
-/

namespace Mars

open FlowContext Finset Mars.Core RetransmissionController List SenderPc

variable {cfg : ConsumerConfig} {f : FlowContext} {c : Core} {s : Consumer} {e : ConsumerEvent}
  {rc : RetransmissionController} {i : ℕ} {k : ℤ} {name : Name} {op : FlowOp} {now : Time}

/-! ### Marks -/

lemma retxQueued_clearQueued {seq : ℤ} :
    (f.clearQueuedRetransmission seq).retxQueued
      = if seq ≤ 0 then f.retxQueued else f.retxQueued.erase seq := by
  rw [clearQueuedRetransmission]
  split_ifs <;> rfl

lemma mem_retxQueued_locked {seq : ℤ} (h : k ∈ f.retxQueued) :
    k ∈ (f.queueRetransmissionLocked seq).1.retxQueued := by
  rw [queueRetransmissionLocked]
  split_ifs
  · exact h
  · exact mem_insert_of_mem h
  · exact h

/-- A sequence that is pending and not received can be marked. -/
lemma mem_retxQueued_queueRetransmission (hmode : f.mode = .dt) (hunfinished : f.isFinished = false)
    (hunreceived : k ∉ f.receivedSeqs) (hpos : 0 < k)
    (hpending : f.interestNameForSeq k ∈ f.pendingSends) :
    k ∈ (f.queueRetransmission k).1.retxQueued := by
  rw [queueRetransmission, if_neg (not_le.mpr hpos), queueRetransmissionLocked]
  by_cases hmarked : k ∈ f.retxQueued
  · rw [if_pos (.inr (.inr (.inr hmarked)))]
    exact hmarked
  · rw [if_neg (by simp [hmode, hunfinished, hunreceived, hmarked]), if_neg (not_not.mpr hpending)]
    exact mem_insert_self _ _

lemma mem_retxQueued_quiet (hquiet : op.quiet = true) (hpop : op ≠ .pop)
    (hinstall : ∀ generation isFastRepair, op ≠ .install k generation isFastRepair)
    (h : k ∈ f.retxQueued) : k ∈ (flowStep cfg f op).retxQueued := by
  cases op with
  | queueRetransmission seq =>
    rw [flowStep, queueRetransmission]
    split_ifs
    · exact h
    · exact mem_retxQueued_locked h
  | queueRepair candidate =>
    rw [flowStep]
    obtain ⟨outcome, -, heq⟩ | ⟨-, -, heq⟩ := f.queueShadowFastRepair_cases <;> rw [heq]
    · exact h
    · exact mem_retxQueued_locked h
  | pop => exact absurd rfl hpop
  | install seq generation isFastRepair =>
    rw [flowStep, installShadowAttemptAndClearQueued, retxQueued_clearQueued]
    by_cases hseq : seq ≤ 0
    · rw [if_pos hseq]
      exact h
    · rw [if_neg hseq]
      refine mem_erase.mpr ⟨fun heq => ?_, h⟩
      exact hinstall generation isFastRepair (by rw [heq])
  | scan now =>
    rw [flowStep, runShadowLossScan]
    split_ifs <;> exact h
  | setRate rate =>
    rw [flowStep, setRate]
    split_ifs <;> exact h
  | repairOutcome | shadowRTO | dtRTO => exact h
  | _ => cases hquiet

/-- A section that does not pop marks or clear that of `k`. -/
structure FlowOp.KeepsMark (k : ℤ) (op : FlowOp) : Prop where
  stays : op.stays
  not_pop : op ≠ .pop
  not_install : ∀ generation isFastRepair, op ≠ .install k generation isFastRepair

lemma FlowOp.keepsMark_of_books (h : op.books = true) : op.KeepsMark k := by
  refine ⟨?_, ?_, ?_⟩
  · rintro now rfl
    cases h
  · rintro rfl
    cases h
  · rintro generation isFastRepair rfl
    cases h

/-- A mark stays until it is popped, or the sequence is sent again or received. -/
lemma mem_retxQueued_step (hmode : f.mode = .dt) (hop : op.KeepsMark k)
    (hunfinished : (flowStep cfg f op).isFinished = false)
    (hunreceived : k ∉ (flowStep cfg f op).receivedSeqs) (h : k ∈ f.retxQueued) :
    k ∈ (flowStep cfg f op).retxQueued := by
  have hstep : DtStep cfg f op (flowStep cfg f op) := dtStep_flowStep hmode
  by_cases hquiet : op.quiet = true
  · exact mem_retxQueued_quiet hquiet hop.not_pop hop.not_install h
  · generalize flowStep cfg f op = f' at hstep hunfinished hunreceived ⊢
    cases hstep with
    | quiet hq => exact absurd hq hquiet
    | accepted htrue hacc =>
      rw [hacc.receivedSeqs, mem_insert, not_or] at hunreceived
      rw [hacc.retxQueued]
      exact mem_erase.mpr ⟨hunreceived.1, h⟩
    | cleared hfalse hover hqueued =>
      rcases hqueued with rfl | ⟨-, rfl⟩
      · exact h
      · refine mem_erase.mpr ⟨fun heq => ?_, h⟩
        rcases hover with hfinished | hreceived
        · exact Bool.noConfusion (hfinished.symm.trans hunfinished)
        · exact hunreceived (heq ▸ hreceived)
    | switch now => exact absurd rfl (hop.stays now)
    | _ => exact h

/-- A flow that has not finished had not before, unless it was switched. -/
lemma DtStep.unfinished {f' : FlowContext} (h : DtStep cfg f op f') (hstays : op.stays)
    (hunfinished : f'.isFinished = false) : f.isFinished = false := by
  cases h with
  | quiet hquiet hframe => exact hframe.isFinished.symm.trans hunfinished
  | accepted htrue hacc => exact hacc.unfinished
  | switch now => exact absurd rfl (hstays now)
  | _ => exact hunfinished

/-! ### Timers -/

/-- The timer of the current attempt of a name is set, or in the hand of the scheduler. -/
def Core.Clocked (c : Core) (name : Name) : Prop :=
  ∃ item ∈ c.timers, c.ctl.currentGeneration name = some item.generation

lemma Core.timers_of_free (h : c.lock = .free) : c.timers = c.ctl.pq.map Prod.fst := by
  rw [timers, h]
  rfl

lemma currentGeneration_remove_of_ne {name' : Name} (h : name ≠ name') :
    (rc.remove name').currentGeneration name = rc.currentGeneration name := by
  rw [currentGeneration, remove, AList.lookup_erase_ne h]
  rfl

/-- The attempt of a timer that is the clock of a name is the current one of that name. -/
lemma Stamped.current (h : Stamped c) {item : PendingPacket} (hitem : item ∈ c.timers)
    (hcurrent : c.ctl.currentGeneration name = some item.generation) : item.name = name := by
  obtain ⟨a, hlookup, hgeneration⟩ := Option.map_eq_some_iff.mp hcurrent
  exact h.same item hitem name a hlookup hgeneration

lemma popExpired_keeps {item item' : PendingPacket} (hlock : c.lock = .free)
    (hpop : c.ctl.popExpired now = some (item', rc)) (hmem : item ∈ c.timers)
    (hne : item ≠ item') : item ∈ rc.pq.map Prod.fst := by
  obtain ⟨expiration, -, hpq⟩ := popExpired_pq hpop
  rw [timers_of_free hlock] at hmem
  obtain ⟨entry, hentry, rfl⟩ := mem_map.mp hmem
  rw [hpq]
  refine mem_map_of_mem ((mem_erase_of_ne fun heq => hne ?_).mpr hentry)
  rw [heq]

/-- The scheduler does not take the clock of a name of data transmission away: it has it in hand. -/
lemma clocked_expire {m : CoreMove} (howned : OwnedCore cfg c) (hstamped : Stamped c)
    (hm : c.Moves (.expire now) m) (h : c.Clocked (cfg.dtName i k)) :
    (c.apply cfg m).Clocked (cfg.dtName i k) := by
  obtain ⟨item, hitem, hcurrent⟩ := h
  have hname := hstamped.current hitem hcurrent
  cases hm with
  | stay => exact ⟨item, hitem, hcurrent⟩
  | @expireStale item' ctl _ hlock hpop hstale =>
    have hgen := (currentGeneration_congr (popExpired_active hpop).1 _).trans hcurrent
    have hne : item ≠ item' := by
      rintro rfl
      rw [hname, isCurrent_iff.mpr hgen] at hstale
      cases hstale
    exact ⟨item, mem_append_right _ (popExpired_keeps hlock hpop hitem hne), hgen⟩
  | @expirePD item' ctl _ hlock hpop hcurrent' hmode =>
    have hgen := (currentGeneration_congr (popExpired_active hpop).1 _).trans hcurrent
    -- the attempt that is removed is one of path discovery
    have hname' : item'.name ≠ cfg.dtName i k := by
      obtain ⟨a, hlookup, hpd⟩ := Option.map_eq_some_iff.mp hmode
      rw [(popExpired_active hpop).1] at hlookup
      exact (hpd ▸ (howned.active _ a hlookup).names).ne_dtName
    have hne : item ≠ item' := fun heq => hname' (heq ▸ hname)
    have hkept : item ∈ ctl.pq.map Prod.fst := popExpired_keeps hlock hpop hitem hne
    exact ⟨item, mem_append_right _ hkept,
      (currentGeneration_remove_of_ne hname'.symm).trans hgen⟩
  | @expireDT item' ctl _ hlock hpop =>
    have hgen := (currentGeneration_congr (popExpired_active hpop).1 _).trans hcurrent
    by_cases heq : item = item'
    · exact ⟨item, heq ▸ List.mem_append_left _ (List.mem_singleton_self _), hgen⟩
    · exact ⟨item, mem_append_right _ (popExpired_keeps hlock hpop hitem heq), hgen⟩

/-- `Add` sets the clock of its name. -/
lemma clocked_add {seq : ℤ} {flow : ℕ} {mode : TransmissionMode} {baseRTO : ℚ}
    (h : c.ctl = rc.add name seq flow mode baseRTO now) : c.Clocked name := by
  let state := rc.newAttempt name seq flow mode baseRTO
  refine ⟨⟨name, seq, state.generation, state.attempt, state.rtoBackoffLevel, state.timeout, flow⟩,
    mem_append_right _ ?_, ?_⟩
  · rw [h, add, PriorityQueue.push, map_append]
    exact List.mem_append_right _ (List.mem_singleton_self _)
  · rw [h, add, currentGeneration, AList.lookup_insert]
    rfl

/-- A clock stays set, or is replaced by that of the next attempt, unless the name is dropped or
the scheduler ends with it. -/
lemma clocked_step (op : CoreOp) (howned : OwnedCore cfg c) (hstamped : Stamped c)
    (hcomplete : op ≠ .complete (cfg.dtName i k))
    (hremove : ∀ generation, op ≠ .removeIfCurrent (cfg.dtName i k) generation)
    (h : c.Clocked (cfg.dtName i k)) :
    (coreStep cfg c op).Clocked (cfg.dtName i k)
      ∨ ∃ item, op = .expireEnd ∧ c.lock = .expiring item ∧ item.name = cfg.dtName i k := by
  by_cases hexpire : ∃ now, op = .expire now
  · obtain ⟨now, rfl⟩ := hexpire
    exact .inl (clocked_expire howned hstamped (c.moves _) h)
  rw [coreStep]
  have hm := c.moves op
  generalize c.move op = m at hm ⊢
  obtain ⟨item, hitem, hcurrent⟩ := h
  cases hm with
  | addBegin hlock =>
    rw [timers_of_free hlock] at hitem
    exact .inl ⟨item, mem_append_right _ hitem, hcurrent⟩
  | @addEnd name seq flow mode baseRTO now hlock =>
    rw [timers, hlock, nil_append] at hitem
    refine .inl ?_
    by_cases hname : cfg.dtName i k = name
    · rw [hname]
      exact clocked_add rfl
    · refine ⟨item, mem_append_right _ ?_, ?_⟩
      · exact map_subset _ (subset_append_left _ _) hitem
      · rw [apply, add, currentGeneration, AList.lookup_insert_ne hname]
        exact hcurrent
  | @removeIfCurrent name generation hlock =>
    refine .inl ⟨item, hitem, (currentGeneration_remove_of_ne fun hname => ?_).trans hcurrent⟩
    exact hremove generation (by rw [hname])
  | complete name hlock =>
    refine .inl ⟨item, hitem, (currentGeneration_remove_of_ne fun hname => ?_).trans hcurrent⟩
    exact hcomplete (by rw [hname])
  | repair hlock htarget huntriggered =>
    have hturnover := (Core.Moves.repair hlock htarget huntriggered).turnover
    exact .inl ⟨item, hitem, (hturnover.currentGeneration_of_nil).trans hcurrent⟩
  | expireStale | expirePD | expireDT => exact absurd ⟨_, rfl⟩ hexpire
  | @expireEnd item' hlock =>
    have hname := hstamped.current hitem hcurrent
    rw [timers, hlock] at hitem
    rcases mem_cons.mp hitem with rfl | hitem
    · exact .inr ⟨item, rfl, hlock, hname⟩
    · exact .inl ⟨item, mem_append_right _ hitem, hcurrent⟩
  | _ => exact .inl ⟨item, hitem, hcurrent⟩

/-! ### The sender -/

/-- The sender is between popping or recording sequence `k` and the matching `Add`. -/
def SenderPc.Carries (k : ℤ) : SenderPc → Prop
  | .chosen seq true | .named _ seq true | .recorded _ seq _ | .adding _ seq _ => seq = k
  | _ => False

/-- The sender holds a name that was made before the switch to data transmission. -/
def SenderPc.Outdated (cfg : ConsumerConfig) (i : ℕ) : SenderPc → Prop
  | .named name seq _ | .recorded name seq _ | .adding name seq _ => name ≠ cfg.dtName i seq
  | _ => False

lemma SenderPc.not_carries_of_idle {pc : SenderPc} (h : pc.idle = true) : ¬ pc.Carries k := by
  cases pc <;> first | exact id | cases h

lemma SenderPc.not_outdated_of_idle {pc : SenderPc} (h : pc.idle = true) : ¬ pc.Outdated cfg i := by
  cases pc <;> first | exact id | cases h

/-- How a sender stops to carry a sequence, when every Interest can be made: it is refused, or
it is no longer pending, or `Add` is done. -/
inductive PutsDown (s : Consumer) (i : ℕ) (k : ℤ) (op : Option CoreOp) : Prop
  | refused {name : Name} (now : Time) (isRetransmission : Bool)
      (hpc : (s.driver.senders i).pc = .named name k isRetransmission)
      (hrefused : ((s.core.flows i).recordInterestSend name k now isRetransmission).2.2 = false)
  | answered {name : Name} {mode : TransmissionMode}
      (hpc : (s.driver.senders i).pc = .recorded name k mode)
      (hrto : (s.core.flows i).getRTOIfPending name k = none)
  | added {name : Name} {mode : TransmissionMode} {baseRTO : ℚ} (now : Time)
      (hpc : (s.driver.senders i).pc = .adding name k mode)
      (hlock : s.core.lock = .adding name k i mode baseRTO) (hop : op = some (.addEnd now))

lemma SenderStep.carries {op : Option CoreOp} {sender : Sender}
    (h : SenderStep cfg s e i op sender) (hmake : e.makesInterest = true)
    (hcarries : (s.driver.senders i).pc.Carries k) :
    sender.pc.Carries k ∨ PutsDown s i k op := by
  cases h with
  | idle hidle | pdTick hmode hidle => exact absurd hcarries (not_carries_of_idle hidle)
  | reset now hpc | popNone hpc | pop hpc | choose hpc =>
    rw [hpc] at hcarries
    exact hcarries.elim
  | skip hpc hskip =>
    rw [hmake] at hskip
    cases hskip
  | @name seq isRetransmission hpc | @record name seq isRetransmission now hpc =>
    rw [hpc] at hcarries
    cases isRetransmission with
    | true => exact .inl hcarries
    | false => exact hcarries.elim
  | @refuse name seq isRetransmission now hpc hrefused =>
    rw [hpc] at hcarries
    cases isRetransmission with
    | true =>
      obtain rfl : seq = k := hcarries
      exact .inr (.refused now true hpc hrefused)
    | false => exact hcarries.elim
  | @addNone name seq mode hpc hlock hrto =>
    rw [hpc] at hcarries
    obtain rfl : seq = k := hcarries
    exact .inr (.answered hpc hrto)
  | addBegin hpc =>
    rw [hpc] at hcarries
    exact .inl hcarries

lemma SenderStep.outdated {op : Option CoreOp} {sender : Sender}
    (h : SenderStep cfg s e i op sender) (howned : Owned cfg s)
    (houtdated : sender.pc.Outdated cfg i) :
    (s.driver.senders i).pc.Outdated cfg i ∨ (s.core.flows i).mode = .pd := by
  cases h with
  | idle hidle hidle' | pdTick hmode hidle hidle' =>
    exact absurd houtdated (not_outdated_of_idle hidle')
  | reset now hpc => exact .inl houtdated
  | @name seq isRetransmission hpc =>
    cases hmode : (s.core.flows i).mode with
    | pd => exact .inr rfl
    | dt => exact absurd ((howned.core.named i).dtName hmode) houtdated
  | record now hpc | addBegin hpc =>
    rw [hpc]
    exact .inl houtdated
  | _ => exact houtdated.elim

namespace Consumer.Moves

variable {m : ConsumerMove}

section

variable (hm : s.Moves cfg e m)
include hm

lemma carries (hmake : e.makesInterest = true)
    (hcarries : (s.driver.senders i).pc.Carries k) :
    (m.driver.senders i).pc.Carries k ∨ PutsDown s i k m.op := by
  have hcases := hm.sender_cases i
  generalize m.driver.senders i = sender at hcases ⊢
  generalize m.op = op at hcases ⊢
  cases hcases with
  | stay | signal => exact .inl hcarries
  | step hstep => exact hstep.carries hmake hcarries
  | @addEnd name seq mode baseRTO now hpc hlock =>
    rw [hpc] at hcarries
    obtain rfl : seq = k := hcarries
    exact .inr (.added now hpc hlock rfl)

lemma outdated (howned : Owned cfg s)
    (houtdated : (m.driver.senders i).pc.Outdated cfg i) :
    (s.driver.senders i).pc.Outdated cfg i ∨ (s.core.flows i).mode = .pd := by
  have hcases := hm.sender_cases i
  generalize m.driver.senders i = sender at hcases houtdated
  generalize m.op = op at hcases
  cases hcases with
  | stay | signal => exact .inl houtdated
  | step hstep => exact hstep.outdated howned houtdated
  | addEnd => exact houtdated.elim

lemma complete_task (hop : m.op = some (.complete name)) : Task.complete name ∈ s.driver.tasks := by
  cases hm with
  | sender hstep => cases hstep <;> cases hop
  | complete hget =>
    cases hop
    exact mem_of_getElem? hget
  | _ => cases hop

lemma remove_attempt {generation : ℕ}
    (hop : m.op = some (.removeIfCurrent name generation)) :
    ∃ a ∈ s.driver.attempts, a.name = name ∧ a.mode = .pd := by
  cases hm with
  | sender hstep => cases hstep <;> cases hop
  | nackPD hget hlock hmode | nackStale hget hlock hmode =>
    cases hop
    exact ⟨_, mem_of_getElem? hget, rfl, hmode⟩
  | _ => cases hop

end

end Consumer.Moves

lemma SenderMoves.pop {sender : Sender} (h : SenderMoves cfg s e i (some (.onFlow i .pop)) sender)
    (hpop : (s.core.flows i).popRetransmission.2 = some k) : sender.pc = .chosen k true := by
  cases h with
  | stay hop => cases hop _ rfl
  | step hstep =>
    cases hstep with
    | popNone hpc hnone => cases hnone.symm.trans hpop
    | pop hpc hsome =>
      cases hsome.symm.trans hpop
      rfl

/-! ### The invariant -/

/-- Sequence `k` of an unfinished flow is pending and has not been received. -/
structure Wanted (cfg : ConsumerConfig) (i : ℕ) (k : ℤ) (f : FlowContext) : Prop where
  mode : f.mode = .dt
  unfinished : f.isFinished = false
  pending : cfg.dtName i k ∈ f.pendingSends
  unreceived : k ∉ f.receivedSeqs

/-- Someone sees to sequence `k`. -/
def SeenTo (cfg : ConsumerConfig) (i : ℕ) (k : ℤ) (s : Consumer) : Prop :=
  s.core.Clocked (cfg.dtName i k) ∨ k ∈ (s.core.flows i).retxQueued
    ∨ (s.driver.senders i).pc.Carries k

/-- Every wanted sequence is seen to, and none is pending while the sender still holds a name of
path discovery. -/
structure Recovering (cfg : ConsumerConfig) (i : ℕ) (s : Consumer) : Prop where
  owned : Owned cfg s
  outdated : (s.driver.senders i).pc.Outdated cfg i →
    ∀ k, cfg.dtName i k ∉ (s.core.flows i).pendingSends
  covered : ∀ k, Wanted cfg i k (s.core.flows i) → SeenTo cfg i k s

lemma Owned.unfinished (h : Owned cfg s) (hmode : (s.core.flows i).mode = .dt)
    (hunfinished : ((consumerStep cfg s e).core.flows i).isFinished = false) :
    (s.core.flows i).isFinished = false := by
  refine (flow_step (I := fun f : FlowContext => f.mode = .dt
      ∧ (f.isFinished = false → (s.core.flows i).isFinished = false))
    (fun f op hf (hop : op.stays) => ?_) ⟨hmode, id⟩ (h.meets_stays hmode)).2 hunfinished
  have hstep : DtStep cfg f op (flowStep cfg f op) := dtStep_flowStep hf.1
  exact ⟨hstep.mode_eq hf.1, fun hunfinished' => hf.2 (hstep.unfinished hop hunfinished')⟩

/-- A sequence that is wanted after a step was wanted before it, or has just been sent. -/
lemma Owned.wanted_before (h : Owned cfg s)
    (hwanted : Wanted cfg i k ((consumerStep cfg s e).core.flows i)) :
    (s.core.flows i).mode = .dt ∧ (s.core.flows i).isFinished = false
      ∧ k ∉ (s.core.flows i).receivedSeqs
      ∧ (cfg.dtName i k ∈ (s.core.flows i).pendingSends
        ∨ ∃ seq now isRetransmission, (s.move cfg e).op
          = some (.onFlow i (.record (cfg.dtName i k) seq now isRetransmission))) := by
  have hmode : (s.core.flows i).mode = .dt := by
    rw [← hwanted.mode, h.mode_eq]
    intro now hswitch
    have hpending := hwanted.pending
    rw [flows_onFlow hswitch] at hpending
    exact AList.notMem_empty _ hpending
  exact ⟨hmode, h.unfinished hmode hwanted.unfinished,
    fun hreceived => hwanted.unreceived (h.receivedSeqs_subset hmode hreceived),
    h.mem_pendingSends hwanted.pending⟩

lemma clocked_addEnd (hop : (s.move cfg e).op = some (.addEnd now)) {seq : ℤ} {flow : ℕ}
    {mode : TransmissionMode} {baseRTO : ℚ}
    (hlock : s.core.lock = .adding name seq flow mode baseRTO) :
    (consumerStep cfg s e).core.Clocked name := by
  rw [core_consumerStep_some hop]
  have hctl : (coreStep cfg s.core (.addEnd now)).ctl
      = s.core.ctl.add name seq flow mode baseRTO now := by
    simp only [coreStep, apply, move, addEndMove, hlock]
  exact clocked_add hctl

namespace Recovering

section

variable (h : Recovering cfg i s)
include h

/-- The sender that adds a sequence which is pending does so under its name. -/
lemma name_eq {mode : TransmissionMode}
    (hpending : cfg.dtName i k ∈ (s.core.flows i).pendingSends)
    (hpc : (s.driver.senders i).pc = .recorded name k mode
      ∨ (s.driver.senders i).pc = .adding name k mode) : name = cfg.dtName i k := by
  by_contra hne
  refine h.outdated ?_ k hpending
  rcases hpc with hpc | hpc <;> rw [hpc] <;> exact hne

/-- What becomes of a mark. -/
lemma marked_step
    (hwanted : Wanted cfg i k ((consumerStep cfg s e).core.flows i))
    (hpending : cfg.dtName i k ∈ (s.core.flows i).pendingSends)
    (hmarked : k ∈ (s.core.flows i).retxQueued) : SeenTo cfg i k (consumerStep cfg s e) := by
  obtain ⟨hmode, hunfinished, -, -⟩ := h.owned.wanted_before hwanted
  by_cases hpop : (s.move cfg e).op = some (.onFlow i .pop)
  · have hsender := (s.moves cfg e).sender_cases i
    rw [hpop] at hsender
    have hdue : (s.core.flows i).RetxDue k :=
      ⟨hmarked, hmode, hunfinished, ((h.owned.core.named i).dtName hmode).symm ▸ hpending⟩
    obtain hin | hreturned := hdue.pop
    · refine .inr (.inl ?_)
      rw [flows_onFlow hpop]
      exact hin
    · refine .inr (.inr ?_)
      have hpc : ((consumerStep cfg s e).driver.senders i).pc = .chosen k true :=
        hsender.pop hreturned
      rw [hpc]
      rfl
  by_cases hadd : ∃ now name mode baseRTO, (s.move cfg e).op = some (.addEnd now)
      ∧ s.core.lock = .adding name k i mode baseRTO
  · obtain ⟨now, name, mode, baseRTO, hop, hlock⟩ := hadd
    have hname := h.name_eq hpending (.inr (((s.moves cfg e).addEnd_sender hop hlock).1))
    exact .inl (hname ▸ clocked_addEnd hop hlock)
  · -- no section that the step enters takes the mark away
    refine .inr (.inl ?_)
    refine (flow_step (I := fun f : FlowContext => f.mode = .dt
        ∧ (f.isFinished = false → k ∉ f.receivedSeqs → k ∈ f.retxQueued))
      (fun f op hf (hop : op.KeepsMark k) => ?_)
      ⟨hmode, fun _ _ => hmarked⟩ ?_).2 hwanted.unfinished hwanted.unreceived
    · have hstep : DtStep cfg f op (flowStep cfg f op) := dtStep_flowStep hf.1
      refine ⟨hstep.mode_eq hf.1, fun hunfinished' hunreceived' => ?_⟩
      refine mem_retxQueued_step hf.1 hop hunfinished' hunreceived' (hf.2 ?_ ?_)
      · exact hstep.unfinished hop.stays hunfinished'
      · exact fun hreceived => hunreceived' (hstep.receivedSeqs_subset hop.stays hreceived)
    · refine Steps.guarded_of_forall_mem (fun fop hfop _ => ?_) _
      obtain ⟨op, hop, hflow, hmem⟩ := mem_sections hfop
      rcases (s.core.moves op).mem_ops hmem with heq | ⟨hbooks, -⟩
        | ⟨now, name, seq, mode, baseRTO, heq, hlock, hinstall⟩
      · rw [heq, hflow] at hop
        refine ⟨?_, ?_, ?_⟩
        · rintro now rfl
          exact TransmissionMode.noConfusion
            (((s.moves cfg e).switch h.owned hop).1.symm.trans hmode)
        · rintro rfl
          exact hpop hop
        · rintro generation isFastRepair rfl
          exact (s.moves cfg e).no_install hop
      · exact FlowOp.keepsMark_of_books hbooks
      · rw [heq] at hop
        rw [hflow] at hlock
        subst hinstall
        refine ⟨by rintro now ⟨⟩, by rintro ⟨⟩, ?_⟩
        rintro generation isFastRepair heq'
        cases heq'
        exact hadd ⟨now, name, mode, baseRTO, hop, hlock⟩

/-- A name of data transmission is not dropped before its sequence is received. -/
lemma not_dropped (hunreceived : k ∉ (s.core.flows i).receivedSeqs) :
    (s.move cfg e).op ≠ some (.complete (cfg.dtName i k))
      ∧ ∀ generation, (s.move cfg e).op
        ≠ some (.removeIfCurrent (cfg.dtName i k) generation) := by
  refine ⟨fun hop => ?_, fun generation hop => ?_⟩
  · obtain ⟨j, l, -, hpd | ⟨hname, -, hreceived⟩⟩ :=
      h.owned.tasks _ ((s.moves cfg e).complete_task hop)
    · exact hpd.ne_dtName rfl
    · have hnames : cfg.Names j l .dt (cfg.dtName i k) := hname ▸ .dt
      obtain ⟨rfl, rfl⟩ := hnames.unique .dt
      exact hunreceived hreceived
  · obtain ⟨a, ha, hname, hmode⟩ := (s.moves cfg e).remove_attempt hop
    obtain ⟨l, hissued⟩ := h.owned.attempts a ha
    exact (hmode ▸ hissued.names).ne_dtName hname

/-- What becomes of a clock. -/
lemma clock_step
    (hwanted : Wanted cfg i k ((consumerStep cfg s e).core.flows i))
    (hpending : cfg.dtName i k ∈ (s.core.flows i).pendingSends)
    (hclocked : s.core.Clocked (cfg.dtName i k)) : SeenTo cfg i k (consumerStep cfg s e) := by
  obtain ⟨hmode, hunfinished, hunreceived, -⟩ := h.owned.wanted_before hwanted
  obtain ⟨hcomplete, hremove⟩ := h.not_dropped hunreceived
  cases hop : (s.move cfg e).op with
  | none =>
    refine .inl ?_
    rw [core_consumerStep_none hop]
    exact hclocked
  | some op =>
    rw [hop] at hcomplete hremove
    rcases clocked_step op h.owned.core h.owned.stamped (fun heq => hcomplete (by rw [heq]))
      (fun generation heq => hremove generation (by rw [heq])) hclocked
      with hkept | ⟨item, rfl, hlock, hname⟩
    · refine .inl ?_
      rw [core_consumerStep_some hop]
      exact hkept
    · -- the scheduler marks the sequence whose timer it had in hand
      obtain ⟨mode, hissued⟩ := h.owned.core.timers item (by
        rw [timers, hlock]
        exact List.mem_append_left _ (List.mem_singleton_self _))
      obtain ⟨hflow, hseq⟩ := (hname ▸ hissued.names).unique (.dt : cfg.Names i k .dt _)
      have hqueue : k ∈ ((s.core.flows i).queueRetransmission k).1.retxQueued := by
        refine mem_retxQueued_queueRetransmission hmode hunfinished hunreceived ?_ ?_
        · have hrange := hissued.range.1
          omega
        · rw [(h.owned.core.named i).dtName hmode]
          exact hpending
      refine .inr (.inl ?_)
      rw [core_consumerStep_some hop, coreStep, apply_flows]
      simp only [move, expireEndMove, hlock, hflow, hseq, if_true]
      split_ifs <;> exact hqueue

/-- What becomes of a sequence that the sender carries. -/
lemma carried_step (hmake : e.makesInterest = true)
    (hwanted : Wanted cfg i k ((consumerStep cfg s e).core.flows i))
    (hpending : cfg.dtName i k ∈ (s.core.flows i).pendingSends)
    (hcarries : (s.driver.senders i).pc.Carries k) : SeenTo cfg i k (consumerStep cfg s e) := by
  obtain ⟨hmode, hunfinished, hunreceived, -⟩ := h.owned.wanted_before hwanted
  rcases (s.moves cfg e).carries hmake hcarries with hpc | hdown
  · exact .inr (.inr hpc)
  · cases hdown with
    | refused now isRetransmission hpc hrefused =>
      rw [recordInterestSend_dt hmode, if_neg (by simp [hunfinished, hunreceived])] at hrefused
      cases hrefused
    | answered hpc hrto =>
      rw [h.name_eq hpending (.inl hpc), getRTOIfPending, if_neg (not_not.mpr hpending),
        if_neg (by simp [hunfinished, hunreceived])] at hrto
      cases hrto
    | added now hpc hlock hop =>
      exact .inl (h.name_eq hpending (.inr hpc) ▸ clocked_addEnd hop hlock)

lemma step (hmake : e.makesInterest = true) : Recovering cfg i (consumerStep cfg s e) where
  owned := h.owned.step
  outdated := by
    intro houtdated k hmem
    rcases h.owned.mem_pendingSends hmem with hold | ⟨seq, now, isRetransmission, hrecord⟩
    · rcases (s.moves cfg e).outdated h.owned houtdated with hbefore | hmode
      · exact h.outdated hbefore k hold
      · obtain ⟨l, -, hnames⟩ := (h.owned.core.named i).pending _ hold
        exact (hmode ▸ hnames).ne_dtName rfl
    · -- what was just recorded is the name that the sender holds
      have hsender := (s.moves cfg e).sender_cases i
      rw [hrecord] at hsender
      have hnames := ((s.moves cfg e).op_owned h.owned hrecord).2
      have hdriver : (s.move cfg e).driver = (consumerStep cfg s e).driver := rfl
      rcases hsender.record.2 with ⟨-, hpc⟩ | ⟨-, hpc⟩ <;> rw [hdriver] at hpc <;>
        rw [hpc] at houtdated
      · exact houtdated
      · rw [(hnames.unique (.dt : cfg.Names i k .dt _)).2] at houtdated
        exact houtdated rfl
  covered := by
    intro k hwanted
    obtain ⟨hmode, hunfinished, hunreceived, hpending⟩ := h.owned.wanted_before hwanted
    rcases hpending with hpending | ⟨seq, now, isRetransmission, hrecord⟩
    · rcases h.covered k ⟨hmode, hunfinished, hpending, hunreceived⟩ with
        hclock | hmarked | hcarries
      · exact h.clock_step hwanted hpending hclock
      · exact h.marked_step hwanted hpending hmarked
      · exact h.carried_step hmake hwanted hpending hcarries
    · have hsender := (s.moves cfg e).sender_cases i
      rw [hrecord] at hsender
      have hnames := ((s.moves cfg e).op_owned h.owned hrecord).2
      obtain rfl : seq = k := (hnames.unique (.dt : cfg.Names i k .dt _)).2
      rcases hsender.record.2 with ⟨hrefused, -⟩ | ⟨-, hpc⟩
      · rw [recordInterestSend_dt hmode, if_neg (by simp [hunfinished, hunreceived])] at hrefused
        cases hrefused
      · have hdriver : (s.move cfg e).driver = (consumerStep cfg s e).driver := rfl
        rw [hdriver] at hpc
        refine .inr (.inr ?_)
        rw [hpc]
        rfl

end

end Recovering

lemma recovering_run {es : List ConsumerEvent} (h : ∀ e ∈ es, e.makesInterest = true) :
    Recovering cfg i (consumerRun cfg (.new cfg now) es) := by
  refine Steps.guarded_invariant (I := Recovering cfg i)
    (fun s e hs (he : e.makesInterest = true) => hs.step he) ?_
    (Steps.guarded_of_forall_mem (fun e he _ => h e he) _)
  refine ⟨owned_new cfg now, fun hout => hout.elim, fun k hwanted => ?_⟩
  have hpending := hwanted.pending
  simp only [Consumer.new, newFlowContext] at hpending
  cases hinit : cfg.initialMode <;> rw [hinit] at hpending <;>
    exact absurd hpending (AList.notMem_empty _)

/-- A consumer that starts with data transmission sends what `SendsInRange` says. -/
lemma Owned.sendsInRange (h : Owned cfg s) (hinit : cfg.initialMode = .dt) :
    s.Meets cfg (SendsInRange cfg) i e := by
  refine Consumer.meets_of (fun f op hquiet => ?_) fun op hop => ?_
  · cases op <;> trivial
  · have hmode := (h.undiscovered hinit i).1
    cases op with
    | record name seq now isRetransmission =>
      obtain ⟨hrange, hnames⟩ := (s.moves cfg e).op_owned h hop
      exact ⟨(hnames.eq_dtName hinit).trans ((h.core.named i).dtName hmode).symm, hrange⟩
    | switch now =>
      exact TransmissionMode.noConfusion (((s.moves cfg e).switch h hop).1.symm.trans hmode)
    | _ => trivial

/-- Its flows are in a transfer from the start. -/
lemma transfer_consumerRun {es : List ConsumerEvent} (hinit : cfg.initialMode = .dt) :
    ∃ out, Transfer cfg 0 out ((consumerRun cfg (.new cfg now) es).core.flows i) := by
  refine (Steps.run_invariant (I := fun s => Owned cfg s ∧
    ∃ out, Transfer cfg 0 out (s.core.flows i)) (fun s e hs => ⟨hs.1.step, ?_⟩)
    ⟨owned_new cfg now, [], ?_⟩ es).2
  · refine flow_step (I := fun f => ∃ out, Transfer cfg 0 out f) (fun f op hf hop => ?_) hs.2
      (hs.1.sendsInRange hinit)
    obtain ⟨out, htransfer⟩ := hf
    exact ⟨_, transfer_step htransfer hop⟩
  · simp only [Consumer.new, newFlowContext, hinit]
    exact transfer_switchToDT { flowPrefix := cfg.flowPrefix i, baseName := [], mode := .dt
                                currentRate := 0, rto := 0, startTime := now, endTime := now } now

/-- **No request of a transfer is lost**: in every run in which Interests can be made, every
sequence of an unfinished flow that is pending, and not received, has the timer of its current
attempt set (or in the hand of the scheduler, while it holds the lock of the controller), or is
marked for retransmission, or is carried by the sender.  In a consumer that starts with data
transmission, no sequence is pending and received. -/
theorem requests_never_lost (cfg : ConsumerConfig) (now : Time) (i : ℕ) (es : List ConsumerEvent)
    (h : ∀ e ∈ es, e.makesInterest = true) :
    let s := consumerRun cfg (.new cfg now) es
    let f := s.core.flows i
    f.mode = .dt → f.isFinished = false → ∀ k, f.interestNameForSeq k ∈ f.pendingSends →
      cfg.initialMode = .dt ∨ k ∉ f.receivedSeqs →
      (∃ item ∈ s.core.timers,
          (s.core.ctl.active.lookup (f.interestNameForSeq k)).map ActiveAttempt.generation
            = some item.generation)
        ∨ k ∈ f.retxQueued ∨ (s.driver.senders i).pc.Carries k := by
  intro s f hmode hunfinished k hpending hcase
  have hrecovering : Recovering cfg i s := recovering_run h
  have hunreceived : k ∉ f.receivedSeqs := by
    rcases hcase with hinit | hunreceived
    · obtain ⟨out, htransfer⟩ := transfer_consumerRun hinit
      obtain ⟨l, -, hl, heq⟩ := htransfer.pending _ hpending
      rwa [seqName_injective heq]
    · exact hunreceived
  have hname : f.interestNameForSeq k = cfg.dtName i k :=
    (hrecovering.owned.core.named i).dtName hmode
  rw [hname] at hpending ⊢
  exact hrecovering.covered k ⟨hmode, hunfinished, hpending, hunreceived⟩

/-- One Interest has been sent, and its timer has expired. -/
theorem requests_never_lost_one :
    let es : List ConsumerEvent := .tick 0 (2 * millisecond)
      :: replicate 7 (.advance 0 (2 * millisecond) true) ++ [.expire 4000000000, .expireEnd]
    let s := consumerRun (soleConsumer .dt) (.new (soleConsumer .dt) 0) es
    let f := s.core.flows 0
    f.interestNameForSeq 1 ∈ f.pendingSends ∧ s.core.timers = []
      ∧ ((∃ item ∈ s.core.timers,
          (s.core.ctl.active.lookup (f.interestNameForSeq 1)).map ActiveAttempt.generation
            = some item.generation)
        ∨ 1 ∈ f.retxQueued ∨ (s.driver.senders 0).pc.Carries 1) := by
  intro es s f
  refine ⟨by decide +kernel, by decide +kernel, ?_⟩
  refine requests_never_lost (soleConsumer .dt) 0 0 es ?_ ?_ ?_ 1 ?_ (.inl rfl)
  · decide +kernel
  · decide +kernel
  · decide +kernel
  · decide +kernel

/-- Path discovery ends while its second Interest has a name but is not recorded.  Recorded after
the switch, it brings sequence `2` by a payload of data transmission, while the name that data
transmission has for it is pending; when its timer expires, the sequence is not marked again. -/
theorem received_name_stays_pending :
    let es : List ConsumerEvent := .tick 0 (2 * millisecond)
      :: replicate 9 (.advance 0 (2 * millisecond) true)
      ++ [.callback 0 (.data [1, 1]) (3 * millisecond), .start 0 (3 * millisecond)]
      ++ replicate 4 (.advance 0 (4 * millisecond) true)
      ++ [.signal 0, .reset 0 (4 * millisecond), .tick 0 (7 * millisecond)]
      ++ replicate 14 (.advance 0 (7 * millisecond) true)
      ++ .callback 2 (.data (replicate dataPacketSize 0)) (8 * millisecond)
      :: (replicate 4 [.expire 9000000000, .expireEnd]).flatten
    let s := consumerRun (soleConsumer .pd) (.new (soleConsumer .pd) 0) es
    let f := s.core.flows 0
    f.mode = .dt ∧ f.isFinished = false ∧ f.interestNameForSeq 2 ∈ f.pendingSends
      ∧ 2 ∈ f.receivedSeqs ∧ s.core.timers = [] ∧ 2 ∉ f.retxQueued
      ∧ (s.driver.senders 0).pc = .looping := by
  decide +kernel

end Mars
