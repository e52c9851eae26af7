import Mars.Dt.Items
import Mars.Fw.PitSteps

/-!
The PIT entries of queued Interests.

A queued item keeps a reference to the PIT entry of its Interest.

* `calls_interest`, `calls_data`: how an event calls the strategy of the thread;
* `QueueBacked`: the PIT entry of every Interest in the queues of the thread is an entry of its
  PIT, under the name of the Interest; every step keeps this but the expiry of an entry that an
  item refers to (`queueBacked_step`);
* `queued_interest_keeps_entry`: what is drained from the queues has such an entry.
-/

namespace Mars

variable {cfg : ThreadConfig} {t t' : Thread} {e : ℕ} {now : Time} {inFace : Face}
  {packet : FwInterest} {ok ok' : FwInterest → ℕ → Prop} {start : Node}

/-! ### Steps of the node -/

/-- The entry of a DT Interest is in the PIT when the strategy has it. -/
lemma calls_interest {pkt : InterestPkt} (hwf : PitWf t.pitCS)
    (hname : packetType pkt.interest.name = .dt → t.pitCS.Unmistaken cfg.table pkt.interest.name)
    {pick : ℕ} {wish : List Str} {csWish : List ℕ} :
    let t' := (processIncomingInterest cfg t pkt now pick wish csWish).1
    Calls cfg (fun packet e => t'.pitCS.Backs e packet.name) t.node t'.node := by
  generalize hr : processIncomingInterest cfg t pkt now pick wish csWish = r
  cases interestCase hr with
  | dropped | looped => exact .inl rfl
  | @entered nonce e q hq incoming hint =>
    obtain ⟨hgrows, hbacks⟩ := insertPkt_spec hq.inserts hwf
    have hadmits := admits_admitInterest cfg { t with pitCS := q } pkt nonce incoming hint e now
      wish csWish
    refine hadmits.calls.mono ?_
    rintro _ _ ⟨htype, rfl, rfl⟩
    exact ((grows_recordPkt hgrows.wf).andThen hadmits.enters.grows).backs _ _
      (hbacks (hname htype))

lemma calls_data {data : FwData} {pitToken : Bytes} :
    Calls cfg ok t.node (processIncomingData cfg t data inFace pitToken now).1.node := by
  have hadmit : (admitData cfg t data now).node = t.node := by
    unfold admitData
    split_ifs <;> rfl
  unfold processIncomingData
  split
  · exact .inl rfl
  · dsimp only
    split_ifs
    · exact .inl rfl
    · rw [← hadmit]
      split
      · exact .inl rfl
      · exact (serves_afterReceiveData _).calls
      · exact .inl (each_invariant (I := fun t' => t'.node = (admitData cfg t data now).node)
          (fun _ _ h => h) rfl)

/-! ### The queues -/

/-- An item of thread `threadID` has its entry in the PIT. -/
def Backed (threadID : ℕ) (p : PitCsTree) (thread : ℕ) (_ : Str) (item : InterestQueueItem) :
    Prop :=
  thread = threadID → p.Backs item.pitEntry item.packet.name

/-- The PIT is well formed, and holds the entries of all queued Interests of the thread. -/
structure QueueBacked (cfg : ThreadConfig) (t : Thread) : Prop where
  pit : PitWf t.pitCS
  items : NodeItems (Backed cfg.threadID t.pitCS) t.node

lemma queueBacked_new : QueueBacked cfg .new := ⟨pitWf_new, nodeItems_new⟩

/-- A step that takes no entry away keeps it, if the entry of a DT Interest that may be queued is in
the PIT. -/
lemma QueueBacked.calls (h : QueueBacked cfg t) (hgrows : Grows t.pitCS t'.pitCS)
    (hcalls : Calls cfg (fun packet e => t'.pitCS.Backs e packet.name) t.node t'.node) :
    QueueBacked cfg t' where
  pit := hgrows.wf
  items := by
    have hitems : NodeItems (Backed cfg.threadID t'.pitCS) t.node :=
      fun thread key item hitem hown => hgrows.backs _ _ (h.items thread key item hitem hown)
    rcases hcalls with hnode | ⟨ev, hnode, hok⟩
    · rwa [hnode]
    · rw [hnode]
      refine hitems.step (fun _ _ _ _ hitem _ _ => hitem) ?_
      rintro threadID packet pitEntry inFace nexthops now wish hev _ _ rfl
      exact hok packet pitEntry inFace nexthops now wish hev

/-! ### Expiry -/

/-- No entry that an item of the thread refers to is due. -/
def NoQueuedDue (cfg : ThreadConfig) (t : Thread) (now : Time) : Prop :=
  ∀ due ∈ t.pitCS.pitExpiryQueue, due.2 ≤ unixNano now →
    ∀ key, ∀ item ∈ (t.node.dt.threads cfg.threadID).dtQueuesByPrefix key, item.pitEntry ≠ due.1

lemma QueueBacked.expireDue (h : QueueBacked cfg t) (hdue : NoQueuedDue cfg t now) {fuel : ℕ} :
    QueueBacked cfg (expireDue cfg now fuel t) := by
  induction fuel generalizing t with
  | zero => exact h
  | succ fuel ih =>
    unfold Mars.expireDue
    split
    · exact h
    · rename_i popped hpop
      obtain ⟨hsame, ⟨prio, hprio, hmem⟩, hrest⟩ := samePit_popExpired hpop
      have hpopped := hsame.grows h.pit
      obtain ⟨hwf, hkeep, hqueue⟩ := removeInterest_spec hpopped.wf
      refine ih ⟨hwf, ?_⟩ fun due hin => hdue due (hrest due (hqueue ▸ hin))
      rintro thread key item hitem rfl
      have hne : item.pitEntry ≠ popped.1 := hdue _ hmem hprio key item hitem
      exact hkeep _ _ hne (hpopped.backs _ _ (h.items cfg.threadID key item hitem rfl))

/-! ### Runs -/

/-- The steps that leave the queued Interests their entries: `Update` expires none of them, and
the hashes of a DT Interest do not lead to a node of another name. -/
def Spares (cfg : ThreadConfig) (t : Thread) : ThreadEvent → Prop
  | .interest pkt _ _ _ _ =>
    packetType pkt.interest.name = .dt → t.pitCS.Unmistaken cfg.table pkt.interest.name
  | .update now => NoQueuedDue cfg t now
  | _ => True

/-- **What one step keeps.** -/
lemma queueBacked_step (h : QueueBacked cfg t) {e : ThreadEvent} (he : Spares cfg t e) :
    QueueBacked cfg (threadStep cfg t e) := by
  by_cases hupdate : ∃ now, e = .update now
  · obtain ⟨now, rfl⟩ := hupdate
    exact h.expireDue he
  · have hgrows := ((pitStep_threadStep cfg t e).grows h.pit).resolve_right
      fun ⟨now, hev, _⟩ => hupdate ⟨now, hev⟩
    refine h.calls hgrows ?_
    cases e with
    | interest pkt now pick wish csWish => exact calls_interest h.pit he
    | data data inFace pitToken now => exact calls_data
    | nack interest inFace nackReason now =>
      simp only [threadStep, threadHandle, processIncomingNack]
      split_ifs
      · exact .inl rfl
      · split
        · exact .inl rfl
        · exact (serves_afterReceiveNack _).calls
    | deadNonces now | faceTable faces | fib fib | strategies strategies => exact .inl rfl
    | update now => exact absurd ⟨now, rfl⟩ hupdate
    | tick now wish => exact (serves_tick _).calls
    | node e =>
      simp only [threadStep, threadHandle]
      split_ifs with hthread
      · exact .inl rfl
      · refine .inr ⟨e, rfl, ?_⟩
        rintro _ _ _ _ _ _ rfl
        exact absurd rfl hthread

lemma queueBacked_threadRun {es : List ThreadEvent}
    (hes : Steps.Guarded (threadStep cfg) (Spares cfg) .new es) :
    QueueBacked cfg (threadRun cfg es) :=
  Steps.guarded_invariant (I := QueueBacked cfg) (fun _ _ h he => queueBacked_step h he)
    queueBacked_new hes

/-- The thread when a tick has sent `before` of what it drains. -/
def Thread.sending (cfg : ThreadConfig) (t : Thread) (now : Time) (wish : List Str)
    (before : List NodeAction) : Thread :=
  (Thread.each (sendQueued cfg now) before
    { t with node := nodeStep cfg.node t.node (.tick cfg.threadID now wish) }).1

/-- **A queued Interest has its PIT entry when it is sent**, in every run in which `Update`
expires no entry that a queued item refers to and no DT Interest is taken for another by the
hashes of its components. -/
theorem queued_interest_keeps_entry (cfg : ThreadConfig) (es : List ThreadEvent)
    (hes : Steps.Guarded (threadStep cfg) (Spares cfg) .new es) (now : Time) (wish : List Str)
    (before after : List NodeAction) (packet : FwInterest) (pitEntry : ℕ) (nexthop inFace : Face)
    (hdrained : drained cfg (threadRun cfg es) now wish
      = before ++ .sendInterest packet pitEntry nexthop inFace :: after) :
    ((threadRun cfg es).sending cfg now wish before).pitCS.Backs pitEntry packet.name := by
  have h := queueBacked_threadRun hes
  have hmem : NodeAction.sendInterest packet pitEntry nexthop inFace
      ∈ drained cfg (threadRun cfg es) now wish := by
    rw [hdrained]
    exact List.mem_append_right _ List.mem_cons_self
  obtain ⟨-, -, hsent⟩ := h.items.tick (fun _ _ _ hitem _ _ => hitem)
  obtain ⟨item, key, hitem, heq⟩ := hsent _ hmem
  cases heq
  have hsends : Sends _ ((threadRun cfg es).sending cfg now wish before) :=
    forwards_queued.sends
  exact (hsends.relays.grows h.pit).backs _ _ (hitem rfl)

/-- Faces, routes and `Multipath`, and a prefix that converges with the valid faces `2` and `3`. -/
def converged : List ThreadEvent :=
  .faceTable (fun _ => some ⟨false, false⟩) :: .fib (fun _ => [⟨2, 1⟩, ⟨3, 1⟩])
    :: .strategies (fun _ => .multipath) :: twoValidFaces.map .node

/-- A DT Interest arrives from face `9`; the pool would hand out entry `0`. -/
def arrival (seq : Char) (now : Time) : ThreadEvent :=
  .interest ⟨dtPacket seq, 9, [], none⟩ now 0 [] []

theorem queued_interest_keeps_entry_in_time :
    drained smallThread (threadRun smallThread (converged ++ [arrival '1' 0, .update 1000000]))
        4000000 [] = [.sendInterest (dtPacket '1') 0 2 9]
      ∧ ((threadRun smallThread (converged ++ [arrival '1' 0, .update 1000000])).sending smallThread
        4000000 [] []).pitCS.Backs 0 (dtPacket '1').name := by
  have hdrained : drained smallThread
      (threadRun smallThread (converged ++ [arrival '1' 0, .update 1000000])) 4000000 []
        = [.sendInterest (dtPacket '1') 0 2 9] := by decide +kernel
  have hlater : ∀ due ∈ (threadRun smallThread (converged ++ [arrival '1' 0])).pitCS.pitExpiryQueue,
      ¬due.2 ≤ unixNano 1000000 := by decide +kernel
  have hname : (threadRun smallThread converged).pitCS.Unmistaken smallThread.table
      (dtPacket '1').name := by
    unfold PitCsTree.Unmistaken
    decide +kernel
  refine ⟨hdrained, queued_interest_keeps_entry smallThread _ ?_ _ _ [] [] _ _ _ _ hdrained⟩
  exact ⟨trivial, trivial, trivial, trivial, trivial, trivial, fun _ => hname,
    fun due hin hle => absurd hle (hlater due hin), trivial⟩

/-- Interest `1` waits in its queue while its lifetime passes.  `Update` expires its entry,
Interest `2` gets the same entry from the pool, and the next tick sends Interest `1` with the
entry, and with the PIT token, of Interest `2`. -/
theorem queued_interest_outlives_entry :
    let expired := threadRun smallThread (converged ++ [arrival '1' 0, .update 4000000000])
    let reused := threadRun smallThread (converged
      ++ [arrival '1' 0, .update 4000000000, arrival '2' 4000000000])
    ¬expired.pitCS.HasEntry 0
      ∧ drained smallThread expired 4004000000 [] = [.sendInterest (dtPacket '1') 0 2 9]
      ∧ reused.pitCS.HasEntry 0 ∧ (reused.pitCS.entries 0).encname = (dtPacket '2').name
      ∧ (threadHandle smallThread reused (.tick 4004000000 [])).2
        = [.interest (dtPacket '1') 2 9 (makePitToken 0 2),
          .interest (dtPacket '2') 3 9 (makePitToken 0 2)]
      ∧ ¬(reused.sending smallThread 4004000000 [] []).pitCS.Backs 0 (dtPacket '1').name := by
  decide +kernel

end Mars
